import Ykern.Tree.Path
import Ykern.Tree.Refresh

/-!
# Paths below the file system transports

A directory or file node has two paths. Its path on the disk is built downwards, in a buffer
of bounded size, when its parent is filled, and entries whose path does not fit are left
out. Its path in the tree is found upwards from the names. The first segment of the latter
is the transport, which has the name of the directory it is mounted on, so the path in the
tree is the mount point and the path on the disk (`fs_getPath`).

What holds of every such node in every state of a run is that its path on the disk is that
of its parent and its own name, in full (`FsPlaced`).
-/

set_option autoImplicit false

namespace Ykern.Tree

open Overlay Genl

/-! ## What the callbacks create -/

/-- The file system, the path on the disk and the name of a directory or file. -/
def Node.fsEntry : Node → Option (Fs × CStr × CStr)
  | .dir fs fsPath displayName => some (fs, fsPath, displayName)
  | .file fs fsPath displayName _ => some (fs, fsPath, displayName)
  | _ => none

/-- The nodes of a file system. -/
def Node.isFs : Node → Bool
  | .transport _ | .dir _ _ _ | .file _ _ _ _ => true
  | _ => false

/-- What the callback of a node may create, whatever is on the disk: a transport its mount
point, a directory its entries, and other nodes no nodes of a file system. Without memory,
or when a directory is not opened, some are missing. -/
def FsPopulates (v : Node) (p : Populate Node) : Prop :=
  match v with
  | .transport fs => p.spawns.Sublist (Node.spawns none (.transport fs))
  | .dir fs fsPath _ => ∃ w listed, p.spawns.Sublist (dirSpawns w fs fsPath listed)
  | _ => ∀ s ∈ p.spawns, s.value.isFs = false

/-- A call whose callback creates what it may. -/
def FsCall (h : Heap Node) : Call Node → Prop
  | .refresh _ => True
  | .getChildren self p => ∀ v, h.valueAt self = some v → FsPopulates v p

/-- A directory or file is the mount point of its transport, or lies in the directory that is
its parent; its path is theirs with its name, and fits the buffer. -/
def EntryPlaced (parent : Option Node) (fs : Fs) (fsPath name : CStr) : Prop :=
  fsPath.length < pathMax ∧
    (parent = some (.transport fs) ∧ fsPath = fs.mount ∧ name = fs.name ∨
      ∃ above displayName, parent = some (.dir fs above displayName) ∧
        fsPath = above ++ lit "/" ++ name)

/-- A node of a file system is where it belongs. -/
structure FsPlaced (h : Heap Node) (root : Addr) (o : Obj Node) : Prop where
  entry : ∀ v fs fsPath name, o.impl = .node v → v.fsEntry = some (fs, fsPath, name) →
    EntryPlaced (h.parentValue o) fs fsPath name
  transport : ∀ fs, o.impl = .node (.transport fs) → o.parent = none ∨ o.parent = some root

/-- Any node that is no node of a file system is where it belongs. -/
theorem FsPlaced.of_other {h : Heap Node} {root : Addr} {o : Obj Node}
    (other : ∀ v, o.impl = .node v → v.isFs = false) : FsPlaced h root o := by
  refine ⟨?_, ?_⟩
  · intro v fs fsPath name impl entry
    have notFs := other v impl
    cases v with
    | dir | file => cases notFs
    | _ => cases entry
  · intro fs impl
    cases other _ impl

/-- The entry that is created lies in its directory. -/
theorem entrySpawn_placed (displayName : CStr) {w : World} {fs : Fs} {above name : CStr}
    {s : Spawn Node} (created : entrySpawn w fs above name = some s) :
    ∃ fsPath, s.value.fsEntry = some (fs, fsPath, name) ∧
      EntryPlaced (some (.dir fs above displayName)) fs fsPath name := by
  unfold entrySpawn at created
  dsimp only at created
  split at created
  · cases created
  · next fits =>
      have placed : EntryPlaced (some (.dir fs above displayName)) fs (above ++ lit "/" ++ name)
          name := ⟨Nat.lt_of_not_le fits, .inr ⟨above, displayName, rfl, rfl⟩⟩
      split at created
      · obtain rfl := Option.some.inj created
        exact ⟨_, rfl, placed⟩
      · obtain rfl := Option.some.inj created
        exact ⟨_, rfl, placed⟩
      · obtain rfl := Option.some.inj created
        exact ⟨_, rfl, placed⟩
      · obtain rfl := Option.some.inj created
        exact ⟨_, rfl, placed⟩
      · obtain rfl := Option.some.inj created
        exact ⟨_, rfl, placed⟩
      · obtain rfl := Option.some.inj created
        exact ⟨_, rfl, placed⟩
      · cases created

/-- **What a callback creates is where it belongs.** -/
theorem FsPopulates.placed {v : Node} {p : Populate Node} (populates : FsPopulates v p)
    {s : Spawn Node} (member : s ∈ p.spawns) :
    s.value.isFs = false ∨ ∃ fs fsPath name, s.value.fsEntry = some (fs, fsPath, name) ∧
      EntryPlaced (some v) fs fsPath name := by
  cases v with
  | transport fs =>
      obtain rfl := List.mem_singleton.mp (List.Sublist.subset populates member)
      refine .inr ⟨fs, fs.mount, fs.name, rfl, ?_, .inl ⟨rfl, rfl, rfl⟩⟩
      cases fs <;> decide
  | dir fs above displayName =>
      obtain ⟨w, listed, sublist⟩ := populates
      obtain ⟨name, -, created⟩ := List.mem_filterMap.mp (sublist.subset member)
      obtain ⟨fsPath, entry, placed⟩ := entrySpawn_placed displayName created
      exact .inr ⟨fs, fsPath, name, entry, placed⟩
  | _ => exact .inl (populates s member)

/-- **A call keeps the nodes of the file systems where they belong.** -/
theorem FsPlaced.call {h h' : Heap Node} {root : Addr} {pending all : List Addr} {c : Call Node}
    (owned : Owned h root pending all) (live : h.Live c.self) (called : h.call c = some h')
    (may : FsCall h c) (placed : ∀ a o, h.cells a = some o → FsPlaced h root o) :
    ∀ a o', h'.cells a = some o' → FsPlaced h' root o' := by
  intro a o' cell'
  have steady := owned.call_steady live called
  obtain ⟨h₁, pending', all', called', owned'⟩ := owned.call live
  obtain rfl := Option.some.inj (called.symm.trans called')
  rcases owned.call_origin live called cell' with
    ⟨o, cell, impl, parent⟩ | ⟨self, p, v, s, rfl, value, member, rfl⟩
  · have sameParent := steady.parentValue owned owned' cell cell' parent
    have before := placed a o cell
    refine ⟨?_, ?_⟩
    · intro v fs fsPath name isNode entry
      rw [sameParent]
      exact before.entry v fs fsPath name (impl v isNode) entry
    · intro fs isNode
      rcases parent with same | ⟨-, taken⟩
      · rw [same]
        exact before.transport fs (impl _ isNode)
      · exact .inr taken
  · -- A new child, whose parent is the object that is called.
    have parentValue : h'.parentValue (Heap.child self s.value) = some v := by
      show h'.valueAt self = some v
      rw [← value]
      exact steady.own.2
    rcases FsPopulates.placed (may v value) member with notFs | ⟨fs, fsPath, name, entry, isPlaced⟩
    · refine .of_other ?_
      intro v' isNode
      obtain rfl := Impl.node.inj isNode
      exact notFs
    · refine ⟨?_, ?_⟩
      · intro v' fs' fsPath' name' isNode entry'
        obtain rfl := Impl.node.inj isNode
        rw [entry] at entry'
        obtain ⟨rfl, rfl, rfl⟩ : fs = fs' ∧ fsPath = fsPath' ∧ name = name' := by
          simpa using entry'
        rw [parentValue]
        exact isPlaced
      · intro fs' isNode
        rw [Impl.node.inj isNode] at entry
        cases entry

/-! ## The two paths -/

/-- The names of nodes, which they always have. -/
def nodeNames (v : Node) : Except Error CStr := .ok v.getName

/-- The name of a directory or file. -/
theorem getName_of_fsEntry {v : Node} {fs : Fs} {fsPath name : CStr}
    (entry : v.fsEntry = some (fs, fsPath, name)) : v.getName = name := by
  cases v with
  | dir | file =>
      obtain ⟨-, -, rfl⟩ := Prod.mk.inj (Option.some.inj entry)
      rfl
  | _ => cases entry

/-- The mount point is its name behind a slash. -/
theorem mount_eq (fs : Fs) : fs.mount = lit "/" ++ fs.name := by
  cases fs <;> decide

/-- The node behind the parent of an object. -/
theorem exists_parent {h : Heap Node} {o : Obj Node} {v : Node}
    (value : h.parentValue o = some v) :
    ∃ p k, o.parent = some p ∧ h.cells p = some k ∧ k.impl = .node v := by
  obtain ⟨p, parent, valueP⟩ := Option.bind_eq_some_iff.mp value
  obtain ⟨k, cell, impl⟩ := Heap.cell_of_valueAt valueP
  exact ⟨p, k, parent, cell, impl⟩

/-- **The names on the way up from a directory or file** are the mount point and its path on
the disk. -/
theorem FsPlaced.climbs {h : Heap Node} {root : Addr} {pending all : List Addr}
    (owned : Owned h root pending all) (placed : ∀ a o, h.cells a = some o → FsPlaced h root o)
    {a : Addr} {o : Obj Node} {v : Node} {fs : Fs} {fsPath name : CStr}
    (cell : h.cells a = some o) (impl : o.impl = .node v)
    (entry : v.fsEntry = some (fs, fsPath, name)) :
    ∃ segs, h.Climbs nodeNames (some a) segs ∧ segs ≠ [] ∧
      joined slash segs = fs.mount ++ fsPath := by
  -- The path gets shorter towards the mount point.
  induction length : fsPath.length using Nat.strong_induction_on
    generalizing a o v fsPath name with
  | _ n ih =>
      subst length
      have isNamed : nodeNames v = .ok name := by rw [nodeNames, getName_of_fsEntry entry]
      have up {segs : List CStr} (further : h.Climbs nodeNames o.parent segs) :
          h.Climbs nodeNames (some a) (segs ++ [name]) :=
        .node cell impl isNamed further
      have ends (segs : List CStr) :
          joined slash (segs ++ [name]) = joined slash segs ++ (lit "/" ++ name) := by
        rw [joined, List.flatMap_append, List.flatMap_singleton]
        rfl
      rcases ((placed a o cell).entry v fs fsPath name impl entry).2 with
        ⟨parent, rfl, rfl⟩ | ⟨dirPath, displayName, parent, rfl⟩
      · obtain ⟨p, k, isParent, cellP, implP⟩ := exists_parent parent
        rw [isParent] at up
        have top : h.Climbs nodeNames k.parent [] := by
          obtain ⟨r, cellR, implR⟩ := owned.listed
          rcases (placed p k cellP).transport fs implP with none | attached
          · rw [none]
            exact .above
          · rw [attached]
            exact .root cellR implR
        refine ⟨[fs.name, fs.name], up (.node cellP implP rfl top), List.cons_ne_nil _ _, ?_⟩
        show joined slash (([] ++ [fs.name]) ++ [fs.name]) = _
        rw [ends, ends, ← mount_eq]
        rfl
      · obtain ⟨p, k, isParent, cellP, implP⟩ := exists_parent parent
        rw [isParent] at up
        have shorter : dirPath.length < (dirPath ++ lit "/" ++ name).length := by
          rw [List.length_append, List.length_append]
          have slashed : (lit "/").length = 1 := by decide
          omega
        obtain ⟨segs, climbs, -, path⟩ := ih _ shorter cellP implP rfl rfl
        refine ⟨segs ++ [name], up climbs, List.append_ne_nil_of_right_ne_nil _
          (List.cons_ne_nil _ _), ?_⟩
        rw [ends, path, List.append_assoc, List.append_assoc]

/-- **Below a file system transport the path of a directory or file is the mount point and its
path on the disk**, which was not cut. -/
theorem fs_getPath {transports : List Node} {calls : List (Call Node)} {h : Heap Node}
    (bare : ∀ v ∈ transports, v.fsEntry = none)
    (along : Along FsCall calls (Heap.rootCreate transports).2)
    (ran : Heap.run calls (Heap.rootCreate transports).2 = some h) {a : Addr} {v : Node} {fs : Fs}
    {fsPath name : CStr} (value : h.valueAt a = some v)
    (entry : v.fsEntry = some (fs, fsPath, name)) :
    fsPath.length < pathMax ∧ ∃ enough, ∀ steps, enough ≤ steps →
      h.getPath nodeNames true true steps a = some (.ok (fs.mount ++ fsPath)) := by
  obtain ⟨pending, created⟩ := rootCreate_owned transports
  have start : ∀ a o, (Heap.rootCreate transports).2.cells a = some o →
      FsPlaced (Heap.rootCreate transports).2 (Heap.rootCreate transports).1 o := by
    intro a o cell
    obtain ⟨impl, rfl, isTransport⟩ := Heap.rootCreate_new cell
    refine ⟨?_, fun _ _ => .inl rfl⟩
    intro v fs fsPath name isNode entry
    rw [bare v (isTransport v isNode)] at entry
    cases entry
  obtain ⟨pending', all', owned, placed⟩ := created.along_keeps
    (fun owned live called may placed => FsPlaced.call owned live called may placed) start along ran
  obtain ⟨o, cell, impl⟩ := Heap.cell_of_valueAt value
  obtain ⟨segs, climbs, nonempty, path⟩ := FsPlaced.climbs owned placed cell impl entry
  refine ⟨((placed a o cell).entry v fs fsPath name impl entry).1, segs.length + 1, ?_⟩
  intro steps enough
  rw [climbs.getPath enough, if_neg nonempty, path]

/-- A directory that has one directory. -/
def kernelWorld : World where
  base := []
  files := fun _ => .absent
  replies := []
  entries := fun _ => some [lit "kernel"]
  stat := fun _ => some .directory
  isSymlink := fun _ => false

/-- A directory that is found below the mount point of `sysfs`. -/
theorem sysKernel_getPath :
    let kernel : Node := .dir .sys (lit "/sys/kernel") (lit "kernel")
    let mount : Populate Node := ⟨(Node.transport .sys).spawns none, .ok (), fun _ => true⟩
    let entries : Populate Node := ⟨[⟨kernel, Fs.failed .sys "dir append failed", false⟩], .ok (),
      fun _ => true⟩
    ∃ h enough,
      Heap.run [.getChildren 1 mount, .getChildren 0 mount, .getChildren 2 entries]
          (Heap.rootCreate [.transport .sys]).2 = some h ∧
        ∀ steps, enough ≤ steps → h.getPath nodeNames true true steps 3 =
          some (.ok (Fs.mount .sys ++ lit "/sys/kernel")) := by
  intro kernel mount entries
  have found : dirSpawns kernelWorld .sys (lit "/sys") [lit "kernel"] = entries.spawns := by
    have sorted : sortedNames [lit "kernel"] = [lit "kernel"] := by
      have plain : ([lit "kernel"].filter fun name => name != lit "." && name != lit "..") =
          [lit "kernel"] := by decide
      rw [sortedNames, plain, List.mergeSort_singleton]
    rw [dirSpawns, sorted]
    rfl
  have along : Along FsCall [.getChildren 1 mount, .getChildren 0 mount, .getChildren 2 entries]
      (Heap.rootCreate [Node.transport .sys]).2 := by
    refine .cons (by rfl) (by rfl) ?_ (.cons (by rfl) (by rfl) ?_ (.cons (by rfl) (by rfl) ?_ ?_))
    · intro v impossible
      cases impossible
    · intro v value
      obtain rfl := Option.some.inj value
      exact List.Sublist.refl _
    · intro v value
      obtain rfl := Option.some.inj value
      exact ⟨kernelWorld, [lit "kernel"], found ▸ List.Sublist.refl _⟩
    · trivial
  obtain ⟨h, ran, value⟩ : ∃ h,
      Heap.run [.getChildren 1 mount, .getChildren 0 mount, .getChildren 2 entries]
          (Heap.rootCreate [.transport .sys]).2 = some h ∧ h.valueAt 3 = some kernel :=
    ⟨_, rfl, rfl⟩
  obtain ⟨-, enough, path⟩ := fs_getPath (by decide) along ran value rfl
  exact ⟨h, enough, ran, path⟩

end Ykern.Tree
