import Ykern.Tree.Nodes
import Ykern.Tree.Ownership

/-!
# Filling a directory

`populate_from_dir` collects the names that `readdir` lists in a growing array, sorts them,
and goes over them once. A name whose path does not fit the buffer is left out, a file that
`stat` cannot find is shown as a file, a file of another type is left out, and when a child
cannot be appended the function ends.

There are two copies of it. When there is memory, both append the same children in the same
order, whatever the order of the listing (`populateFromDir_determined`).
-/

set_option autoImplicit false

namespace Ykern.Tree

open Overlay

/-- The allocations of `populate_from_dir` that succeed: of the text of an error, of the array
and of the copies of names, by the number of names that are there, and of nodes, of what they
copy and of the array of children, by the number of nodes created. -/
structure ListingMemory where
  formats : Bool
  reallocs : Nat → Bool
  strdups : Nat → Bool
  callocs : Nat → Bool
  copies : Nat → Bool
  grows : Nat → Bool

/-- Every allocation succeeds. -/
structure ListingMemory.Succeeds (m : ListingMemory) : Prop where
  formats : m.formats = true
  reallocs : ∀ i, m.reallocs i = true
  strdups : ∀ i, m.strdups i = true
  callocs : ∀ i, m.callocs i = true
  copies : ∀ i, m.copies i = true
  grows : ∀ i, m.grows i = true

/-- What `populate_from_dir` returns when the directory is not opened. -/
def Fs.openFailed : Fs → Bool → Error
  | .proc, _ => ["yproc: opendir failed"]
  | .sys, true => ["ysys: opendir failed"]
  | .sys, false => ["ysys: opendir + format failed"]

/-- The loop over `readdir`. -/
def readNames (fs : Fs) (m : ListingMemory) :
    List CStr → GrowArray CStr → Except Error (GrowArray CStr)
  | [], names => .ok names
  | name :: listed, names =>
      if name = lit "." ∨ name = lit ".." then readNames fs m listed names
      else if names.count = names.slots ∧ m.reallocs names.count = false then
        .error (fs.failed "names realloc")
      else if m.strdups names.count = false then .error (fs.failed "name strdup")
      else readNames fs m listed (names.push 32 names.slots name).array

/-- What `spawn_dir` and `spawn_file` have in common: create a node and append it. -/
def spawnNode (m : ListingMemory) (noNode noCopy noSlot : Error) (i : Nat) (h : Heap Node)
    (parent : Addr) (v : Node) : Option (Heap Node × Except Error Unit) :=
  if m.callocs i = false then some (h, .error noNode)
  else if m.copies i = false then some (h, .error noCopy)
  else do
    let (child, h) := h.create (.node v)
    let (h, appended) ← h.appendChild (m.grows i) parent child
    match appended with
    | .ok () => some (h, .ok ())
    | .error e => do
        let h ← h.destroy child
        some (h, .error (noSlot ++ e))

/-- `spawn_dir`. -/
def spawnDir (fs : Fs) (m : ListingMemory) (i : Nat) (h : Heap Node) (parent : Addr)
    (fsPath displayName : CStr) : Option (Heap Node × Except Error Unit) :=
  spawnNode m (fs.failed "dir calloc failed") (fs.failed "dir strdup failed")
    (fs.failed "dir append failed") i h parent (.dir fs fsPath displayName)

/-- `spawn_file`. -/
def spawnFile (fs : Fs) (m : ListingMemory) (i : Nat) (h : Heap Node) (parent : Addr)
    (fsPath displayName : CStr) (isSymlink : Bool) : Option (Heap Node × Except Error Unit) :=
  spawnNode m (fs.failed "file calloc failed") (fs.failed "file strdup failed")
    (fs.failed "file append failed") i h parent (.file fs fsPath displayName isSymlink)

/-- The loop over the sorted names. -/
def spawnEntries (w : World) (fs : Fs) (m : ListingMemory) (fsPath : CStr) (self : Addr) :
    Nat → List CStr → Heap Node → Option (Heap Node × Except Error Unit)
  | _, [], h => some (h, .ok ())
  | i, name :: names, h =>
      let childPath := fsPath ++ lit "/" ++ name
      if pathMax ≤ childPath.length then spawnEntries w fs m fsPath self i names h
      else
        let isLink := w.isSymlink childPath
        match w.stat childPath with
        | none => do
            let (h, _) ← spawnFile fs m i h self childPath name isLink
            spawnEntries w fs m fsPath self (i + 1) names h
        | some .directory => do
            let (h, r) ← spawnDir fs m i h self childPath name
            match r with
            | .ok () => spawnEntries w fs m fsPath self (i + 1) names h
            | .error e => some (h, .error e)
        | some .regular | some .character | some .block | some .fifo => do
            let (h, r) ← spawnFile fs m i h self childPath name isLink
            match r with
            | .ok () => spawnEntries w fs m fsPath self (i + 1) names h
            | .error e => some (h, .error e)
        | some .other => spawnEntries w fs m fsPath self i names h

/-- What the copies of `populate_from_dir` have in common, with `qsort` and what `opendir` and
`readdir` answer. -/
def populateFromDir (fs : Fs) (w : World) (m : ListingMemory) (sort : List CStr → List CStr)
    (fsPath : CStr) (listed : Option (List CStr)) (self : Addr) (h : Heap Node) :
    Option (Heap Node × Except Error Unit) :=
  match listed with
  | none => some (h, .error (fs.openFailed m.formats))
  | some listed =>
      match readNames fs m listed .empty with
      | .error e => some (h, .error e)
      | .ok names => spawnEntries w fs m fsPath self 0 (sort names.items) h

/-- `populate_from_dir` of `yproc`. -/
def yprocPopulateFromDir := populateFromDir .proc

/-- `populate_from_dir` of `ysys`. -/
def ysysPopulateFromDir := populateFromDir .sys

/-- `qsort` sorts by `dirent_cmp`, which compares bytes. -/
def Sorts (sort : List CStr → List CStr) : Prop :=
  ∀ names, (sort names).Perm names ∧ (sort names).Pairwise fun a b => a ≤ b

/-! ## Reading the names -/

/-- The array holds the names that are kept, in the order of the listing, and its slots are as
many as are counted. -/
theorem readNames_eq {m : ListingMemory} (memory : m.Succeeds) (fs : Fs) (listed : List CStr)
    {names : GrowArray CStr} (inStep : names.InStep names.slots) :
    ∃ read, readNames fs m listed names = .ok read ∧ read.InStep read.slots ∧
      read.items =
        names.items ++ listed.filter fun name => name != lit "." && name != lit ".." := by
  induction listed generalizing names with
  | nil => exact ⟨names, rfl, inStep, (List.append_nil _).symm⟩
  | cons name listed ih =>
      rw [readNames]
      by_cases skipped : name = lit "." ∨ name = lit ".."
      · obtain ⟨read, eq, inStep', items⟩ := ih inStep
        refine ⟨read, by rw [if_pos skipped, eq], inStep', ?_⟩
        rw [items, List.filter_cons_of_neg (by rcases skipped with rfl | rfl <;> decide)]
      · have pushed := GrowArray.push_inStep (show 0 < 32 by decide) inStep name
        have slots : (names.push 32 names.slots name).capacity =
            (names.push 32 names.slots name).array.slots := by
          unfold GrowArray.push
          split
          · rfl
          · rfl
        rw [slots] at pushed
        obtain ⟨read, eq, inStep', items⟩ := ih pushed.2
        refine ⟨read, ?_, inStep', ?_⟩
        · rw [if_neg skipped, if_neg (by simp [memory.reallocs]), if_neg (by simp [memory.strdups]),
            eq]
        · rw [items, GrowArray.push_items, List.append_assoc, List.singleton_append,
            List.filter_cons_of_pos]
          rw [not_or] at skipped
          simp [skipped.1, skipped.2]

/-! ## Creating the children -/

section Spawning

variable {m : ListingMemory} {w : World} {fs : Fs} {fsPath name : CStr} {self : Addr}

/-- A node that is created and appended, or destroyed. -/
theorem spawnNode_eq (memory : m.Succeeds) (noNode noCopy noSlot : Error) (i : Nat)
    (h : Heap Node) (v : Node) :
    spawnNode m noNode noCopy noSlot i h self v =
      h.spawnAll self m.grows (.ok ()) i [⟨v, noSlot, false⟩] := by
  rw [spawnNode, if_neg (by simp [memory.callocs]), if_neg (by simp [memory.copies])]
  rfl

/-- A failure that is ignored, or the end. -/
theorem spawnAll_cons (grows : Nat → Bool) (i : Nat) (s : Spawn Node) (spawns : List (Spawn Node))
    (h : Heap Node) :
    h.spawnAll self grows (.ok ()) i (s :: spawns) =
      (h.spawnAll self grows (.ok ()) i [{ s with ignored := false }]).bind fun done =>
        match done.2 with
        | .ok () => done.1.spawnAll self grows (.ok ()) (i + 1) spawns
        | .error e =>
            if s.ignored then done.1.spawnAll self grows (.ok ()) (i + 1) spawns
            else some (done.1, .error e) := by
  simp only [Heap.spawnAll, Option.bind_eq_bind, Option.bind_assoc]
  congr 1
  funext appended
  obtain ⟨h', result⟩ := appended
  cases result with
  | ok _ => rfl
  | error e =>
      simp only [Option.bind_assoc]
      congr 1

/-- A child whose failure ends the loop. -/
theorem spawnNode_bind (memory : m.Succeeds) (noNode noCopy : Error) (i : Nat) (h : Heap Node)
    (v : Node) (noSlot : Error) (spawns : List (Spawn Node)) :
    ((spawnNode m noNode noCopy noSlot i h self v).bind fun done =>
      match done with
      | (h, r) =>
        match r with
        | .ok () => h.spawnAll self m.grows (.ok ()) (i + 1) spawns
        | .error e => some (h, .error e)) =
      h.spawnAll self m.grows (.ok ()) i (⟨v, noSlot, false⟩ :: spawns) := by
  rw [spawnNode_eq memory, spawnAll_cons m.grows i ⟨v, noSlot, false⟩ spawns h]
  congr 1

/-- The loop over the names creates a child for each entry that is shown. -/
theorem spawnEntries_eq (memory : m.Succeeds) (i : Nat) (names : List CStr) (h : Heap Node) :
    spawnEntries w fs m fsPath self i names h =
      h.spawnAll self m.grows (.ok ()) i (names.filterMap (entrySpawn w fs fsPath)) := by
  induction names generalizing i h with
  | nil => rfl
  | cons name names ih =>
      unfold spawnEntries
      by_cases long : pathMax ≤ (fsPath ++ lit "/" ++ name).length
      · have skipped : entrySpawn w fs fsPath name = none := by
          rw [entrySpawn, if_pos long]
        rw [List.filterMap_cons_none skipped, ← ih]
        exact if_pos long
      · refine (if_neg long).trans ?_
        cases type : w.stat (fsPath ++ lit "/" ++ name) with
        | none =>
            have shown : entrySpawn w fs fsPath name = some ⟨.file fs (fsPath ++ lit "/" ++ name) name
                (w.isSymlink (fsPath ++ lit "/" ++ name)), fs.failed "file append failed", true⟩ := by
              simp only [entrySpawn, if_neg long, type]
            rw [List.filterMap_cons_some shown, spawnAll_cons]
            simp only [spawnFile, spawnNode_eq memory, Option.bind_eq_bind]
            congr 1
            funext done
            obtain ⟨h', result⟩ := done
            cases result with
            | ok _ => exact ih _ _
            | error e => exact ih _ _
        | some type' =>
            have file (shown : entrySpawn w fs fsPath name = some ⟨.file fs
                (fsPath ++ lit "/" ++ name) name (w.isSymlink (fsPath ++ lit "/" ++ name)),
                fs.failed "file append failed", false⟩) :
                _ = h.spawnAll self m.grows (.ok ()) i
                  ((name :: names).filterMap (entrySpawn w fs fsPath)) :=
              (spawnNode_bind memory (fs.failed "file calloc failed")
                (fs.failed "file strdup failed") i h _ _ _).trans
                (by rw [List.filterMap_cons_some shown])
            simp only [Option.bind_eq_bind, ih]
            cases type' with
            | directory =>
                have shown : entrySpawn w fs fsPath name = some ⟨.dir fs
                    (fsPath ++ lit "/" ++ name) name, fs.failed "dir append failed", false⟩ := by
                  simp only [entrySpawn, if_neg long, type]
                rw [List.filterMap_cons_some shown]
                exact spawnNode_bind memory _ _ i h _ _ _
            | regular => exact file (by simp only [entrySpawn, if_neg long, type])
            | character => exact file (by simp only [entrySpawn, if_neg long, type])
            | block => exact file (by simp only [entrySpawn, if_neg long, type])
            | fifo => exact file (by simp only [entrySpawn, if_neg long, type])
            | other =>
                have skipped : entrySpawn w fs fsPath name = none := by
                  simp only [entrySpawn, if_neg long, type]
                rw [List.filterMap_cons_none skipped]

/-- **Filling a directory** creates the children of its sorted names. -/
theorem populateFromDir_eq (memory : m.Succeeds) {sort : List CStr → List CStr}
    (sorts : Sorts sort) (fs : Fs) (w : World) (fsPath : CStr) (listed : List CStr) (self : Addr)
    (h : Heap Node) :
    populateFromDir fs w m sort fsPath (some listed) self h =
      h.spawnAll self m.grows (.ok ()) 0 (dirSpawns w fs fsPath listed) := by
  obtain ⟨read, eq, -, items⟩ := readNames_eq memory fs listed GrowArray.inStep_empty
  rw [show (GrowArray.empty : GrowArray CStr).items = [] from rfl, List.nil_append] at items
  have sorted : sort read.items = sortedNames listed := by
    rw [items]
    exact eq_sortedNames (sorts _).1 (sorts _).2
  simp only [populateFromDir, eq, sorted]
  exact spawnEntries_eq memory 0 _ h

end Spawning

/-! ## The children -/

/-- The child for an entry that is shown. -/
def entryNode (w : World) (fs : Fs) (fsPath name : CStr) : Node :=
  if w.stat (fsPath ++ lit "/" ++ name) = some .directory then
    .dir fs (fsPath ++ lit "/" ++ name) name
  else .file fs (fsPath ++ lit "/" ++ name) name (w.isSymlink (fsPath ++ lit "/" ++ name))

/-- An entry that is shown, if it is neither the directory nor the one above. -/
def Shown (w : World) (fsPath name : CStr) : Prop :=
  (fsPath ++ lit "/" ++ name).length < pathMax ∧
    w.stat (fsPath ++ lit "/" ++ name) ≠ some .other

instance (w : World) (fsPath name : CStr) : Decidable (Shown w fsPath name) :=
  inferInstanceAs (Decidable (_ ∧ _))

theorem entrySpawn_value (w : World) (fs : Fs) (fsPath name : CStr) :
    (entrySpawn w fs fsPath name).map (·.value) =
      if Shown w fsPath name then some (entryNode w fs fsPath name) else none := by
  by_cases long : pathMax ≤ (fsPath ++ lit "/" ++ name).length
  · have hidden : ¬Shown w fsPath name := fun shown => Nat.not_lt_of_le long shown.1
    rw [if_neg hidden, entrySpawn, if_pos long]
    rfl
  · simp only [entrySpawn, Shown, entryNode, if_neg long, Nat.lt_of_not_le long, true_and]
    cases type : w.stat (fsPath ++ lit "/" ++ name) with
    | none => rfl
    | some type' => cases type' <;> rfl

/-- The children in order are those for the sorted names that are shown. -/
theorem values_dirSpawns (w : World) (fs : Fs) (fsPath : CStr) (listed : List CStr) :
    (dirSpawns w fs fsPath listed).map (·.value) =
      ((sortedNames listed).filter fun name => Shown w fsPath name).map
        (entryNode w fs fsPath) := by
  rw [dirSpawns, List.map_filterMap]
  induction sortedNames listed with
  | nil => rfl
  | cons name names ih =>
      rw [List.filterMap_cons, entrySpawn_value]
      by_cases shown : Shown w fsPath name
      · rw [if_pos shown, List.filter_cons_of_pos (by simpa using shown), List.map_cons, ih]
      · rw [if_neg shown, List.filter_cons_of_neg (by simpa using shown), ih]

/-- Names that are listed once ascend when they are sorted. -/
theorem sortedNames_ascend {listed : List CStr} (distinct : listed.Nodup) :
    (sortedNames listed).Pairwise fun a b => a < b := by
  have once : (sortedNames listed).Nodup :=
    (List.mergeSort_perm _ _).nodup_iff.mpr (distinct.filter _)
  refine (pairwise_sortedNames listed).imp₂ ?_ once
  intro a b le other
  exact Std.lt_of_le_of_ne le other

theorem mem_sortedNames {listed : List CStr} {name : CStr} :
    name ∈ sortedNames listed ↔ name ∈ listed ∧ name ≠ lit "." ∧ name ≠ lit ".." := by
  rw [sortedNames, List.mem_mergeSort, List.mem_filter]
  simp

/-- **Both copies append the same children in the same order**, whatever the order in which
`readdir` lists the entries: one for each entry other than the directory and the one above
whose path fits and whose type is not another, in ascending order of the names, a directory
for a directory and a file otherwise. -/
theorem populateFromDir_determined (w : World) (fsPath : CStr) {entries : List CStr}
    (distinct : entries.Nodup) :
    ∃ names : List CStr, names.Pairwise (fun a b => a < b) ∧
      (∀ name, name ∈ names ↔
        (name ∈ entries ∧ name ≠ lit "." ∧ name ≠ lit "..") ∧ Shown w fsPath name) ∧
      ∀ (fs : Fs) (populate : World → ListingMemory → (List CStr → List CStr) → CStr →
          Option (List CStr) → Addr → Heap Node → Option (Heap Node × Except Error Unit)),
        fs = .proc ∧ populate = yprocPopulateFromDir ∨
          fs = .sys ∧ populate = ysysPopulateFromDir →
        ∀ (m : ListingMemory) (sort : List CStr → List CStr) (listed : List CStr) (h : Heap Node)
          (root self : Addr) (roots all : List Addr) (o : Obj Node),
          m.Succeeds → Sorts sort → listed.Perm entries → Account h root roots all →
          h.cells self = some o →
          ∃ h' added capacity,
            populate w m sort fsPath (some listed) self h = some (h', .ok ()) ∧
              h'.cells self =
                some { o with children := o.children ++ added, capacity := capacity } ∧
              Added h h' self added (names.map (entryNode w fs fsPath)) := by
  refine ⟨(sortedNames entries).filter fun name => Shown w fsPath name,
    (sortedNames_ascend distinct).filter _, ?_, ?_⟩
  · intro name
    rw [List.mem_filter, mem_sortedNames, decide_eq_true_eq]
  · intro fs populate copy m sort listed h root self roots all o memory sorts perm account cell
    have ran : populate w m sort fsPath (some listed) self h =
        h.spawnAll self m.grows (.ok ()) 0 (dirSpawns w fs fsPath listed) := by
      rcases copy with ⟨rfl, rfl⟩ | ⟨rfl, rfl⟩
      · exact populateFromDir_eq memory sorts .proc w fsPath listed self h
      · exact populateFromDir_eq memory sorts .sys w fsPath listed self h
    obtain ⟨h', added, -, capacity, eq, -, own, new⟩ :=
      account.spawnAll m.grows (.ok ()) (dirSpawns w fs fsPath listed) 0 cell
    rw [outcome_grows memory.grows] at eq new
    rw [values_dirSpawns, sortedNames_perm perm] at new
    exact ⟨h', added, capacity, ran.trans eq, own, new⟩

/-- A directory with two directories and a socket, which are not listed in order. -/
def runWorld : World where
  base := []
  files := fun _ => .absent
  replies := []
  entries := fun _ => some [lit "run", lit "kernel", lit "block"]
  stat path := if path = lit "/sys/run" then some .other else some .directory
  isSymlink := fun _ => false

/-- The directories are shown in ascending order, and the socket is not shown. -/
theorem runWorld_children :
    ∃ h' added capacity,
      ysysPopulateFromDir runWorld ⟨true, fun _ => true, fun _ => true, fun _ => true,
          fun _ => true, fun _ => true⟩ (fun names => names.mergeSort fun a b => decide (a ≤ b))
          (lit "/sys") (some [lit "run", lit "kernel", lit "block"]) 0
          (Heap.rootCreate [Node.dir .sys (lit "/sys") (lit "sys")]).2 = some (h', .ok ()) ∧
        h'.cells 0 = some { Obj.new (.node (.dir .sys (lit "/sys") (lit "sys"))) with
          children := added, capacity := capacity } ∧
        Added (Heap.rootCreate [Node.dir .sys (lit "/sys") (lit "sys")]).2 h' 0 added
          [.dir .sys (lit "/sys/block") (lit "block"),
            .dir .sys (lit "/sys/kernel") (lit "kernel")] := by
  obtain ⟨names, ascend, members, runs⟩ := populateFromDir_determined runWorld (lit "/sys")
    (show [lit "run", lit "kernel", lit "block"].Nodup by decide)
  have once : names.Nodup := ascend.imp fun less => Std.ne_of_lt less
  have shown : names = [lit "block", lit "kernel"] := by
    have same : names.Perm [lit "block", lit "kernel"] := by
      rw [List.perm_ext_iff_of_nodup once (by decide)]
      intro name
      rw [members, List.mem_pair]
      constructor
      · rintro ⟨⟨member, -, -⟩, shown⟩
        simp only [List.mem_cons, List.not_mem_nil, or_false] at member
        rcases member with rfl | rfl | rfl
        · exact absurd shown (by decide)
        · exact .inr rfl
        · exact .inl rfl
      · rintro (rfl | rfl)
        · exact ⟨⟨by decide, by decide, by decide⟩, by decide⟩
        · exact ⟨⟨by decide, by decide, by decide⟩, by decide⟩
    refine same.eq_of_pairwise (fun _ _ _ _ => Std.le_antisymm) (ascend.imp Std.le_of_lt) ?_
    exact List.pairwise_pair.mpr (by decide)
  obtain ⟨pending, owned⟩ := rootCreate_owned [Node.dir .sys (lit "/sys") (lit "sys")]
  have sorts : Sorts fun names => names.mergeSort fun a b => decide (a ≤ b) := fun names =>
    ⟨List.mergeSort_perm _ _, pairwise_mergeSort_names names⟩
  subst shown
  exact runs .sys _ (.inr ⟨rfl, rfl⟩) _ _ _ _ _ 0 _ _ _
    ⟨rfl, fun _ => rfl, fun _ => rfl, fun _ => rfl, fun _ => rfl, fun _ => rfl⟩ sorts
    (List.Perm.refl _) owned.account rfl

end Ykern.Tree
