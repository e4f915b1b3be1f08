import Ykern.Tree.Objects
import Ykern.Genl.Browse
import Ykern.Genl.Enumeration
import Ykern.Rtnl.Invoke

/-!
# The nodes of the repository

The kinds of nodes, their names, and the children that their callbacks create: the netlink
transport has the generic and the route namespace, the generic namespace has the families
the kernel lists, a family its operations and groups, an operation the attributes of the
overlay, the route namespace its four operations, and a file system transport the
directories and files below its mount point.

What the callbacks find is told by the kernel, by the overlay and by the file system
(`World`). Two attempts in the same world find the same, whatever the order in which
`readdir` lists a directory and whatever else is on the socket (`Offers.determined`).
-/

set_option autoImplicit false

namespace Ykern.Tree

open Overlay Genl Rtnl Netlink

/-! ## Kinds of nodes -/

/-- `ykern_ycore_object_kind`. -/
inductive Kind where
  | root
  | transport
  | «namespace»
  | family
  | operation
  | mcastGroup
  | attribute
  | value
  deriving DecidableEq

/-- The transports of file systems, `yproc` and `ysys`. -/
inductive Fs where
  | proc
  | sys
  deriving DecidableEq

/-- The directory a file system is mounted on. -/
def Fs.mount : Fs → CStr
  | .proc => lit "/proc"
  | .sys => lit "/sys"

/-- `transport_get_name`, which is the name of the mounted directory too. -/
def Fs.name : Fs → CStr
  | .proc => lit "proc"
  | .sys => lit "sys"

/-- The texts of errors begin with the name of the transport. -/
def Fs.failed : Fs → String → Error
  | .proc, text => ["yproc: " ++ text]
  | .sys, text => ["ysys: " ++ text]

/-- What is behind the base of a node. -/
inductive Node where
  | netlink
  | genlNamespace
  | family (f : Family)
  | operation (op : Operation)
  | mcastGroup (group : McastGroup)
  | attribute (a : Attribute)
  | rtnlNamespace
  | rtnlOp (op : RtnlOp)
  | transport (fs : Fs)
  | dir (fs : Fs) (fsPath displayName : CStr)
  | file (fs : Fs) (fsPath displayName : CStr) (isSymlink : Bool)

/-- `ykern_ycore_object_get_kind`. -/
def Node.kind : Node → Kind
  | .netlink | .transport _ => .transport
  | .genlNamespace | .rtnlNamespace | .dir _ _ _ => .«namespace»
  | .family _ => .family
  | .operation _ | .rtnlOp _ => .operation
  | .mcastGroup _ => .mcastGroup
  | .attribute _ => .attribute
  | .file _ _ _ _ => .value

/-- `ykern_ycore_object_kind_name`. -/
def Kind.kindName : Kind → CStr
  | .root => lit "root"
  | .transport => lit "transport"
  | .«namespace» => lit "namespace"
  | .family => lit "family"
  | .operation => lit "operation"
  | .mcastGroup => lit "mcast-group"
  | .attribute => lit "attribute"
  | .value => lit "value"

/-- The getters of names. -/
def Node.getName : Node → CStr
  | .netlink => lit "netlink"
  | .genlNamespace => lit "genl"
  | .family f => f.name
  | .operation op => opGetName op
  | .mcastGroup group => mcgGetName group
  | .attribute a => attrGetName a
  | .rtnlNamespace => lit "rtnl"
  | .rtnlOp op => (rtnlOps op).name
  | .transport fs => fs.name
  | .dir _ _ displayName => displayName
  | .file _ _ displayName _ => displayName

/-! ## The netlink nodes -/

/-- The children of `ynl_populate_children`. -/
def ynlSpawns : List (Spawn Node) :=
  [⟨.genlNamespace, ["ynetlink: append genl namespace failed"], false⟩,
    ⟨.rtnlNamespace, ["ynetlink: append rtnl namespace failed"], false⟩]

/-- The children of `ns_populate_children`, which `process_family_msg` appends. -/
def familySpawn (f : Family) : Spawn Node :=
  ⟨.family f, ["genl populate: family processing failed", "genl dump: append family failed"], false⟩

/-- The children of `fam_populate_children`. -/
def childSpawn : Child → Spawn Node
  | .operation op => ⟨.operation op, ["fam_populate_children: append op failed"], false⟩
  | .mcastGroup group =>
      ⟨.mcastGroup group, ["fam_populate_children: append mcast group failed"], false⟩

/-- `find_family_for_op`: the parent, if it is a family. -/
def findFamilyForOp : Option Node → Option Family
  | some (.family f) => some f
  | _ => none

/-- The children of `op_populate_children`. -/
def opSpawn (a : Attribute) : Spawn Node :=
  ⟨.attribute a, ["op_populate_children: append failed"], false⟩

/-- The children of `rtnl_ns_populate`, in the order of `rtnl_ops`. -/
def rtnlNsSpawns : List (Spawn Node) :=
  [RtnlOp.getLink, .getAddr, .getRoute, .getNeigh].map fun op =>
    ⟨.rtnlOp op, ["rtnl_ns_populate: append"], false⟩

/-- The type of an attribute as `rtnl_op_populate` shows it. -/
def typeStr : RtnlKind → CStr
  | .u8 => lit "u8"
  | .u16 => lit "u16"
  | .u32 => lit "u32"
  | .u64 => lit "u64"
  | .s32 => lit "s32"
  | .str => lit "string"
  | .bin => lit "binary"
  | .nest => lit "nest"
  | .flag => lit "flag"

/-- The children of `rtnl_op_populate`. -/
def rtnlOpSpawns (op : RtnlOp) : List (Spawn Node) :=
  (rtnlOps op).attrs.map fun e =>
    ⟨.attribute ⟨e.id.toUInt32, some e.name, some (rtnlOps op).name, some (typeStr e.kind)⟩,
      ["rtnl op_populate: append"], false⟩

/-! ## Directories -/

/-- What `stat` says of a file. -/
inductive FileType where
  | directory
  | regular
  | character
  | block
  | fifo
  | other
  deriving DecidableEq

/-- What the callbacks depend on: the overlay files, the replies of the kernel to the request
for its families, and the directories and files. `stat` and `opendir` may fail. -/
structure World where
  base : CStr
  files : CStr → OverlayFile
  replies : List Reply
  entries : CStr → Option (List CStr)
  stat : CStr → Option FileType
  isSymlink : CStr → Bool

/-- `PATH_MAX`. -/
def pathMax : Nat := 4096

/-- The child that `populate_from_dir` creates for an entry, if any. A failure to append a file
whose `stat` fails is ignored. -/
def entrySpawn (w : World) (fs : Fs) (fsPath name : CStr) : Option (Spawn Node) :=
  let childPath := fsPath ++ lit "/" ++ name
  if pathMax ≤ childPath.length then none
  else
    let file (ignored : Bool) : Spawn Node :=
      ⟨.file fs childPath name (w.isSymlink childPath), fs.failed "file append failed", ignored⟩
    match w.stat childPath with
    | none => some (file true)
    | some .directory => some ⟨.dir fs childPath name, fs.failed "dir append failed", false⟩
    | some .regular | some .character | some .block | some .fifo => some (file false)
    | some .other => none

/-- The names that `populate_from_dir` keeps, sorted by `strcmp`. -/
def sortedNames (listed : List CStr) : List CStr :=
  (listed.filter fun name => name != lit "." && name != lit "..").mergeSort
    fun a b => decide (a ≤ b)

/-- The children of `populate_from_dir`, when `readdir` lists these names. -/
def dirSpawns (w : World) (fs : Fs) (fsPath : CStr) (listed : List CStr) : List (Spawn Node) :=
  (sortedNames listed).filterMap (entrySpawn w fs fsPath)

theorem pairwise_mergeSort_names (names : List CStr) :
    (names.mergeSort fun a b => decide (a ≤ b)).Pairwise fun a b => a ≤ b := by
  refine (List.pairwise_mergeSort ?_ ?_ _).imp fun le => of_decide_eq_true le
  · intro a b c first second
    exact decide_eq_true (Std.le_trans (of_decide_eq_true first) (of_decide_eq_true second))
  · intro a b
    rw [Bool.or_eq_true, decide_eq_true_iff, decide_eq_true_iff]
    exact Std.le_total

theorem pairwise_sortedNames (listed : List CStr) :
    (sortedNames listed).Pairwise fun a b => a ≤ b :=
  pairwise_mergeSort_names _

/-- There is one way to sort names. -/
theorem eq_sortedNames {listed names : List CStr}
    (perm : names.Perm (listed.filter fun name => name != lit "." && name != lit ".."))
    (sorted : names.Pairwise fun a b => a ≤ b) : names = sortedNames listed :=
  (perm.trans (List.mergeSort_perm _ _).symm).eq_of_pairwise (fun _ _ _ _ => Std.le_antisymm)
    sorted (pairwise_sortedNames listed)

/-- The names are sorted the same way in whatever order they are listed. -/
theorem sortedNames_perm {listed listed' : List CStr} (same : listed.Perm listed') :
    sortedNames listed = sortedNames listed' :=
  eq_sortedNames ((List.mergeSort_perm _ _).trans (same.filter _)) (pairwise_sortedNames listed)

/-! ## Callbacks -/

/-- The callbacks that depend on nothing but the node and its parent. -/
def Node.spawns (parent : Option Node) : Node → List (Spawn Node)
  | .netlink => ynlSpawns
  | .family f => (famPopulateChildren f).map childSpawn
  | .operation op => (opPopulateChildren op (findFamilyForOp parent)).map opSpawn
  | .rtnlNamespace => rtnlNsSpawns
  | .rtnlOp op => rtnlOpSpawns op
  | .transport fs => [⟨.dir fs fs.mount fs.name, fs.failed "dir append failed", false⟩]
  | .genlNamespace | .mcastGroup _ | .attribute _ | .dir _ _ _ | .file _ _ _ _ => []

/-- What the callback of a node may do in this world, when there is memory. -/
structure Offers (w : World) (parent : Option Node) (node : Node) (p : Populate Node) : Prop where
  grows : ∀ i, p.grows i = true
  does :
    match node with
    | .genlNamespace => ∃ t env families, Answered w.replies t env ∧
        (nsPopulateChildren w.base w.files [] t env).answer = .children families p.result ∧
          p.spawns = families.map familySpawn
    | .dir fs fsPath _ =>
        match w.entries fsPath with
        | none => p.spawns = [] ∧ p.result = .error (fs.failed "opendir failed")
        | some entries => ∃ listed, listed.Perm entries ∧
            p.spawns = dirSpawns w fs fsPath listed ∧ p.result = .ok ()
    | node => p.spawns = node.spawns parent ∧ p.result = .ok ()

/-- **Two attempts in one world create the same children** and end alike. -/
theorem Offers.determined {w : World} {parent : Option Node} {node : Node} {p p' : Populate Node}
    (first : Offers w parent node p) (second : Offers w parent node p') :
    p.spawns = p'.spawns ∧ p.result = p'.result := by
  have does := first.does
  have does' := second.does
  cases node with
  | genlNamespace =>
      obtain ⟨t, env, families, answered, ended, spawns⟩ := does
      obtain ⟨t', env', families', answered', ended', spawns'⟩ := does'
      have same := (nsPopulateChildren_enumerate answered ended).symm.trans
        (nsPopulateChildren_enumerate answered' ended')
      obtain ⟨rfl, result⟩ := Prod.mk.inj same
      exact ⟨spawns.trans spawns'.symm, Option.some.inj result⟩
  | dir fs fsPath displayName =>
      simp only at does does'
      split at does
      · next missing =>
          rw [missing] at does'
          exact ⟨does.1.trans does'.1.symm, does.2.trans does'.2.symm⟩
      · next entries present =>
          rw [present] at does'
          obtain ⟨listed, perm, spawns, result⟩ := does
          obtain ⟨listed', perm', spawns', result'⟩ := does'
          refine ⟨spawns.trans (Eq.trans ?_ spawns'.symm), result.trans result'.symm⟩
          rw [dirSpawns, dirSpawns, sortedNames_perm (perm.trans perm'.symm)]
  | _ => exact ⟨does.1.trans does'.1.symm, does.2.trans does'.2.symm⟩

end Ykern.Tree
