import Mathlib
import LightNfs.Core.Exports

/-!
# The pseudo filesystem

The synthesized tree from the root down to each export point. A node is known by its path, the list of its
components; the id in its handle is a hash of that path, moved on while it is taken.
-/

namespace LightNfs

/-- `PseudoFs::Node`. -/
structure PseudoNode where
  id : UInt64
  path : List Bytes := []
  exp : Option ExportEntry := none
deriving DecidableEq

def PseudoNode.name (node : PseudoNode) : Bytes := node.path.getLastD [47]

/-- The root and the nodes below it, none with the id of another. -/
structure PseudoFs where
  root : PseudoNode
  below : List PseudoNode
  changeBase : UInt64 := 1
  ids_nodup : ((root :: below).map PseudoNode.id).Nodup

namespace PseudoFs

def nodes (fs : PseudoFs) : List PseudoNode := fs.root :: fs.below

def ids (fs : PseudoFs) : List UInt64 := fs.nodes.map PseudoNode.id

/-! ### Construction -/

/-- `stable_id`. One of the first `ids.length + 2` candidates is neither 0 nor taken. -/
def stableId (ids : List UInt64) (path : Bytes) : UInt64 :=
  let candidates := (List.range (ids.length + 2)).map fun k => fnv64 path + UInt64.ofNat k
  (candidates.find? fun id => id ≠ 0 && id ∉ ids).getD 0

/-- A node whose id is free. -/
def add (fs : PseudoFs) (node : PseudoNode) : PseudoFs :=
  if h : node.id ∈ fs.ids then fs
  else
    { fs with
      below := fs.below ++ [node]
      ids_nodup := by
        rw [← List.cons_append, List.map_append, List.nodup_append']
        refine ⟨fs.ids_nodup, List.nodup_singleton _, ?_⟩
        exact List.disjoint_singleton.mpr h }

/-- `ensure_child`, by the path of the child. -/
def ensureChild (fs : PseudoFs) (path : List Bytes) : PseudoFs :=
  if fs.nodes.any (·.path == path) then fs
  else fs.add { id := stableId fs.ids (path.flatMap (47 :: ·)), path }

/-- The non-empty components of a path. -/
def components (path : Bytes) : List Bytes := (path.splitOn 47).filter (· ≠ [])

/-- A node that has no export yet takes this one. -/
def take (path : List Bytes) (entry : ExportEntry) (node : PseudoNode) : PseudoNode :=
  if node.path = path ∧ node.exp = none then { node with exp := some entry } else node

@[simp] theorem take_id (path : List Bytes) (entry : ExportEntry) (node : PseudoNode) :
    (take path entry node).id = node.id := by
  unfold take
  split <;> rfl

def attach (fs : PseudoFs) (path : List Bytes) (entry : ExportEntry) : PseudoFs where
  root := take path entry fs.root
  below := fs.below.map (take path entry)
  changeBase := fs.changeBase
  ids_nodup := by
    rw [← List.map_cons, List.map_map]
    simpa [Function.comp_def] using fs.ids_nodup

def addEntry (fs : PseudoFs) (entry : ExportEntry) : PseudoFs :=
  let parts := components entry.path
  let grown := (List.range parts.length).foldl (fun fs k => fs.ensureChild (parts.take (k + 1))) fs
  grown.attach parts entry

/-- The tree with the root only. -/
def bare (changeBase : UInt64) : PseudoFs where
  root := { id := stableId [] [47] }
  below := []
  changeBase
  ids_nodup := List.nodup_singleton _

def build (entries : List ExportEntry) (changeBase : UInt64) : PseudoFs := entries.foldl addEntry (bare changeBase)

/-! ### Lookup -/

def forExport (fs : PseudoFs) (fsid : UInt32) : Option PseudoNode :=
  fs.nodes.find? fun node => node.exp.any (·.fsid == fsid)

def parent (fs : PseudoFs) (node : PseudoNode) : Option PseudoNode :=
  if node.path = [] then none else fs.nodes.find? (·.path == node.path.dropLast)

def oidOf (node : PseudoNode) : ObjId := ⟨leBytes 8 node.id.toNat, by simp⟩

/-- Undoes `oidOf`. -/
def resolve (fs : PseudoFs) (oid : ObjId) : Option PseudoNode :=
  fs.nodes.find? fun node => oidOf node == oid

variable {fs : PseudoFs} {node child : PseudoNode}

theorem mem_of_resolve {oid : ObjId} (h : fs.resolve oid = some node) : node ∈ fs.nodes :=
  List.mem_of_find?_eq_some h

theorem mem_of_forExport {fsid : UInt32} (h : fs.forExport fsid = some node) : node ∈ fs.nodes :=
  List.mem_of_find?_eq_some h

theorem oidOf_inj {a b : PseudoNode} (h : oidOf a = oidOf b) : a.id = b.id := by
  have hbytes : leBytes 8 a.id.toNat = leBytes 8 b.id.toNat := congrArg Subtype.val h
  exact UInt64.toNat_inj.mp (leBytes_injective a.id.toNat_lt b.id.toNat_lt hbytes)

theorem resolve_oidOf (hnode : node ∈ fs.nodes) : fs.resolve (oidOf node) = some node := by
  obtain ⟨found, hfound⟩ : ∃ found, fs.resolve (oidOf node) = some found := by
    rw [← Option.isSome_iff_exists, resolve, List.find?_isSome]
    exact ⟨node, hnode, by simp⟩
  have hoid : (oidOf found == oidOf node) = true := List.find?_some (p := fun n => oidOf n == oidOf node) hfound
  have hid : found.id = node.id := oidOf_inj (beq_iff_eq.mp hoid)
  rw [hfound, List.inj_on_of_nodup_map fs.ids_nodup (mem_of_resolve hfound) hnode hid]

end PseudoFs

namespace ExportSet

/-- The tree every set is built with. -/
def pseudo (set : ExportSet) : PseudoFs := PseudoFs.build set.entries set.pseudoChange

end ExportSet

end LightNfs
