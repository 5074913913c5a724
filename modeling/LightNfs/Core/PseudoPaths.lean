import Mathlib
import LightNfs.Core.PseudoFs

/-!
# Export paths, the pseudo tree and the mount lookup

The tree splits a path at its slashes and drops the empty pieces: it has one node for each prefix of an export path,
however many slashes stand between the components. The mount lookup compares strings, so it finds the longest export
path that is a prefix of the request, component by component, on plain paths only, those without an empty component.
-/

namespace LightNfs

open PseudoFs

/-! ### Plain paths -/

def IsComponent (part : Bytes) : Prop := part ≠ [] ∧ 47 ∉ part

/-- The text of a path: each component after a slash, and the root is a slash. -/
def pathText (parts : List Bytes) : Bytes := if parts = [] then [47] else parts.flatMap (47 :: ·)

/-- An absolute path with no empty component. -/
def PlainPath (path : Bytes) : Prop := ∃ parts, (∀ part ∈ parts, IsComponent part) ∧ path = pathText parts

variable {parts : List Bytes} {part : Bytes}
variable {rest : List Bytes}

theorem splitOn_component {rest : Bytes} (h : IsComponent part) :
    (part ++ 47 :: rest).splitOn 47 = part :: rest.splitOn 47 := by
  refine List.splitOnP_append_cons_of_forall_mem (fun x hx => ?_) 47 (by simp) rest
  simp only [beq_eq_false_iff_ne, ne_eq]
  intro eq
  exact h.2 (eq ▸ hx)

theorem splitOn_slash (rest : Bytes) : ((47 : UInt8) :: rest).splitOn 47 = [] :: rest.splitOn 47 := by
  simp [List.splitOn, List.splitOnP_cons_eq_if_modifyHead]

theorem splitOn_last (h : IsComponent part) : part.splitOn 47 = [part] := by
  refine List.splitOnP_eq_singleton fun x hx => ?_
  rw [beq_eq_false_iff_ne]
  intro eq
  exact h.2 (eq ▸ hx)

theorem filter_splitOn (hpart : IsComponent part)
    (h : ∀ p ∈ parts, IsComponent p) :
    ((part ++ parts.flatMap (47 :: ·)).splitOn 47).filter (· ≠ []) = part :: parts := by
  induction parts generalizing part with
  | nil =>
    simp [splitOn_last hpart, hpart.1]
  | cons next parts ih =>
    have hnext := ih (h next List.mem_cons_self) fun p hp => h p (List.mem_cons_of_mem _ hp)
    rw [List.flatMap_cons, List.cons_append, splitOn_component hpart, List.filter_cons_of_pos (by simp [hpart.1]),
      hnext]

theorem components_pathText (h : ∀ part ∈ parts, IsComponent part) :
    components (pathText parts) = parts := by
  cases parts with
  | nil => rfl
  | cons part parts =>
    have hrest := filter_splitOn (h part List.mem_cons_self) fun p hp => h p (List.mem_cons_of_mem _ hp)
    rw [components, pathText, if_neg (List.cons_ne_nil _ _), List.flatMap_cons, List.cons_append, splitOn_slash,
      List.filter_cons_of_neg (by simp), hrest]

theorem PlainPath.component {path : Bytes} (h : PlainPath path) : ∀ part ∈ components path, IsComponent part := by
  obtain ⟨parts, hparts, rfl⟩ := h
  rw [components_pathText hparts]
  exact hparts

theorem PlainPath.text {path : Bytes} (h : PlainPath path) : pathText (components path) = path := by
  obtain ⟨parts, hparts, rfl⟩ := h
  rw [components_pathText hparts]

/-! ### Prefixes by text and by component -/

/-- With a slash after each component, a text can be cut in one way only. -/
theorem closed_cut {other : Bytes} (hpart : 47 ∉ part) (hother : 47 ∉ other) (rest tail : Bytes) :
    part ++ 47 :: rest <+: other ++ 47 :: tail ↔ part = other ∧ rest <+: tail := by
  induction part generalizing other with
  | nil =>
    cases other with
    | nil => simp
    | cons o other =>
      have : (47 : UInt8) ≠ o := fun eq => hother (eq ▸ List.mem_cons_self)
      simp [this]
  | cons p part ih =>
    cases other with
    | nil =>
      have : p ≠ 47 := fun eq => hpart (eq ▸ List.mem_cons_self)
      simp [this]
    | cons o other =>
      have h := ih (fun hmem => hpart (List.mem_cons_of_mem _ hmem)) fun hmem => hother (List.mem_cons_of_mem _ hmem)
      simp only [List.cons_append, List.cons_prefix_cons, h, List.cons.injEq, and_assoc]

theorem closed_begins_iff (hparts : ∀ p ∈ parts, IsComponent p) {others : List Bytes}
    (hothers : ∀ p ∈ others, IsComponent p) :
    parts.flatMap (· ++ [47]) <+: others.flatMap (· ++ [47]) ↔ parts <+: others := by
  induction parts generalizing others with
  | nil => simp
  | cons part parts ih =>
    cases others with
    | nil => simp
    | cons other others =>
      have hrest := ih (fun p hp => hparts p (List.mem_cons_of_mem _ hp))
        fun p hp => hothers p (List.mem_cons_of_mem other hp)
      have hcut := closed_cut (hparts part List.mem_cons_self).2 (hothers other List.mem_cons_self).2
        (parts.flatMap (· ++ [47])) (others.flatMap (· ++ [47]))
      simpa [List.cons_prefix_cons, hrest] using hcut

theorem flatMap_slash (parts : List Bytes) :
    parts.flatMap (47 :: ·) ++ [47] = 47 :: parts.flatMap (· ++ [47]) := by
  induction parts with
  | nil => rfl
  | cons part parts ih => simp [ih]

/-- A prefix that ends where the text ends or has this byte. -/
theorem append_slash_iff {front text : Bytes} :
    front ++ [47] <+: text ++ [47] ↔
      front <+: text ∧ (text.length = front.length ∨ text.getD front.length 0 = 47) := by
  constructor
  · intro h
    obtain ⟨rest, hrest⟩ := h
    rcases List.eq_nil_or_concat rest with rfl | ⟨body, last, rfl⟩
    · have : front = text := by simpa using hrest
      subst this
      exact ⟨List.prefix_rfl, .inl rfl⟩
    · have htext : front ++ 47 :: body = text := by
        have hcut : (front ++ 47 :: body) ++ [last] = text ++ [47] := by simpa using hrest
        exact (List.append_inj' hcut rfl).1
      subst htext
      exact ⟨⟨47 :: body, rfl⟩, .inr (by simp)⟩
  · rintro ⟨⟨rest, rfl⟩, h⟩
    cases rest with
    | nil => simp
    | cons b rest =>
      have hb : b = 47 := by
        rcases h with h | h
        · simp at h
        · simpa using h
      subst hb
      exact ⟨rest ++ [47], by simp⟩

theorem pathText_cons (part : Bytes) (parts : List Bytes) :
    pathText (part :: parts) = 47 :: (part ++ parts.flatMap (47 :: ·)) := by
  simp [pathText]

theorem pathText_slash (h : parts ≠ []) :
    pathText parts ++ [47] = 47 :: parts.flatMap (· ++ [47]) := by
  rw [pathText, if_neg h, flatMap_slash]

/-- Between plain paths the string test of the lookup is the prefix of components. -/
theorem servesPath_iff (hparts : ∀ p ∈ parts, IsComponent p) {entry : ExportEntry}
    (hentry : PlainPath entry.path) :
    ExportSet.servesPath (pathText parts) entry = true ↔ components entry.path <+: parts := by
  obtain ⟨own, hown, htext⟩ := hentry
  rw [ExportSet.servesPath, htext, components_pathText hown]
  cases own with
  | nil =>
    cases parts with
    | nil => simp [pathText]
    | cons part parts => simp [pathText_cons, show pathText [] = [47] from rfl]
  | cons part own =>
    have hne : part ≠ [] := (hown part List.mem_cons_self).1
    have hroot : pathText (part :: own) ≠ [47] := by simp [pathText_cons, hne]
    have htest : ((pathText (part :: own)).isPrefixOf (pathText parts) &&
        ((pathText parts).length == (pathText (part :: own)).length || pathText (part :: own) == [47] ||
          (pathText parts).getD (pathText (part :: own)).length 0 == 47)) = true ↔
        pathText (part :: own) ++ [47] <+: pathText parts ++ [47] := by
      rw [append_slash_iff]
      simp [hroot]
    rw [htest, pathText_slash (List.cons_ne_nil _ _)]
    cases parts with
    | nil =>
      -- The text of the root has two bytes when closed, and a component lies between the slashes of the other.
      have hlen : part.length ≠ 0 := by simpa using hne
      simp only [List.prefix_nil, List.cons_ne_nil, iff_false]
      intro h
      have := h.length_le
      simp [pathText] at this
      omega
    | cons other parts =>
      rw [pathText_slash (List.cons_ne_nil _ _), List.cons_prefix_cons, closed_begins_iff hown hparts]
      simp

/-! ### The mount lookup -/

namespace ExportSet

def better (path : Bytes) (best : Option ExportEntry) (entry : ExportEntry) : Option ExportEntry :=
  if !servesPath path entry then best
  else
    match best with
    | none => some entry
    | some b => if entry.path.length > b.path.length then some entry else some b

theorem forMountPath_eq (set : ExportSet) (raw : Bytes) :
    set.forMountPath raw = (set.entries.foldl (better (normalizePath raw)) none).map fun best =>
      (best, ((normalizePath raw).drop best.path.length).dropWhile (· == 47)) := rfl

/-- What the loop has after some entries: one that serves the path and none that serves it is longer. -/
def IsBest (path : Bytes) (seen : List ExportEntry) : Option ExportEntry → Prop
  | none => ∀ entry ∈ seen, ¬ servesPath path entry
  | some best => best ∈ seen ∧ servesPath path best ∧
      ∀ entry ∈ seen, servesPath path entry → entry.path.length ≤ best.path.length

theorem IsBest.step {path : Bytes} {seen : List ExportEntry} {best : Option ExportEntry} (h : IsBest path seen best)
    (entry : ExportEntry) : IsBest path (seen ++ [entry]) (better path best entry) := by
  unfold better
  cases hserves : servesPath path entry with
  | false =>
    cases best with
    | none =>
      simp only [IsBest, List.mem_append, List.mem_singleton, Bool.not_false, if_true] at h ⊢
      rintro e (he | rfl)
      · exact h e he
      · simp [hserves]
    | some b =>
      simp only [IsBest, List.mem_append, List.mem_singleton, Bool.not_false, if_true] at h ⊢
      refine ⟨.inl h.1, h.2.1, ?_⟩
      rintro e (he | rfl) hs
      · exact h.2.2 e he hs
      · simp [hserves] at hs
  | true =>
    cases best with
    | none =>
      simp only [IsBest, List.mem_append, List.mem_singleton, Bool.not_true, Bool.false_eq_true, if_false] at h ⊢
      refine ⟨.inr trivial, hserves, ?_⟩
      rintro e (he | rfl) hs
      · exact absurd hs (h e he)
      · exact le_rfl
    | some b =>
      simp only [Bool.not_true, Bool.false_eq_true, if_false]
      split_ifs with hlonger <;> simp only [IsBest, List.mem_append, List.mem_singleton] at h ⊢
      · refine ⟨.inr trivial, hserves, ?_⟩
        rintro e (he | rfl) hs
        · exact (h.2.2 e he hs).trans hlonger.le
        · exact le_rfl
      · refine ⟨.inl h.1, h.2.1, ?_⟩
        rintro e (he | rfl) hs
        · exact h.2.2 e he hs
        · omega

theorem isBest_foldl (path : Bytes) (entries : List ExportEntry) :
    IsBest path entries (entries.foldl (better path) none) := by
  induction entries using List.reverseRecOn with
  | nil => simp [IsBest]
  | append_singleton entries entry ih =>
    rw [List.foldl_append]
    exact ih.step entry

end ExportSet

theorem intercalate_slash (part : Bytes) (parts : List Bytes) :
    List.intercalate [47] (part :: parts) = part ++ parts.flatMap (47 :: ·) := by
  induction parts generalizing part with
  | nil => simp [List.intercalate]
  | cons next parts ih =>
    rw [List.intercalate_cons_cons, ih]
    simp

/-- Behind the export path the leading slash is dropped and the rest is kept. -/
theorem dropWhile_slash (h : ∀ p ∈ rest, IsComponent p) :
    (rest.flatMap (47 :: ·)).dropWhile (· == 47) = List.intercalate [47] rest := by
  cases rest with
  | nil => rfl
  | cons part rest =>
    obtain ⟨hne, hslash⟩ := h part List.mem_cons_self
    rw [intercalate_slash, List.flatMap_cons, List.cons_append, List.dropWhile_cons_of_pos (by simp)]
    cases part with
    | nil => exact absurd rfl hne
    | cons b part =>
      have hb : b ≠ 47 := fun eq => hslash (eq ▸ List.mem_cons_self)
      rw [List.cons_append, List.dropWhile_cons_of_neg (by simpa using hb)]

theorem pathText_append (part : Bytes) (own rest : List Bytes) :
    pathText (part :: own ++ rest) = pathText (part :: own) ++ rest.flatMap (47 :: ·) := by
  simp [pathText_cons]

theorem pathText_relative (own : List Bytes) (h : ∀ p ∈ rest, IsComponent p) :
    ((pathText (own ++ rest)).drop (pathText own).length).dropWhile (· == 47) = List.intercalate [47] rest := by
  rw [← dropWhile_slash h]
  cases own with
  | nil =>
    cases rest with
    | nil => rfl
    | cons part rest =>
      simp only [List.nil_append, pathText_cons, List.flatMap_cons, List.cons_append]
      rw [List.dropWhile_cons_of_pos (by simp)]
      rfl
  | cons part own =>
    rw [pathText_append, List.drop_left]

theorem pathText_length_lt (own : List Bytes) (hne : rest ≠ []) (h : ∀ p ∈ rest, IsComponent p) :
    (pathText own).length < (pathText (own ++ rest)).length := by
  obtain ⟨part, rest, rfl⟩ := List.exists_cons_of_ne_nil hne
  cases own with
  | nil =>
    have hpart := List.length_pos_of_ne_nil (h part List.mem_cons_self).1
    simp only [List.nil_append, pathText_cons, show pathText [] = [47] from rfl, List.length_cons, List.length_append,
      List.length_nil]
    omega
  | cons first own =>
    simp only [pathText_append, List.flatMap_cons, List.length_append, List.length_cons]
    omega

theorem isComponent_rest {front : List Bytes} (h : ∀ p ∈ parts, IsComponent p)
    (split : front ++ rest = parts) : ∀ p ∈ rest, IsComponent p := by
  intro p hp
  refine h p ?_
  rw [← split]
  exact List.mem_append_right _ hp

/-- Of two prefixes of one path the one with the longer text has more components. -/
theorem components_le_of_text {own other : List Bytes} (hown : own <+: parts) (hother : other <+: parts)
    (h : ∀ p ∈ other, IsComponent p) (hle : (pathText other).length ≤ (pathText own).length) :
    other.length ≤ own.length := by
  by_contra hlonger
  obtain ⟨rest, hrest⟩ := List.prefix_of_prefix_length_le hown hother (by omega)
  have hne : rest ≠ [] := by
    intro hnil
    rw [hnil, List.append_nil] at hrest
    rw [hrest] at hlonger
    exact hlonger le_rfl
  have hlt := pathText_length_lt own hne (isComponent_rest h hrest)
  rw [hrest] at hlt
  omega

/-- The lookup finds the longest export path that is a prefix of the request by components. -/
theorem forMountPath_longest {set : ExportSet} (hplain : ∀ entry ∈ set.entries, PlainPath entry.path) {raw : Bytes}
    (hraw : PlainPath (normalizePath raw)) :
    let parts := components (normalizePath raw)
    (set.forMountPath raw = none ↔ ∀ entry ∈ set.entries, ¬ components entry.path <+: parts) ∧
      ∀ best relative, set.forMountPath raw = some (best, relative) →
        best ∈ set.entries ∧ components best.path <+: parts ∧
        (∀ entry ∈ set.entries, components entry.path <+: parts →
          (components entry.path).length ≤ (components best.path).length) ∧
        relative = List.intercalate [47] (parts.drop (components best.path).length) := by
  intro parts
  have hparts : ∀ p ∈ parts, IsComponent p := hraw.component
  have htext : normalizePath raw = pathText parts := hraw.text.symm
  have hserves : ∀ entry ∈ set.entries,
      (ExportSet.servesPath (normalizePath raw) entry = true ↔ components entry.path <+: parts) := by
    intro entry hentry
    rw [htext]
    exact servesPath_iff hparts (hplain entry hentry)
  have hbest := ExportSet.isBest_foldl (normalizePath raw) set.entries
  rw [ExportSet.forMountPath_eq]
  cases hfold : set.entries.foldl (ExportSet.better (normalizePath raw)) none with
  | none =>
    rw [hfold] at hbest
    refine ⟨⟨fun _ entry hentry hbegins => hbest entry hentry ((hserves entry hentry).mpr hbegins), fun _ => rfl⟩, ?_⟩
    intro best relative h
    cases h
  | some best =>
    rw [hfold] at hbest
    obtain ⟨hmem, hown, hmax⟩ := hbest
    have hbegins := (hserves best hmem).mp hown
    refine ⟨⟨fun h => absurd h (Option.some_ne_none _), fun h => absurd hbegins (h best hmem)⟩, ?_⟩
    rintro _ _ ⟨⟩
    refine ⟨hmem, hbegins, ?_, ?_⟩
    · intro entry hentry hother
      have hle := hmax entry hentry ((hserves entry hentry).mpr hother)
      rw [← (hplain best hmem).text, ← (hplain entry hentry).text] at hle
      exact components_le_of_text hbegins hother (hplain entry hentry).component hle
    · obtain ⟨rest, hrest⟩ := hbegins
      have hrelative := pathText_relative (components best.path) (isComponent_rest hparts hrest)
      rw [hrest, (hplain best hmem).text, ← htext] at hrelative
      rw [hrelative, ← hrest, List.drop_left]

/-! ### The pseudo tree -/

/-- The prefixes of the export paths, the root among them. -/
def IsPrefix (entries : List ExportEntry) (path : List Bytes) : Prop :=
  path = [] ∨ ∃ entry ∈ entries, path <+: components entry.path

/-- No two prefixes of the export paths hash alike, and none hashes to the id that is never given. -/
def HashesApart (entries : List ExportEntry) : Prop :=
  (∀ path, IsPrefix entries path → fnv64 (pathText path) ≠ 0) ∧
    ∀ path other, IsPrefix entries path → IsPrefix entries other →
      fnv64 (pathText path) = fnv64 (pathText other) → path = other

namespace PseudoFs

/-- `path_of`: the names on the way up to the root. -/
def pathOf (fs : PseudoFs) : Nat → PseudoNode → List Bytes
  | 0, _ => []
  | fuel + 1, node =>
    match fs.parent node with
    | none => []
    | some above => fs.pathOf fuel above ++ [node.name]

variable {entry : ExportEntry} {node : PseudoNode}

/-- Fewer ids than numbers: the probe finds a free one. -/
theorem stableId_notMem {ids : List UInt64} (h : ids.length + 2 ≤ 2 ^ 64) (path : Bytes) : stableId ids path ∉ ids := by
  set candidates := (List.range (ids.length + 2)).map fun k => fnv64 path + UInt64.ofNat k with hcandidates
  have hnodup : candidates.Nodup := by
    refine List.Nodup.map_on ?_ List.nodup_range
    intro a ha b hb eq
    rw [List.mem_range] at ha hb
    have hnat := congrArg UInt64.toNat (add_left_cancel eq)
    rwa [UInt64.toNat_ofNat', UInt64.toNat_ofNat', Nat.mod_eq_of_lt (by omega), Nat.mod_eq_of_lt (by omega)] at hnat
  obtain ⟨id, hid, hfree⟩ : ∃ id ∈ candidates, id ∉ 0 :: ids := by
    by_contra hall
    push Not at hall
    have hlen := (hnodup.subperm hall).length_le
    simp [hcandidates] at hlen
  have hsome : (candidates.find? fun id => id ≠ 0 && id ∉ ids).isSome := by
    rw [List.find?_isSome]
    exact ⟨id, hid, by simpa using hfree⟩
  obtain ⟨found, hfound⟩ := Option.isSome_iff_exists.mp hsome
  have hgood := List.find?_some hfound
  rw [stableId, ← hcandidates, hfound]
  simp only [Bool.and_eq_true, decide_eq_true_eq] at hgood
  exact hgood.2

/-- A hash that is free is the id. -/
theorem stableId_eq {ids : List UInt64} {path : Bytes} (hne : fnv64 path ≠ 0) (h : fnv64 path ∉ ids) :
    stableId ids path = fnv64 path := by
  simp [stableId, List.range_succ_eq_map, hne, h]

theorem nodes_add {fs : PseudoFs} (node : PseudoNode) (h : node.id ∉ fs.ids) :
    (fs.add node).nodes = fs.nodes ++ [node] := by
  simp [add, h, nodes]

theorem nodes_attach (fs : PseudoFs) (path : List Bytes) (entry : ExportEntry) :
    (fs.attach path entry).nodes = fs.nodes.map (take path entry) := rfl

@[simp] theorem take_path (path : List Bytes) (entry : ExportEntry) (node : PseudoNode) :
    (take path entry node).path = node.path := by
  unfold take
  split <;> rfl

/-- The tree with a node for each path of a set, once these exports are attached. -/
structure Holds (all done : List ExportEntry) (paths : List Bytes → Prop) (fs : PseudoFs) : Prop where
  paths_nodup : (fs.nodes.map PseudoNode.path).Nodup
  mem_iff : ∀ path, (∃ node ∈ fs.nodes, node.path = path) ↔ paths path
  exp_of : ∀ node ∈ fs.nodes, ∀ entry, node.exp = some entry → entry ∈ done ∧ node.path = components entry.path
  exp_at : ∀ entry ∈ done, ∃ node ∈ fs.nodes, node.path = components entry.path ∧ node.exp = some entry
  hashed : HashesApart all → ∀ node ∈ fs.nodes, node.id = fnv64 (pathText node.path)

variable {all done : List ExportEntry} {paths : List Bytes → Prop} {fs : PseudoFs}

theorem Holds.bare (all : List ExportEntry) (changeBase : UInt64) :
    Holds all [] (· = []) (PseudoFs.bare changeBase) where
  paths_nodup := List.nodup_singleton _
  mem_iff path := by simp [PseudoFs.bare, nodes, eq_comm]
  exp_of node hnode entry hexp := by
    simp only [nodes, PseudoFs.bare, List.mem_singleton] at hnode
    subst hnode
    cases hexp
  exp_at entry h := by cases h
  hashed apart node hnode := by
    simp only [nodes, PseudoFs.bare, List.mem_singleton] at hnode
    subst hnode
    exact stableId_eq (apart.1 [] (.inl rfl)) List.not_mem_nil

theorem Holds.congr {others : List Bytes → Prop} (h : Holds all done paths fs)
    (same : ∀ path, paths path ↔ others path) : Holds all done others fs :=
  { h with mem_iff := fun path => (h.mem_iff path).trans (same path) }

theorem Holds.ensureChild (h : Holds all done paths fs) {path : List Bytes} (hne : path ≠ [])
    (hpath : IsPrefix all path) (hpaths : ∀ q, paths q → IsPrefix all q)
    (hsmall : fs.nodes.length + 2 ≤ 2 ^ 64) :
    Holds all done (fun q => paths q ∨ q = path) (fs.ensureChild path) ∧
      (fs.ensureChild path).nodes.length ≤ fs.nodes.length + 1 := by
  unfold PseudoFs.ensureChild
  split_ifs with hany
  · obtain ⟨node, hnode, hfound⟩ := List.any_eq_true.mp hany
    have hhad : paths path := (h.mem_iff path).mp ⟨node, hnode, beq_iff_eq.mp hfound⟩
    refine ⟨h.congr fun q => ⟨.inl, ?_⟩, Nat.le_succ _⟩
    rintro (hq | rfl)
    · exact hq
    · exact hhad
  · have hnew : ¬ ∃ node ∈ fs.nodes, node.path = path := by simpa using hany
    have hfree : stableId fs.ids (path.flatMap (47 :: ·)) ∉ fs.ids := stableId_notMem (by simpa [ids] using hsmall) _
    have hnodes := nodes_add { id := stableId fs.ids (path.flatMap (47 :: ·)), path } hfree
    refine ⟨⟨?_, ?_, ?_, ?_, ?_⟩, by rw [hnodes]; simp⟩
    · rw [hnodes, List.map_append, List.nodup_append']
      refine ⟨h.paths_nodup, List.nodup_singleton _, List.disjoint_singleton.mpr ?_⟩
      simpa using hnew
    · intro q
      simp only [hnodes, List.mem_append, List.mem_singleton, or_and_right, exists_or, exists_eq_left, h.mem_iff]
      exact or_congr_right eq_comm
    · intro node hnode entry hexp
      rw [hnodes, List.mem_append, List.mem_singleton] at hnode
      rcases hnode with hnode | rfl
      · exact h.exp_of node hnode entry hexp
      · cases hexp
    · intro entry hentry
      obtain ⟨node, hnode, hat⟩ := h.exp_at entry hentry
      exact ⟨node, by rw [hnodes]; exact List.mem_append_left _ hnode, hat⟩
    · intro apart node hnode
      rw [hnodes, List.mem_append, List.mem_singleton] at hnode
      rcases hnode with hnode | rfl
      · exact h.hashed apart node hnode
      · have htext : pathText path = path.flatMap (47 :: ·) := if_neg hne
        show stableId fs.ids (path.flatMap (47 :: ·)) = fnv64 (pathText path)
        rw [← htext]
        refine stableId_eq (apart.1 path hpath) fun hmem => hnew ?_
        -- A node with this id has this path, as nothing hashes alike.
        obtain ⟨other, hother, hid⟩ := List.mem_map.mp hmem
        have hbegins := hpaths other.path ((h.mem_iff other.path).mp ⟨other, hother, rfl⟩)
        refine ⟨other, hother, apart.2 _ _ hbegins hpath ?_⟩
        rw [← h.hashed apart other hother, hid]

/-- The walk down one export path. -/
theorem Holds.grow (h : Holds all done paths fs) {parts : List Bytes}
    (hparts : ∀ path, path <+: parts → IsPrefix all path) (hpaths : ∀ q, paths q → IsPrefix all q)
    {n : Nat} (hn : n ≤ parts.length)
    (hsmall : fs.nodes.length + n + 2 ≤ 2 ^ 64) :
    let grown := (List.range n).foldl (fun fs k => fs.ensureChild (parts.take (k + 1))) fs
    Holds all done (fun q => paths q ∨ q ≠ [] ∧ q <+: parts ∧ q.length ≤ n) grown ∧
      grown.nodes.length ≤ fs.nodes.length + n := by
  induction n with
  | zero =>
    refine ⟨h.congr fun q => ⟨.inl, ?_⟩, le_rfl⟩
    rintro (hq | ⟨hne, -, hlen⟩)
    · exact hq
    · exact absurd (List.eq_nil_of_length_eq_zero (Nat.le_zero.mp hlen)) hne
  | succ n ih =>
    obtain ⟨hbefore, hlen⟩ := ih (by omega) (by omega)
    rw [List.range_succ, List.foldl_append]
    have hne : parts.take (n + 1) ≠ [] := by
      intro hnil
      rcases List.take_eq_nil_iff.mp hnil with hzero | hempty
      · cases hzero
      · simp [hempty] at hn
    have hwithin : ∀ q, (paths q ∨ q ≠ [] ∧ q <+: parts ∧ q.length ≤ n) → IsPrefix all q := by
      rintro q (hq | ⟨-, hq, -⟩)
      · exact hpaths q hq
      · exact hparts q hq
    have htake := List.take_prefix (n + 1) parts
    obtain ⟨hafter, hcount⟩ := hbefore.ensureChild hne (hparts _ htake) hwithin (by omega)
    refine ⟨hafter.congr fun q => ?_, by simpa using hcount.trans (by omega)⟩
    rw [or_assoc]
    refine or_congr_right ⟨?_, ?_⟩
    · rintro (⟨hq, hbegins, hle⟩ | rfl)
      · exact ⟨hq, hbegins, by omega⟩
      · exact ⟨hne, htake, by simp⟩
    · rintro ⟨hq, hbegins, hle⟩
      rcases Nat.lt_or_ge q.length (n + 1) with hlt | hge
      · exact .inl ⟨hq, hbegins, by omega⟩
      · refine .inr ?_
        rw [List.prefix_iff_eq_take.mp hbegins]
        congr 1
        omega

theorem Holds.attach (h : Holds all done paths fs) (hpath : paths (components entry.path))
    (hnew : ∀ other ∈ done, components other.path ≠ components entry.path) :
    Holds all (done ++ [entry]) paths (fs.attach (components entry.path) entry) := by
  have hpaths : ∀ l : List PseudoNode,
      (l.map (take (components entry.path) entry)).map PseudoNode.path = l.map PseudoNode.path := by
    intro l
    rw [List.map_map]
    exact List.map_congr_left fun node _ => take_path _ _ node
  refine ⟨?_, ?_, ?_, ?_, ?_⟩
  · rw [nodes_attach, hpaths]
    exact h.paths_nodup
  · intro q
    simp only [nodes_attach, List.mem_map, exists_exists_and_eq_and, take_path]
    exact h.mem_iff q
  · intro node hnode other hexp
    rw [nodes_attach, List.mem_map] at hnode
    obtain ⟨was, hwas, rfl⟩ := hnode
    unfold take at hexp ⊢
    split_ifs at hexp ⊢ with hhere
    · cases hexp
      exact ⟨by simp, hhere.1⟩
    · obtain ⟨hdone, hat⟩ := h.exp_of was hwas other hexp
      exact ⟨List.mem_append_left _ hdone, hat⟩
  · intro other hother
    simp only [nodes_attach, List.mem_map, exists_exists_and_eq_and, take_path]
    rcases List.mem_append.mp hother with hdone | hlast
    · obtain ⟨node, hnode, hat, hexp⟩ := h.exp_at other hdone
      refine ⟨node, hnode, hat, ?_⟩
      simp [take, hexp]
    · rw [List.mem_singleton] at hlast
      subst hlast
      obtain ⟨node, hnode, hat⟩ := (h.mem_iff _).mpr hpath
      have hfree : node.exp = none := by
        cases hexp : node.exp with
        | none => rfl
        | some earlier =>
          obtain ⟨hdone, hsame⟩ := h.exp_of node hnode earlier hexp
          exact absurd (hsame.symm.trans hat) (hnew earlier hdone)
      exact ⟨node, hnode, hat, by simp [take, hat, hfree]⟩
  · intro apart node hnode
    rw [nodes_attach, List.mem_map] at hnode
    obtain ⟨was, hwas, rfl⟩ := hnode
    rw [take_id, take_path]
    exact h.hashed apart was hwas

theorem Holds.addEntry (h : Holds all done (IsPrefix done) fs) (hdone : ∀ other ∈ done, other ∈ all)
    (hentry : entry ∈ all)
    (hnew : ∀ other ∈ done, components other.path ≠ components entry.path)
    (hsmall : fs.nodes.length + (components entry.path).length + 2 ≤ 2 ^ 64) :
    Holds all (done ++ [entry]) (IsPrefix (done ++ [entry])) (fs.addEntry entry) ∧
      (fs.addEntry entry).nodes.length ≤ fs.nodes.length + (components entry.path).length := by
  have hbefore : ∀ q, IsPrefix done q → IsPrefix all q := by
    rintro q (hq | ⟨other, hother, hq⟩)
    · exact .inl hq
    · exact .inr ⟨other, hdone other hother, hq⟩
  obtain ⟨hgrown, hlen⟩ := h.grow (fun path hpath => .inr ⟨entry, hentry, hpath⟩) hbefore le_rfl hsmall
  have hpaths : ∀ q, (IsPrefix done q ∨ q ≠ [] ∧ q <+: components entry.path ∧
      q.length ≤ (components entry.path).length) ↔ IsPrefix (done ++ [entry]) q := by
    intro q
    unfold IsPrefix
    constructor
    · rintro ((hq | ⟨other, hother, hq⟩) | ⟨-, hq, -⟩)
      · exact .inl hq
      · exact .inr ⟨other, List.mem_append_left _ hother, hq⟩
      · exact .inr ⟨entry, by simp, hq⟩
    · rintro (hq | ⟨other, hother, hq⟩)
      · exact .inl (.inl hq)
      · rcases List.mem_append.mp hother with hother | hlast
        · exact .inl (.inr ⟨other, hother, hq⟩)
        · rw [List.mem_singleton] at hlast
          subst hlast
          by_cases hnil : q = []
          · exact .inl (.inl hnil)
          · exact .inr ⟨hnil, hq, hq.length_le⟩
  refine ⟨(hgrown.congr hpaths).attach (.inr ⟨entry, by simp, List.prefix_rfl⟩) hnew, ?_⟩
  simpa [PseudoFs.addEntry, nodes_attach] using hlen

/-- The whole loop of the constructor. -/
theorem holds_build (all : List ExportEntry) (changeBase : UInt64) {entries : List ExportEntry}
    (hall : ∀ entry ∈ entries, entry ∈ all) (hdistinct : (entries.map fun entry => components entry.path).Nodup)
    (hsmall : (entries.map fun entry => (components entry.path).length).sum + 3 ≤ 2 ^ 64) :
    Holds all entries (IsPrefix entries) (build entries changeBase) ∧
      (build entries changeBase).nodes.length ≤ 1 + (entries.map fun entry => (components entry.path).length).sum := by
  induction entries using List.reverseRecOn with
  | nil => exact ⟨(Holds.bare all changeBase).congr fun q => by simp [IsPrefix], le_rfl⟩
  | append_singleton entries entry ih =>
    rw [List.map_append, List.sum_append] at hsmall ⊢
    simp only [List.map_cons, List.map_nil, List.sum_cons, List.sum_nil, Nat.add_zero] at hsmall ⊢
    rw [List.map_append, List.nodup_append'] at hdistinct
    obtain ⟨hbefore, hlen⟩ := ih (fun other hother => hall other (List.mem_append_left _ hother)) hdistinct.1 (by omega)
    have hnew : ∀ other ∈ entries, components other.path ≠ components entry.path := by
      intro other hother eq
      exact hdistinct.2.2 (List.mem_map_of_mem hother) (by simp [eq])
    obtain ⟨hafter, hcount⟩ := hbefore.addEntry (fun other hother => hall other (List.mem_append_left _ hother))
      (hall entry (by simp)) hnew (by omega)
    rw [build, List.foldl_append]
    exact ⟨hafter, hcount.trans (by omega)⟩

theorem Holds.inj (h : Holds all done paths fs) {other : PseudoNode} (hnode : node ∈ fs.nodes)
    (hother : other ∈ fs.nodes) (eq : node.path = other.path) : node = other :=
  List.inj_on_of_nodup_map h.paths_nodup hnode hother eq

/-- The names on the way up are the path, given steps enough to reach the root. -/
theorem Holds.pathOf (h : Holds all done (IsPrefix done) fs) {fuel : Nat} (hnode : node ∈ fs.nodes)
    (hfuel : node.path.length ≤ fuel) : fs.pathOf fuel node = node.path := by
  induction fuel generalizing node with
  | zero => exact (List.eq_nil_of_length_eq_zero (Nat.le_zero.mp hfuel)).symm
  | succ fuel ih =>
    rw [PseudoFs.pathOf]
    by_cases hroot : node.path = []
    · simp [parent, hroot]
    · -- The parent is in the tree, as the prefixes of a prefix are prefixes.
      have habove : IsPrefix done node.path.dropLast := by
        rcases (h.mem_iff node.path).mp ⟨node, hnode, rfl⟩ with hnil | ⟨entry, hentry, hbegins⟩
        · exact absurd hnil hroot
        · have hshorter := List.dropLast_prefix node.path
          exact .inr ⟨entry, hentry, hshorter.trans hbegins⟩
      obtain ⟨above, hmem, hpath⟩ := (h.mem_iff _).mpr habove
      have hparent : fs.parent node = some above := by
        rw [parent, if_neg hroot]
        obtain ⟨found, hfound⟩ : ∃ found, fs.nodes.find? (·.path == node.path.dropLast) = some found := by
          rw [← Option.isSome_iff_exists, List.find?_isSome]
          exact ⟨above, hmem, by simpa using hpath⟩
        have hsame : found.path = node.path.dropLast := by simpa using List.find?_some hfound
        rw [hfound, h.inj (List.mem_of_find?_eq_some hfound) hmem (hsame.trans hpath.symm)]
      rw [hparent]
      show fs.pathOf fuel above ++ [node.name] = node.path
      rw [ih hmem (by rw [hpath, List.length_dropLast]; omega), hpath, PseudoNode.name,
        List.getLastD_eq_getLast?, List.getLast?_eq_some_getLast hroot]
      exact List.dropLast_append_getLast hroot

theorem Holds.forExport {set : ExportSet} {fs : PseudoFs} (h : Holds all set.entries paths fs)
    (hentry : entry ∈ set.entries) (hnode : node ∈ fs.nodes)
    (hpath : node.path = components entry.path) (hexp : node.exp = some entry) :
    fs.forExport entry.fsid = some node := by
  obtain ⟨found, hfound⟩ : ∃ found, fs.forExport entry.fsid = some found := by
    rw [← Option.isSome_iff_exists, PseudoFs.forExport, List.find?_isSome]
    exact ⟨node, hnode, by simp [hexp]⟩
  have hmem := mem_of_forExport hfound
  have hfind := hfound
  rw [PseudoFs.forExport] at hfind
  have hid := List.find?_some hfind
  obtain ⟨other, hother, hsame⟩ := (Option.any_eq_true _ _).mp hid
  obtain ⟨hin, hat⟩ := h.exp_of found hmem other hother
  -- The set is ordered by id, so an id has one export.
  have hids : (set.entries.map ExportEntry.fsid).Nodup :=
    List.pairwise_map.mpr (set.sorted.imp fun hlt => UInt32.ne_of_lt hlt)
  have heq : other = entry := List.inj_on_of_nodup_map hids hin hentry (beq_iff_eq.mp hsame)
  subst heq
  rw [hfound, h.inj hmem hnode (hat.trans hpath.symm)]

end PseudoFs

/-- The tree of a set whose export paths have different components has one node for each prefix of an export path, each
export at the node of its path. Where the export paths are plain, a path that is plain after its trailing slashes is
served by the longest match. -/
theorem pseudo_tree_matches_paths {set : ExportSet}
    (hdistinct : (set.entries.map fun entry => components entry.path).Nodup)
    (hsmall : (set.entries.map fun entry => (components entry.path).length).sum + 3 ≤ 2 ^ 64) :
    (∀ path, IsPrefix set.entries path ↔ ∃ node ∈ set.pseudo.nodes, node.path = path) ∧
    (set.pseudo.nodes.map PseudoNode.path).Nodup ∧
    (∀ node ∈ set.pseudo.nodes, ∀ fuel, node.path.length ≤ fuel → set.pseudo.pathOf fuel node = node.path) ∧
    (∀ entry ∈ set.entries, ∃ node ∈ set.pseudo.nodes, node.path = components entry.path ∧
      node.exp = some entry ∧ set.pseudo.forExport entry.fsid = some node) ∧
    (∀ node ∈ set.pseudo.nodes, set.pseudo.resolve (oidOf node) = some node) ∧
    set.pseudo.ids.Nodup ∧
    (HashesApart set.entries → ∀ node ∈ set.pseudo.nodes, node.id = fnv64 (pathText node.path)) ∧
    ((∀ entry ∈ set.entries, PlainPath entry.path) → ∀ raw, PlainPath (normalizePath raw) →
      let parts := components (normalizePath raw)
      (set.forMountPath raw = none ↔ ∀ entry ∈ set.entries, ¬ components entry.path <+: parts) ∧
      ∀ best relative, set.forMountPath raw = some (best, relative) →
        best ∈ set.entries ∧ components best.path <+: parts ∧
        (∀ entry ∈ set.entries, components entry.path <+: parts →
          (components entry.path).length ≤ (components best.path).length) ∧
        relative = List.intercalate [47] (parts.drop (components best.path).length)) := by
  obtain ⟨holds, -⟩ := holds_build set.entries set.pseudoChange (fun _ h => h) hdistinct hsmall
  refine ⟨fun path => (holds.mem_iff path).symm, holds.paths_nodup, fun node hnode fuel => holds.pathOf hnode, ?_,
    fun node hnode => resolve_oidOf hnode, set.pseudo.ids_nodup, holds.hashed,
    fun hplain raw => forMountPath_longest hplain⟩
  intro entry hentry
  obtain ⟨node, hnode, hpath, hexp⟩ := holds.exp_at entry hentry
  exact ⟨node, hnode, hpath, hexp, holds.forExport hentry hnode hpath hexp⟩

theorem nested_fsid_ne_zero : (1 : UInt32) ≠ 0 ∧ (2 : UInt32) ≠ 0 := by decide

/-- Two exports, with ids in their order. -/
def twoExports (first second : Bytes) : ExportSet where
  entries := [{ path := first, fsid := 1, fsid_ne_zero := nested_fsid_ne_zero.1 },
    { path := second, fsid := 2, fsid_ne_zero := nested_fsid_ne_zero.2 }]
  sorted := by simp

/-- The exports `/a` and `/a/b`. -/
def nestedExports : ExportSet := twoExports [47, 97] [47, 97, 47, 98]

theorem nestedExports_plain : ∀ entry ∈ nestedExports.entries, PlainPath entry.path := by
  intro entry hentry
  simp only [nestedExports, twoExports, List.mem_cons, List.not_mem_nil, or_false] at hentry
  rcases hentry with rfl | rfl
  · exact ⟨[[97]], by simp [IsComponent], rfl⟩
  · exact ⟨[[97], [98]], by simp [IsComponent], rfl⟩

/-- The nested export is attached below the outer one, also where its path repeats a slash, and a mount of it finds
it. -/
theorem pseudo_tree_matches_paths_nested :
    (∃ node ∈ (twoExports [47, 97] [47, 97, 47, 47, 98]).pseudo.nodes, node.path = [[97], [98]] ∧
      (twoExports [47, 97] [47, 97, 47, 47, 98]).pseudo.forExport 2 = some node) ∧
      ∀ best relative, nestedExports.forMountPath [47, 97, 47, 98, 47, 99] = some (best, relative) →
        best ∈ nestedExports.entries ∧ relative =
          List.intercalate [47] ([[97], [98], [99]].drop (components best.path).length) := by
  have hraw : PlainPath (normalizePath [47, 97, 47, 98, 47, 99]) :=
    ⟨[[97], [98], [99]], by simp [IsComponent], rfl⟩
  obtain ⟨-, -, -, hattached, -⟩ :=
    @pseudo_tree_matches_paths (twoExports [47, 97] [47, 97, 47, 47, 98]) (by decide) (by decide)
  obtain ⟨-, -, -, -, -, -, -, hmount⟩ := @pseudo_tree_matches_paths nestedExports (by decide) (by decide)
  obtain ⟨node, hnode, hpath, -, hfound⟩ := hattached _ (List.mem_cons_of_mem _ List.mem_cons_self)
  refine ⟨⟨node, hnode, hpath, hfound⟩, fun best relative h => ?_⟩
  obtain ⟨hbest, -, -, hrelative⟩ := (hmount nestedExports_plain _ hraw).2 best relative h
  exact ⟨hbest, hrelative⟩

/-- A mount of `/a//b`: by components that is the export `/a/b`, the lookup answers `/a` and `b`. And of the exports
`/a/b` and `/a//b`, which share a node, the second is attached nowhere. -/
theorem repeated_slash_misses_nested :
    (components [47, 97, 47, 47, 98] = [[97], [98]] ∧
      nestedExports.entries.map (components ·.path) = [[[97]], [[97], [98]]] ∧
      (nestedExports.forMountPath [47, 97, 47, 47, 98]).map (fun found => (found.1.fsid, found.2)) =
        some (1, [98])) ∧
      normalizePath [47, 97, 47, 47, 98] = [47, 97, 47, 47, 98] ∧
      (twoExports [47, 97, 47, 98] [47, 97, 47, 47, 98]).pseudo.forExport 2 = none := by
  decide +kernel

end LightNfs
