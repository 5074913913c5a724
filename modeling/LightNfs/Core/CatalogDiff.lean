import Mathlib
import LightNfs.Core.Catalog

/-!
# Exactness of catalog differences

`diff_catalog` compares two documents field by field. For documents that `validate_catalog` accepts its
lists say exactly what changed: they are empty only for equal exports, and the changes they name turn the first
document's exports into the second's.
-/

namespace LightNfs

open Text

namespace CatalogDiff

/-- `CatalogDiff::empty`. -/
def isEmpty (d : CatalogDiff) : Bool :=
  d.added.isEmpty && d.removed.isEmpty && d.disabled.isEmpty && d.enabled.isEmpty && d.nodesChanged.isEmpty &&
    d.dynamicChanged.isEmpty && d.rejected.isEmpty

/-- The aspects of `a` that the lists name, changed to those of `b`. -/
def revise (d : CatalogDiff) (a b : CatalogExport) : CatalogExport :=
  let fsid := a.cfg.fsid
  let switched : CatalogExport :=
    { a with disabled := if fsid ∈ d.disabled ∨ fsid ∈ d.enabled then b.disabled else a.disabled }
  let moved : ExportConfig :=
    { switched.cfg with nodes := if fsid ∈ d.nodesChanged then b.cfg.nodes else a.cfg.nodes }
  { switched with
    cfg :=
      if fsid ∈ d.dynamicChanged then
        { moved with
          clients := b.cfg.clients
          readBps := b.cfg.readBps
          writeBps := b.cfg.writeBps
          iops := b.cfg.iops
          readonly := b.cfg.readonly
          securePorts := b.cfg.securePorts
          strictReaddirCookies := b.cfg.strictReaddirCookies
          squash := b.cfg.squash
          anonUid := b.cfg.anonUid
          anonGid := b.cfg.anonGid }
      else moved }

/-- The exports of `old` with what the lists name taken from `new`: removals, changes, additions. -/
def patch (d : CatalogDiff) (old new : Catalog) : List CatalogExport :=
  (old.exports.filter fun a => decide (a.cfg.fsid ∉ d.removed)).map
      (fun a => ((new.last a.cfg.fsid).map (d.revise a)).getD a) ++
    new.exports.filter fun b => decide (b.cfg.fsid ∈ d.added)

end CatalogDiff

/-- Both documents have an export of the id, and the two are related. -/
def Both (old new : Catalog) (fsid : UInt32) (related : CatalogExport → CatalogExport → Prop) : Prop :=
  ∃ a ∈ old.exports, ∃ b ∈ new.exports, a.cfg.fsid = fsid ∧ b.cfg.fsid = fsid ∧ related a b

/-- The two exports are one in path, backend and backend options. -/
def SameIdentity (a b : CatalogExport) : Prop :=
  a.cfg.path = b.cfg.path ∧ a.cfg.backend = b.cfg.backend ∧ a.cfg.options = b.cfg.options

def SameDynamic (a b : CatalogExport) : Prop :=
  a.cfg.clients = b.cfg.clients ∧ a.cfg.readBps = b.cfg.readBps ∧ a.cfg.writeBps = b.cfg.writeBps ∧
    a.cfg.iops = b.cfg.iops ∧ a.cfg.readonly = b.cfg.readonly ∧ a.cfg.securePorts = b.cfg.securePorts ∧
    a.cfg.strictReaddirCookies = b.cfg.strictReaddirCookies ∧ a.cfg.squash = b.cfg.squash ∧
    a.cfg.anonUid = b.cfg.anonUid ∧ a.cfg.anonGid = b.cfg.anonGid

structure DiffDescribes (old new : Catalog) (d : CatalogDiff) : Prop where
  added : ∀ fsid, fsid ∈ d.added ↔
    (∃ b ∈ new.exports, b.cfg.fsid = fsid) ∧ ∀ a ∈ old.exports, a.cfg.fsid ≠ fsid
  removed : ∀ fsid, fsid ∈ d.removed ↔
    (∃ a ∈ old.exports, a.cfg.fsid = fsid) ∧ ∀ b ∈ new.exports, b.cfg.fsid ≠ fsid
  rejected : ∀ fsid, fsid ∈ d.rejected ↔ Both old new fsid fun a b => ¬SameIdentity a b
  disabled : ∀ fsid, fsid ∈ d.disabled ↔
    Both old new fsid fun a b => SameIdentity a b ∧ a.disabled = false ∧ b.disabled = true
  enabled : ∀ fsid, fsid ∈ d.enabled ↔
    Both old new fsid fun a b => SameIdentity a b ∧ a.disabled = true ∧ b.disabled = false
  nodesChanged : ∀ fsid, fsid ∈ d.nodesChanged ↔
    Both old new fsid fun a b => SameIdentity a b ∧ a.cfg.nodes ≠ b.cfg.nodes
  dynamicChanged : ∀ fsid, fsid ∈ d.dynamicChanged ↔
    Both old new fsid fun a b => SameIdentity a b ∧ ¬SameDynamic a b

/-! ### The lists -/

theorem dynamicDiffers_iff (a b : CatalogExport) : dynamicDiffers a.cfg b.cfg = true ↔ ¬SameDynamic a b := by
  simp only [dynamicDiffers, Bool.or_eq_true, bne_iff_ne, SameDynamic]
  tauto

/-- Options without the keys of single hosts are compared whole. -/
theorem clusterBackendKeys_eq {options : Options}
    (h : ∀ option ∈ options.entries, perNodeBackendKey option.1 = false) : clusterBackendKeys options = options := by
  refine SortedMap.filterKeys_eq_self ?_
  intro option mem
  rw [h option mem]
  rfl

theorem export_eq {a b : CatalogExport} (hfsid : a.cfg.fsid = b.cfg.fsid) (hidentity : SameIdentity a b)
    (hdynamic : SameDynamic a b) (hnodes : a.cfg.nodes = b.cfg.nodes) (hdisabled : a.disabled = b.disabled) : a = b := by
  obtain ⟨⟨path, backend, hfsid, clients, squash, anonUid, anonGid, readonly, securePorts, strict, readBps, writeBps,
    iops, hnodes, options⟩, hdisabled⟩ := a
  obtain ⟨⟨path', backend', fsid', clients', squash', anonUid', anonGid', readonly', securePorts', strict', readBps',
    writeBps', iops', nodes', options'⟩, disabled'⟩ := b
  simp only [SameIdentity, SameDynamic] at *
  simp_all

/-- Two documents that were accepted, on any gateway. -/
structure Accepted (old new : Catalog) : Prop where
  old_distinct : old.Distinct
  new_distinct : new.Distinct
  old_options : ∀ a ∈ old.exports, clusterBackendKeys a.cfg.options = a.cfg.options
  new_options : ∀ b ∈ new.exports, clusterBackendKeys b.cfg.options = b.cfg.options

namespace Accepted

variable {old new : Catalog}

theorem of_valid {platform platform' : Platform} {activeActive activeActive' : Bool}
    (hold : validateCatalog platform activeActive old = .ok ())
    (hnew : validateCatalog platform' activeActive' new = .ok ()) : Accepted old new where
  old_distinct := (catalogValid hold).2
  new_distinct := (catalogValid hnew).2
  old_options a mem := clusterBackendKeys_eq ((catalogValid hold).1 a mem).no_per_node
  new_options b mem := clusterBackendKeys_eq ((catalogValid hnew).1 b mem).no_per_node

theorem sameIdentity_iff (h : Accepted old new) {a b : CatalogExport} (ha : a ∈ old.exports)
    (hb : b ∈ new.exports) : sameIdentity a.cfg b.cfg = true ↔ SameIdentity a b := by
  simp only [sameIdentity, Bool.and_eq_true, beq_iff_eq, SameIdentity, and_assoc, h.old_options a ha,
    h.new_options b hb]

theorem mem_kept (h : Accepted old new) {test : CatalogExport → CatalogExport → Bool}
    {related : CatalogExport → CatalogExport → Prop} (fsid : UInt32)
    (hiff : ∀ a ∈ old.exports, ∀ b ∈ new.exports, test a b = true ↔ related a b) :
    fsid ∈ keptFsids old new test ↔ Both old new fsid related := by
  rw [mem_keptFsids h.old_distinct h.new_distinct, Both]
  refine exists_congr fun a => and_congr_right fun ha => exists_congr fun b => and_congr_right fun hb => ?_
  rw [hiff a ha b hb]

theorem describes (h : Accepted old new) : DiffDescribes old new (diffCatalog old new) := by
  have hchanged : ∀ {test : CatalogExport → CatalogExport → Bool} {related : CatalogExport → CatalogExport → Prop}
      (fsid : UInt32),
      (∀ a ∈ old.exports, ∀ b ∈ new.exports, test a b = true ↔ related a b) →
      (fsid ∈ keptFsids old new (fun a b => sameIdentity a.cfg b.cfg && test a b) ↔
        Both old new fsid fun a b => SameIdentity a b ∧ related a b) := by
    intro test related fsid iff
    refine h.mem_kept fsid fun a ha b hb => ?_
    rw [Bool.and_eq_true, h.sameIdentity_iff ha hb, iff a ha b hb]
  refine ⟨?_, ?_, ?_, ?_, ?_, ?_, ?_⟩
  · intro fsid
    simp only [diffCatalog, List.mem_filter, mem_fsids, Option.isNone_iff_eq_none, last_eq_none_iff]
  · intro fsid
    simp only [diffCatalog, List.mem_filter, mem_fsids, Option.isNone_iff_eq_none, last_eq_none_iff]
  · intro fsid
    refine h.mem_kept fsid fun a ha b hb => ?_
    rw [Bool.not_eq_true', ← Bool.not_eq_true, h.sameIdentity_iff ha hb]
  · intro fsid
    refine hchanged fsid fun a _ b _ => ?_
    rw [Bool.and_eq_true, Bool.not_eq_true']
  · intro fsid
    refine hchanged fsid fun a _ b _ => ?_
    rw [Bool.and_eq_true, Bool.not_eq_true']
  · intro fsid
    exact hchanged fsid fun a _ b _ => bne_iff_ne
  · intro fsid
    exact hchanged fsid fun a _ b _ => dynamicDiffers_iff a b

/-- For the two exports of an id, what relates them is what relates any. -/
theorem both_iff (h : Accepted old new) {a b : CatalogExport} (ha : a ∈ old.exports) (hb : b ∈ new.exports)
    (hsame : a.cfg.fsid = b.cfg.fsid) {related : CatalogExport → CatalogExport → Prop} :
    Both old new a.cfg.fsid related ↔ related a b := by
  constructor
  · rintro ⟨a', ha', b', hb', eqa, eqb, rel⟩
    have hfa := eq_of_distinct (fun e : CatalogExport => e.cfg.fsid) h.old_distinct ha' ha eqa
    have hfb := eq_of_distinct (fun e : CatalogExport => e.cfg.fsid) h.new_distinct hb' hb (eqb.trans hsame)
    exact hfa ▸ hfb ▸ rel
  · intro rel
    exact ⟨a, ha, b, hb, rfl, hsame.symm, rel⟩

end Accepted

/-! ### Nothing changed -/

def CatalogDiff.Mentions (d : CatalogDiff) (fsid : UInt32) : Prop :=
  fsid ∈ d.added ∨ fsid ∈ d.removed ∨ fsid ∈ d.disabled ∨ fsid ∈ d.enabled ∨ fsid ∈ d.nodesChanged ∨
    fsid ∈ d.dynamicChanged ∨ fsid ∈ d.rejected

theorem isEmpty_iff (d : CatalogDiff) : d.isEmpty = true ↔ ∀ fsid, ¬d.Mentions fsid := by
  simp only [CatalogDiff.isEmpty, Bool.and_eq_true, List.isEmpty_iff, List.eq_nil_iff_forall_not_mem,
    CatalogDiff.Mentions, not_or]
  constructor
  · rintro ⟨⟨⟨⟨⟨⟨h1, h2⟩, h3⟩, h4⟩, h5⟩, h6⟩, h7⟩ fsid
    exact ⟨h1 fsid, h2 fsid, h3 fsid, h4 fsid, h5 fsid, h6 fsid, h7 fsid⟩
  · intro h
    exact ⟨⟨⟨⟨⟨⟨fun f => (h f).1, fun f => (h f).2.1⟩, fun f => (h f).2.2.1⟩, fun f => (h f).2.2.2.1⟩,
      fun f => (h f).2.2.2.2.1⟩, fun f => (h f).2.2.2.2.2.1⟩, fun f => (h f).2.2.2.2.2.2⟩

namespace Accepted

variable {old new : Catalog}

/-- An id with two exports is mentioned exactly when they differ. -/
theorem mentions_iff (h : Accepted old new) {a b : CatalogExport} (ha : a ∈ old.exports) (hb : b ∈ new.exports)
    (hsame : a.cfg.fsid = b.cfg.fsid) : (diffCatalog old new).Mentions a.cfg.fsid ↔ a ≠ b := by
  have hd := h.describes
  have hkept : a.cfg.fsid ∉ (diffCatalog old new).added ∧ a.cfg.fsid ∉ (diffCatalog old new).removed := by
    rw [hd.added, hd.removed]
    exact ⟨fun hadd => hadd.2 a ha rfl, fun hrem => hrem.2 b hb hsame.symm⟩
  rw [CatalogDiff.Mentions, hd.disabled, hd.enabled, hd.nodesChanged, hd.dynamicChanged, hd.rejected]
  simp only [hkept, false_or, h.both_iff ha hb hsame]
  constructor
  · rintro mentioned rfl
    simp [SameIdentity, SameDynamic] at mentioned
  · intro differs
    by_contra none_
    simp only [not_or, not_and, not_not] at none_
    obtain ⟨off, on, nodes, dynamic, identity⟩ := none_
    refine differs (export_eq hsame identity (dynamic identity) (nodes identity) ?_)
    have off' := off identity
    have on' := on identity
    revert off' on'
    cases a.disabled <;> cases b.disabled <;> simp

theorem nodup_old (h : Accepted old new) : old.exports.Nodup :=
  h.old_distinct.imp fun ne eq => ne (congrArg (fun e : CatalogExport => e.cfg.fsid) eq)

theorem nodup_new (h : Accepted old new) : new.exports.Nodup :=
  h.new_distinct.imp fun ne eq => ne (congrArg (fun e : CatalogExport => e.cfg.fsid) eq)

theorem isEmpty_iff_perm (h : Accepted old new) :
    (diffCatalog old new).isEmpty = true ↔ old.exports.Perm new.exports := by
  have hd := h.describes
  rw [isEmpty_iff, List.perm_ext_iff_of_nodup h.nodup_old h.nodup_new]
  constructor
  · intro quiet e
    constructor
    · intro he
      by_cases hfound : ∃ b ∈ new.exports, b.cfg.fsid = e.cfg.fsid
      · obtain ⟨b, hb, same⟩ := hfound
        have heq : e = b := by
          by_contra ne
          exact quiet _ ((h.mentions_iff he hb same.symm).2 ne)
        exact heq ▸ hb
      · exact absurd (.inr (.inl ((hd.removed _).2 ⟨⟨e, he, rfl⟩, fun b hb same => hfound ⟨b, hb, same⟩⟩)))
          (quiet e.cfg.fsid)
    · intro he
      by_cases hfound : ∃ a ∈ old.exports, a.cfg.fsid = e.cfg.fsid
      · obtain ⟨a, ha, same⟩ := hfound
        have heq : a = e := by
          by_contra ne
          exact quiet _ ((h.mentions_iff ha he same).2 ne)
        exact heq ▸ ha
      · exact absurd (.inl ((hd.added _).2 ⟨⟨e, he, rfl⟩, fun a ha same => hfound ⟨a, ha, same⟩⟩))
          (quiet e.cfg.fsid)
  · intro all fsid mentioned
    have hkept : ∀ {related}, Both old new fsid related → ∃ a ∈ old.exports, a.cfg.fsid = fsid := by
      rintro related ⟨a, ha, -, -, heq, -, -⟩
      exact ⟨a, ha, heq⟩
    have hfound : ∃ a ∈ old.exports, a.cfg.fsid = fsid := by
      rcases mentioned with m | m | m | m | m | m | m
      · obtain ⟨b, hb, heq⟩ := ((hd.added fsid).1 m).1
        exact ⟨b, (all b).2 hb, heq⟩
      · exact ((hd.removed fsid).1 m).1
      · exact hkept ((hd.disabled fsid).1 m)
      · exact hkept ((hd.enabled fsid).1 m)
      · exact hkept ((hd.nodesChanged fsid).1 m)
      · exact hkept ((hd.dynamicChanged fsid).1 m)
      · exact hkept ((hd.rejected fsid).1 m)
    obtain ⟨a, ha, rfl⟩ := hfound
    exact (h.mentions_iff ha ((all a).1 ha) rfl).1 mentioned rfl

/-! ### The changes the lists name -/

theorem revise_eq (h : Accepted old new) (hnone : (diffCatalog old new).rejected = []) {a b : CatalogExport}
    (ha : a ∈ old.exports) (hb : b ∈ new.exports) (hsame : a.cfg.fsid = b.cfg.fsid) :
    (diffCatalog old new).revise a b = b := by
  have hd := h.describes
  have hidentity : SameIdentity a b := by
    by_contra differs
    have hmem := (hd.rejected _).2 ((h.both_iff ha hb hsame).2 differs)
    rw [hnone] at hmem
    cases hmem
  have hoff := (hd.disabled a.cfg.fsid).trans (h.both_iff ha hb hsame)
  have hon := (hd.enabled a.cfg.fsid).trans (h.both_iff ha hb hsame)
  have hnodes := (hd.nodesChanged a.cfg.fsid).trans (h.both_iff ha hb hsame)
  have hdynamic := (hd.dynamicChanged a.cfg.fsid).trans (h.both_iff ha hb hsame)
  have hdisabled : (if a.cfg.fsid ∈ (diffCatalog old new).disabled ∨ a.cfg.fsid ∈ (diffCatalog old new).enabled
      then b.disabled else a.disabled) = b.disabled := by
    split_ifs with switched
    · rfl
    · rw [hoff, hon] at switched
      revert switched
      cases a.disabled <;> cases b.disabled <;> simp [hidentity]
  have hlisted : (if a.cfg.fsid ∈ (diffCatalog old new).nodesChanged then b.cfg.nodes else a.cfg.nodes) =
      b.cfg.nodes := by
    split_ifs with moved
    · rfl
    · by_contra differs
      exact moved (hnodes.2 ⟨hidentity, differs⟩)
  obtain ⟨path, backend, options⟩ := hidentity
  simp only [CatalogDiff.revise, hdisabled, hlisted]
  by_cases changed : a.cfg.fsid ∈ (diffCatalog old new).dynamicChanged
  · rw [if_pos changed]
    refine export_eq hsame ⟨path, backend, options⟩ ?_ rfl rfl
    exact ⟨rfl, rfl, rfl, rfl, rfl, rfl, rfl, rfl, rfl, rfl⟩
  · rw [if_neg changed]
    have hagree : SameDynamic a b := by
      by_contra differs
      exact changed (hdynamic.2 ⟨⟨path, backend, options⟩, differs⟩)
    exact export_eq hsame ⟨path, backend, options⟩ hagree rfl rfl

theorem mem_patch (h : Accepted old new) (hnone : (diffCatalog old new).rejected = []) (e : CatalogExport) :
    e ∈ (diffCatalog old new).patch old new ↔ e ∈ new.exports := by
  have hd := h.describes
  simp only [CatalogDiff.patch, List.mem_append, List.mem_map, List.mem_filter, decide_eq_true_eq]
  constructor
  · rintro (⟨a, ⟨ha, kept⟩, rfl⟩ | ⟨he, -⟩)
    · have hfound : ∃ b ∈ new.exports, b.cfg.fsid = a.cfg.fsid := by
        by_contra missing
        exact kept ((hd.removed _).2 ⟨⟨a, ha, rfl⟩, fun b hb same => missing ⟨b, hb, same⟩⟩)
      obtain ⟨b, hb, same⟩ := hfound
      rw [(last_eq_some_iff h.new_distinct).2 ⟨hb, same⟩, Option.map_some, Option.getD_some,
        h.revise_eq hnone ha hb same.symm]
      exact hb
    · exact he
  · intro he
    by_cases hfound : ∃ a ∈ old.exports, a.cfg.fsid = e.cfg.fsid
    · obtain ⟨a, ha, same⟩ := hfound
      refine .inl ⟨a, ⟨ha, fun removed => ((hd.removed _).1 removed).2 e he same.symm⟩, ?_⟩
      rw [(last_eq_some_iff h.new_distinct).2 ⟨he, same.symm⟩, Option.map_some, Option.getD_some,
        h.revise_eq hnone ha he same]
    · exact .inr ⟨he, (hd.added _).2 ⟨⟨e, he, rfl⟩, fun a ha same => hfound ⟨a, ha, same⟩⟩⟩

theorem patched_fsid (d : CatalogDiff) (new : Catalog) (a : CatalogExport) :
    (((new.last a.cfg.fsid).map (d.revise a)).getD a).cfg.fsid = a.cfg.fsid := by
  cases new.last a.cfg.fsid with
  | none => rfl
  | some b =>
    rw [Option.map_some, Option.getD_some, CatalogDiff.revise]
    split <;> rfl

theorem patch_nodup (h : Accepted old new) : ((diffCatalog old new).patch old new).Nodup := by
  have hd := h.describes
  refine List.nodup_append'.2 ⟨(h.nodup_old.filter _).map_on ?_, h.nodup_new.filter _, ?_⟩
  · intro a ha a' ha' eq
    have hsame := congrArg (fun e : CatalogExport => e.cfg.fsid) eq
    rw [patched_fsid, patched_fsid] at hsame
    exact eq_of_distinct (fun e : CatalogExport => e.cfg.fsid) h.old_distinct (List.mem_of_mem_filter ha)
      (List.mem_of_mem_filter ha') hsame
  · intro e patched added
    obtain ⟨a, ha, rfl⟩ := List.mem_map.1 patched
    have hnew := (List.mem_filter.1 added).2
    rw [decide_eq_true_eq, patched_fsid, hd.added] at hnew
    exact hnew.2 a (List.mem_of_mem_filter ha) rfl

end Accepted

/-- The difference of two accepted documents is empty exactly when their exports are the same up to order; each of
its lists holds exactly the ids it is for, so that an id with two different exports is in one of them and a
rejected one in no other; and where nothing is rejected, the changes it names lead from the first document's
exports to the second's. -/
theorem diffCatalog_exact {platform platform' : Platform} {activeActive activeActive' : Bool} {old new : Catalog}
    (hold : validateCatalog platform activeActive old = .ok ())
    (hnew : validateCatalog platform' activeActive' new = .ok ()) :
    ((diffCatalog old new).isEmpty = true ↔ old.exports.Perm new.exports) ∧
      DiffDescribes old new (diffCatalog old new) ∧
      (∀ a ∈ old.exports, ∀ b ∈ new.exports, a.cfg.fsid = b.cfg.fsid →
        ((diffCatalog old new).Mentions a.cfg.fsid ↔ a ≠ b)) ∧
      (∀ fsid ∈ (diffCatalog old new).rejected, fsid ∉ (diffCatalog old new).added ∧
        fsid ∉ (diffCatalog old new).removed ∧ fsid ∉ (diffCatalog old new).disabled ∧
        fsid ∉ (diffCatalog old new).enabled ∧ fsid ∉ (diffCatalog old new).nodesChanged ∧
        fsid ∉ (diffCatalog old new).dynamicChanged) ∧
      ((diffCatalog old new).rejected = [] → ((diffCatalog old new).patch old new).Perm new.exports) := by
  have h := Accepted.of_valid hold hnew
  have hd := h.describes
  refine ⟨h.isEmpty_iff_perm, hd, fun a ha b hb same => h.mentions_iff ha hb same, ?_, ?_⟩
  · intro fsid rejected
    obtain ⟨a, ha, b, hb, rfl, same, differs⟩ := (hd.rejected fsid).1 rejected
    rw [hd.added, hd.removed, hd.disabled, hd.enabled, hd.nodesChanged, hd.dynamicChanged]
    simp only [h.both_iff ha hb same.symm, differs, false_and, not_false_eq_true, and_self, and_true]
    exact ⟨fun added => added.2 a ha rfl, fun removed => removed.2 b hb same⟩
  · intro none_
    exact (List.perm_ext_iff_of_nodup h.patch_nodup h.nodup_new).2 fun e => h.mem_patch none_ e

/-- Of five exports one stays, one becomes read-only, one is disabled, one changes its nodes and one is removed. -/
theorem diffCatalog_exact_several :
    let old : Catalog := { exports := [{ cfg := { path := lit "/a", fsid := 1 } }, { cfg := { path := lit "/b", fsid := 2 } },
      { cfg := { path := lit "/c", fsid := 3 } }, { cfg := { path := lit "/d", fsid := 4 } },
      { cfg := { path := lit "/e", fsid := 5 } }] }
    let new : Catalog := { exports := [{ cfg := { path := lit "/f", fsid := 6 } }, { cfg := { path := lit "/a", fsid := 1 } },
      { cfg := { path := lit "/b", fsid := 2, readonly := true } }, { cfg := { path := lit "/c", fsid := 3 }, disabled := true },
      { cfg := { path := lit "/d", fsid := 4, nodes := [lit "n"] } }] }
    diffCatalog old new = ⟨[6], [5], [3], [], [4], [2], []⟩ ∧
      ((diffCatalog old new).patch old new).Perm new.exports := by
  intro old new
  refine ⟨by decide +kernel, ?_⟩
  have hold : validateCatalog plainPlatform false old = .ok () := by decide +kernel
  have hnew : validateCatalog plainPlatform false new = .ok () := by decide +kernel
  exact (diffCatalog_exact hold hnew).2.2.2.2 (by decide +kernel)

end LightNfs
