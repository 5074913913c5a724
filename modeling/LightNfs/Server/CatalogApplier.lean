import LightNfs.Cluster.Catalog
import LightNfs.Core.ExportTable

/-!
# Applying the catalog

`CatalogApplier` follows the shared catalog on one gateway: it admits a newer document, plans what to add, update and
remove against the document it has applied and the table it serves, starts the backends of the additions and
publishes. Whatever fails on the way leaves the gateway as it was.
-/

namespace LightNfs

open Text

/-! ### Hosts -/

/-- A gateway's side: its part of the configuration and what `validate_config` finds on the machine. -/
structure Host where
  platform : Platform
  activeActive : Bool
  defaults : SortedMap Text Options
  validateConfig : List ExportConfig → Except Errno Unit
  digest : List ExportConfig → Text
  errnoName : Errno → Text

namespace Host

/-- The export that `validate_config` does not take on its own, or the error alone. -/
def blame (host : Host) (error : Errno) (exports : List ExportConfig) : Text :=
  match exports.find? fun exp => !(host.validateConfig [exp]).isOk with
  | none => host.errnoName error
  | some exp => exp.label ++ lit " (" ++ exp.path ++ lit "): " ++
      match host.validateConfig [exp] with
      | .error error => host.errnoName error
      | .ok _ => []

def versionLabel (version : UInt64) : Text := lit "catalog v" ++ decimal version.toNat

/-- The document as this host serves it, validated as its own configuration would be. -/
def vet (host : Host) (doc : CatalogDoc) : Except Refusal (Catalog × List ExportConfig) :=
  match parseCatalog doc.text with
  | .error error => .error ⟨error, versionLabel doc.version ++ lit " does not parse: " ++ host.errnoName error⟩
  | .ok next =>
    if next.info.version ≠ doc.version then
      .error ⟨.inval, versionLabel doc.version ++ lit ": its [catalog] version says " ++
        decimal next.info.version.toNat⟩
    else
      match validateCatalog host.platform host.activeActive next with
      | .error refusal => .error ⟨refusal.error, versionLabel doc.version ++ lit ": " ++ refusal.why⟩
      | .ok _ =>
        match mergeWithLocal next host.defaults with
        | .error error => .error ⟨error, versionLabel doc.version ++
            lit ": cannot merge this host's [backend_defaults]: " ++ host.errnoName error⟩
        | .ok merged =>
          match host.validateConfig merged with
          | .error error => .error ⟨error, versionLabel doc.version ++ lit ": this host cannot serve it: " ++
              host.blame error merged⟩
          | .ok _ => .ok (next, merged)

end Host

/-! ### Plans -/

def configOf (exports : List ExportConfig) (fsid : UInt32) : Option ExportConfig := exports.find? (·.fsid == fsid)

inductive Want where
  | remove (fsid : UInt32)
  | add (fsid : UInt32)
deriving DecidableEq

/-- What changed, then what the table has too much, then what it lacks. -/
def wants (diff : CatalogDiff) (table : ExportTable) (merged : List ExportConfig) : List Want :=
  diff.removed.map Want.remove ++ diff.disabled.map Want.remove ++ diff.added.map Want.add ++
    diff.enabled.map Want.add ++ diff.nodesChanged.map Want.add ++ diff.dynamicChanged.map Want.add ++
    (table.entries.filter fun entry => (configOf merged entry.fsid).isNone).map (fun entry => Want.remove entry.fsid) ++
    (merged.filter fun exp => (table.byFsid exp.fsid).isNone).map fun exp => Want.add exp.fsid

structure Planning where
  plan : ExportSetPlan := {}
  planned : List UInt32 := []

def Planning.want (table : ExportTable) (merged : List ExportConfig) (p : Planning) : Want → Planning
  | .remove fsid =>
    if p.planned.contains fsid then p
    else
      { planned := fsid :: p.planned
        plan := if (table.byFsid fsid).isSome then { p.plan with remove := p.plan.remove ++ [fsid] } else p.plan }
  | .add fsid =>
    match configOf merged fsid with
    | none => p
    | some exp =>
      if p.planned.contains fsid then p
      else
        { planned := fsid :: p.planned
          plan := if (table.byFsid fsid).isSome then { p.plan with update := p.plan.update ++ [exp] }
            else { p.plan with add := p.plan.add ++ [exp] } }

def buildPlan (table : ExportTable) (merged : List ExportConfig) (ws : List Want) : Planning :=
  ws.foldl (Planning.want table merged) {}

/-! ### Attempts -/

/-- What the store and the backends do in one attempt. -/
structure ApplyAttempt where
  read : Except Errno (Option CatalogDoc)
  makes : ExportConfig → Bool := fun _ => true
  start : Nat → Option Errno := fun _ => none

/-- What happens to a backend object: it starts, or it is stopped. -/
inductive BackendAction where
  | started (backend : Nat)
  | stopped (backend : Nat)
deriving DecidableEq

def runningAfter (calls : List BackendAction) : List Nat :=
  calls.foldl (fun running call =>
    match call with
    | .started backend => running ++ [backend]
    | .stopped backend => running.erase backend) []

/-- Makes and starts the backends of the additions in turn, up to the first that fails. -/
def startBackends (host : Host) (attempt : ApplyAttempt) (version : UInt64) :
    Nat → List ExportConfig → List Nat × Option Refusal
  | _, [] => ([], none)
  | next, exp :: exports =>
    let label := Host.versionLabel version ++ lit ": " ++ exp.label
    if !host.platform.backends.contains exp.backend then
      ([], some ⟨.nodev, label ++ lit ": backend \"" ++ exp.backend ++ lit "\" is not in this build"⟩)
    else if !attempt.makes exp then
      ([], some ⟨.inval, label ++ lit " (" ++ exp.path ++ lit "): the " ++ exp.backend ++
        lit " backend rejected its configuration (details above)"⟩)
    else
      match attempt.start next with
      | some error => ([], some ⟨error, label ++ lit " (" ++ exp.path ++ lit "): backend failed to start: " ++
          host.errnoName error⟩)
      | none =>
        let (started, failure) := startBackends host attempt version (next + 1) exports
        (next :: started, failure)

/-- A gateway's follower of the catalog with its table. -/
structure Applier where
  applied : UInt64 := 0
  latest : UInt64 := 0
  pending : UInt64 := 0
  applies : UInt64 := 0
  failures : UInt64 := 0
  lastError : Text := []
  failedVersion : UInt64 := 0
  pollsUntilRetry : Nat := 0
  digest : Text := []
  current : Catalog := {}
  table : ExportTable := {}
  nextBackend : Nat := 0

structure ApplyOutcome where
  result : Except Refusal UInt64
  applier : Applier
  calls : List BackendAction := []

namespace Applier

def fsidsText (fsids : List UInt32) : Text := (lit ",").intercalate (fsids.map fun fsid => decimal fsid.toNat)

/-- What to do to the table for the next document. -/
def planFor (applier : Applier) (next : Catalog) (merged : List ExportConfig) : ExportSetPlan :=
  (buildPlan applier.table merged (wants (diffCatalog applier.current next) applier.table merged)).plan

/-- The pipeline below the first reading: a newer document is there. -/
def install (host : Host) (applier : Applier) (attempt : ApplyAttempt) (doc : CatalogDoc) : ApplyOutcome :=
  let seen := { applier with latest := doc.version, pending := doc.version }
  match host.vet doc with
  | .error refusal => ⟨.error refusal, seen, []⟩
  | .ok (next, merged) =>
    let rejected := (diffCatalog applier.current next).rejected
    if rejected ≠ [] then
      ⟨.error ⟨.inval, Host.versionLabel doc.version ++ lit ": fsid " ++ fsidsText rejected ++
        lit " changed path / backend / cluster keys: remove and re-add, or use a new fsid"⟩, seen, []⟩
    else
      let plan := applier.planFor next merged
      let (started, failure) := startBackends host attempt doc.version applier.nextBackend plan.add
      let tried := { seen with nextBackend := applier.nextBackend + plan.add.length }
      match failure with
      | some refusal => ⟨.error refusal, tried, started.map BackendAction.started ++ started.map BackendAction.stopped⟩
      | none =>
        match applier.table.apply host.platform plan started with
        | .error error =>
          ⟨.error ⟨error, Host.versionLabel doc.version ++ lit ": the export table refused the change: " ++
            host.errnoName error⟩, tried, started.map BackendAction.started ++ started.map BackendAction.stopped⟩
        | .ok table =>
          ⟨.ok doc.version,
            { tried with
              table
              applied := doc.version
              applies := tried.applies + 1
              pending := if tried.pending ≤ doc.version then 0 else tried.pending
              current := next
              digest := host.digest merged
              lastError := []
              failedVersion := 0
              pollsUntilRetry := 0 },
            started.map .started⟩

def pipeline (host : Host) (applier : Applier) (attempt : ApplyAttempt) : ApplyOutcome :=
  match attempt.read with
  | .error error => ⟨.error ⟨error, lit "cannot read the catalog: " ++ host.errnoName error⟩, applier, []⟩
  | .ok none => ⟨.ok applier.applied, { applier with latest := 0, pending := 0 }, []⟩
  | .ok (some doc) =>
    if doc.version ≤ applier.applied then
      ⟨.ok applier.applied, { applier with latest := doc.version, pending := 0 }, []⟩
    else applier.install host attempt doc

def kRetryEveryPolls : Nat := 30

def applyLatest (host : Host) (applier : Applier) (attempt : ApplyAttempt) : ApplyOutcome :=
  let outcome := applier.pipeline host attempt
  match outcome.result with
  | .ok _ => outcome
  | .error refusal =>
    { outcome with
      applier := { outcome.applier with
        failures := outcome.applier.failures + 1
        lastError := refusal.why
        failedVersion := outcome.applier.pending
        pollsUntilRetry := kRetryEveryPolls } }

end Applier

/-! ### What a plan holds -/

variable {merged exports : List ExportConfig} {table : ExportTable} {host : Host} {exp : ExportConfig}
  {doc : CatalogDoc} {before : Applier}
variable {fsid : UInt32}

theorem mem_of_configOf
    (h : configOf exports fsid = some exp) : exp ∈ exports ∧ exp.fsid = fsid :=
  ⟨List.mem_of_find?_eq_some h, by simpa using List.find?_some h⟩

theorem configOf_of_mem (hdistinct : exports.Pairwise (·.fsid ≠ ·.fsid)) (hexp : exp ∈ exports) :
    configOf exports exp.fsid = some exp := by
  induction exports with
  | nil => exact absurd hexp List.not_mem_nil
  | cons first exports ih =>
    obtain ⟨hfirst, hrest⟩ := List.pairwise_cons.1 hdistinct
    rcases List.mem_cons.1 hexp with rfl | hexp
    · simp [configOf]
    · have hne := hfirst exp hexp
      rw [configOf, List.find?_cons_of_neg (by simpa using hne)]
      exact ih hrest hexp

/-- What the plan has after the given wants, when nothing that is to be removed is among the host's exports. -/
structure Planned (table : ExportTable) (merged : List ExportConfig) (ws : List Want) (planned : List UInt32)
    (plan : ExportSetPlan) : Prop where
  planned : ∀ fsid, fsid ∈ planned ↔ .remove fsid ∈ ws ∨ .add fsid ∈ ws ∧ (configOf merged fsid).isSome = true
  remove : ∀ fsid, fsid ∈ plan.remove ↔ .remove fsid ∈ ws ∧ (table.byFsid fsid).isSome = true
  remove_once : plan.remove.Nodup
  update : ∀ exp, exp ∈ plan.update ↔
    configOf merged exp.fsid = some exp ∧ .add exp.fsid ∈ ws ∧ (table.byFsid exp.fsid).isSome = true
  update_once : (plan.update.map (·.fsid)).Nodup
  add : ∀ exp, exp ∈ plan.add ↔
    configOf merged exp.fsid = some exp ∧ .add exp.fsid ∈ ws ∧ (table.byFsid exp.fsid).isNone = true
  add_once : (plan.add.map (·.fsid)).Nodup

theorem planned_nil (table : ExportTable) (merged : List ExportConfig) : Planned table merged [] [] {} := by
  constructor <;> simp

theorem nodup_concat_fsid
    (honce : (exports.map (·.fsid)).Nodup) (hnew : ∀ e ∈ exports, e.fsid ≠ exp.fsid) :
    ((exports ++ [exp]).map (·.fsid)).Nodup := by
  rw [List.map_append, List.nodup_append]
  refine ⟨honce, List.nodup_singleton _, fun a ha b hb => ?_⟩
  obtain ⟨e, he, rfl⟩ := List.mem_map.1 ha
  obtain rfl := List.mem_singleton.1 hb
  exact hnew e he

theorem planned_want {ws : List Want} {p : Planning}
    (h : Planned table merged ws p.planned p.plan) (w : Want)
    (hsafe : ∀ fsid, .remove fsid ∈ ws ++ [w] → configOf merged fsid = none) :
    Planned table merged (ws ++ [w]) (p.want table merged w).planned (p.want table merged w).plan := by
  obtain ⟨hplanned, hremove, hremove1, hupdate, hupdate1, hadd, hadd1⟩ := h
  cases w with
  | remove fsid =>
    have hnone := hsafe fsid (by simp)
    have hwants (f : UInt32) : Want.remove f ∈ ws ++ [Want.remove fsid] ↔ Want.remove f ∈ ws ∨ f = fsid := by simp
    have hadds (f : UInt32) : Want.add f ∈ ws ++ [Want.remove fsid] ↔ Want.add f ∈ ws := by simp
    simp only [hwants] at hsafe
    rw [Planning.want]
    by_cases hseen : fsid ∈ p.planned
    · rw [if_pos (by simpa using hseen)]
      refine ⟨?_, ?_, hremove1, ?_, hupdate1, ?_, hadd1⟩ <;> simp only [hwants, hadds] <;> grind
    · rw [if_neg (by simpa using hseen)]
      by_cases htable : (table.byFsid fsid).isSome = true
      · rw [if_pos htable]
        refine ⟨?_, ?_, ?_, ?_, hupdate1, ?_, hadd1⟩ <;> simp only [hwants, hadds] <;> grind
      · rw [if_neg htable]
        refine ⟨?_, ?_, hremove1, ?_, hupdate1, ?_, hadd1⟩ <;> simp only [hwants, hadds] <;> grind
  | add fsid =>
    have hwants (f : UInt32) : Want.remove f ∈ ws ++ [Want.add fsid] ↔ Want.remove f ∈ ws := by simp
    have hadds (f : UInt32) : Want.add f ∈ ws ++ [Want.add fsid] ↔ Want.add f ∈ ws ∨ f = fsid := by simp
    simp only [hwants] at hsafe
    rw [Planning.want]
    cases hcfg : configOf merged fsid with
    | none => refine ⟨?_, ?_, hremove1, ?_, hupdate1, ?_, hadd1⟩ <;> simp only [hwants, hadds] <;> grind
    | some cfg =>
      have hfsid := (mem_of_configOf hcfg).2
      by_cases hseen : fsid ∈ p.planned
      · simp only [if_pos (show p.planned.contains fsid = true by simpa using hseen)]
        refine ⟨?_, ?_, hremove1, ?_, hupdate1, ?_, hadd1⟩ <;> simp only [hwants, hadds] <;> grind
      · have hnew : Want.add fsid ∉ ws := fun hbefore => hseen ((hplanned fsid).2 (.inr ⟨hbefore, by simp [hcfg]⟩))
        simp only [if_neg (show ¬p.planned.contains fsid = true by simpa using hseen)]
        by_cases htable : (table.byFsid fsid).isSome = true
        · have hothers : ∀ e ∈ p.plan.update, e.fsid ≠ cfg.fsid := by grind
          have hnotAdded : (table.byFsid fsid).isNone = false := by simpa using htable
          simp only [if_pos htable]
          refine ⟨?_, ?_, hremove1, ?_, nodup_concat_fsid hupdate1 hothers, ?_, hadd1⟩ <;>
            simp only [hwants, hadds] <;> grind
        · have hothers : ∀ e ∈ p.plan.add, e.fsid ≠ cfg.fsid := by grind
          have hadded : (table.byFsid fsid).isNone = true := by simpa using htable
          simp only [if_neg htable]
          refine ⟨?_, ?_, hremove1, ?_, hupdate1, ?_, nodup_concat_fsid hadd1 hothers⟩ <;>
            simp only [hwants, hadds] <;> grind

theorem planned_buildPlan {ws : List Want}
    (hsafe : ∀ fsid, .remove fsid ∈ ws → configOf merged fsid = none) :
    Planned table merged ws (buildPlan table merged ws).planned (buildPlan table merged ws).plan := by
  induction ws using List.reverseRecOn with
  | nil => exact planned_nil table merged
  | append_singleton ws w ih =>
    have hbefore := ih fun fsid hfsid => hsafe fsid (List.mem_append_left _ hfsid)
    rw [buildPlan, List.foldl_concat]
    exact planned_want hbefore w hsafe

/-! ### What the plan makes of the table -/

theorem configOf_isSome :
    (configOf exports fsid).isSome = true ↔ ∃ exp ∈ exports, exp.fsid = fsid := by
  simp [configOf]

theorem configOf_eq_none :
    configOf exports fsid = none ↔ ∀ exp ∈ exports, exp.fsid ≠ fsid := by
  simp [configOf]

theorem remove_mem_wants {diff : CatalogDiff} :
    .remove fsid ∈ wants diff table merged ↔ fsid ∈ diff.removed ∨ fsid ∈ diff.disabled ∨
      ∃ entry ∈ table.entries, configOf merged entry.fsid = none ∧ entry.fsid = fsid := by
  simp [wants, and_assoc]

theorem add_mem_wants {diff : CatalogDiff} :
    .add fsid ∈ wants diff table merged ↔ fsid ∈ diff.added ∨ fsid ∈ diff.enabled ∨ fsid ∈ diff.nodesChanged ∨
      fsid ∈ diff.dynamicChanged ∨ ∃ exp ∈ merged, table.byFsid exp.fsid = none ∧ exp.fsid = fsid := by
  simp [wants, and_assoc]

theorem removed_not_merged {defaults : SortedMap Text Options} {current next : Catalog} (hnext : next.Distinct)
    (hmerged : MergedFrom defaults next merged)
    (hcurrent : current.Distinct)
    (h : .remove fsid ∈ wants (diffCatalog current next) table merged) : configOf merged fsid = none := by
  have habsent (hnone : ∀ exp ∈ next.exports, exp.disabled = false → exp.cfg.fsid ≠ fsid) :
      configOf merged fsid = none := by
    refine configOf_eq_none.2 fun cfg hcfg heq => ?_
    obtain ⟨exp, hexp, henabled, hfsid⟩ := hmerged.fsid_iff.1 ⟨cfg, hcfg, heq⟩
    exact hnone exp hexp henabled hfsid
  rcases remove_mem_wants.1 h with hremoved | hdisabled | ⟨entry, -, hnone, rfl⟩
  · have hlast : next.last fsid = none := by simpa using (List.mem_filter.1 hremoved).2
    exact habsent fun exp hexp _ => last_eq_none_iff.1 hlast exp hexp
  · obtain ⟨a, -, b, hb, -, hbfsid, htest⟩ := (mem_keptFsids hcurrent hnext).1 hdisabled
    simp only [Bool.and_eq_true] at htest
    refine habsent fun exp hexp henabled hfsid => ?_
    obtain rfl := eq_of_distinct (fun exp : CatalogExport => exp.cfg.fsid) hnext hexp hb (hfsid.trans hbfsid.symm)
    exact absurd henabled (by simp [htest.2.2])
  · exact hnone

/-- An export that both documents list with the same settings. -/
def SameSettings (a b : ExportConfig) : Prop :=
  a.path = b.path ∧ a.clients = b.clients ∧ a.squash = b.squash ∧ a.anonUid = b.anonUid ∧ a.anonGid = b.anonGid ∧
    a.readonly = b.readonly ∧ a.securePorts = b.securePorts ∧ a.strictReaddirCookies = b.strictReaddirCookies ∧
    a.readBps = b.readBps ∧ a.writeBps = b.writeBps ∧ a.iops = b.iops ∧ a.nodes = b.nodes

theorem sameSettings {a b : ExportConfig} (hidentity : sameIdentity a b = true) (hnodes : (a.nodes != b.nodes) = false)
    (hdynamic : dynamicDiffers a b = false) : SameSettings a b := by
  simp only [sameIdentity, Bool.and_eq_true, beq_iff_eq] at hidentity
  simp only [dynamicDiffers, Bool.or_eq_false_iff, bne_eq_false_iff_eq] at hdynamic hnodes
  unfold SameSettings
  tauto

theorem Matches.of_same {platform : Platform} {entry : ServedExport} {a b : ExportConfig}
    (h : Matches platform entry a) (hfsid : a.fsid = b.fsid) (hsame : SameSettings a b) : Matches platform entry b := by
  obtain ⟨hpath, hclients, hsquash, huid, hgid, hreadonly, hports, hcookies, hread, hwrite, hiops, hnodes⟩ := hsame
  refine ⟨?_, ?_⟩
  · rw [parseClients, ← hclients]
    exact h.1
  · rw [h.2]
    simp only [ServedExport.make, hfsid, hpath, hsquash, huid, hgid, hreadonly, hports, hcookies, hread, hwrite, hiops,
      hnodes]

/-- The table serves the document that was applied last, as this host makes it. -/
structure ServesApplied (host : Host) (applier : Applier) : Prop where
  distinct : applier.current.Distinct
  serves : ∃ merged, mergeWithLocal applier.current host.defaults = .ok merged ∧
    Serves host.platform applier.table merged

theorem servesApplied_fresh (host : Host) (digest : Text) : ServesApplied host { digest } := by
  have hmerge : mergeWithLocal {} host.defaults = .ok [] := by
    rw [mergeWithLocal, mergeEach]
    rfl
  exact ⟨.nil, [], hmerge, fun _ h => absurd h List.not_mem_nil, fun _ h => absurd h List.not_mem_nil⟩

section Plan

variable {host : Host} {applier : Applier} {next : Catalog} {merged : List ExportConfig}
variable {table : ExportTable} {started : List Nat}

theorem planned_planFor (hcurrent : applier.current.Distinct) (hnext : next.Distinct)
    (hmerged : MergedFrom host.defaults next merged) :
    ∃ planned, Planned applier.table merged (wants (diffCatalog applier.current next) applier.table merged) planned
      (applier.planFor next merged) :=
  ⟨_, planned_buildPlan fun _ hremove => removed_not_merged hnext hmerged hcurrent hremove⟩

theorem stays_iff (hcurrent : applier.current.Distinct) (hnext : next.Distinct)
    (hmerged : MergedFrom host.defaults next merged) {entry : ServedExport} (hentry : entry ∈ applier.table.entries) :
    entry.fsid ∉ (applier.planFor next merged).remove ↔ ∃ cfg ∈ merged, cfg.fsid = entry.fsid := by
  obtain ⟨_, hplanned⟩ := planned_planFor hcurrent hnext hmerged
  have hserved : (applier.table.byFsid entry.fsid).isSome = true := ExportTable.byFsid_isSome.2 ⟨entry, hentry, rfl⟩
  rw [← configOf_isSome, hplanned.remove, and_iff_left hserved]
  constructor
  · intro hstays
    by_contra hnone
    exact hstays (remove_mem_wants.2 (.inr (.inr ⟨entry, hentry, by simpa using hnone, rfl⟩)))
  · intro hsome hremove
    exact absurd hsome (by simp [removed_not_merged hnext hmerged hcurrent hremove])

theorem sameIdentity_of_kept (hcurrent : applier.current.Distinct) (hnext : next.Distinct)
    (hkept : (diffCatalog applier.current next).rejected = []) {a b : CatalogExport}
    (ha : a ∈ applier.current.exports) (hb : b ∈ next.exports) (hfsid : a.cfg.fsid = b.cfg.fsid) :
    sameIdentity a.cfg b.cfg = true := by
  by_contra hdiffers
  have hmem : b.cfg.fsid ∈ (diffCatalog applier.current next).rejected :=
    (mem_keptFsids hcurrent hnext).2 ⟨a, ha, b, hb, hfsid, rfl, by simpa using hdiffers⟩
  rw [hkept] at hmem
  exact List.not_mem_nil hmem

theorem sameSettings_of_not_wanted (hcurrent : applier.current.Distinct) (hnext : next.Distinct)
    (hkept : (diffCatalog applier.current next).rejected = []) {a b : CatalogExport}
    (ha : a ∈ applier.current.exports) (hb : b ∈ next.exports) (hfsid : a.cfg.fsid = b.cfg.fsid)
    (hquiet : .add b.cfg.fsid ∉ wants (diffCatalog applier.current next) table merged) :
    SameSettings a.cfg b.cfg := by
  have hidentity := sameIdentity_of_kept hcurrent hnext hkept ha hb hfsid
  simp only [add_mem_wants, not_or] at hquiet
  obtain ⟨-, -, hnodes, hdynamic, -⟩ := hquiet
  have hsame {test : CatalogExport → CatalogExport → Bool}
      (h : b.cfg.fsid ∉ keptFsids applier.current next fun a b => sameIdentity a.cfg b.cfg && test a b) :
      test a b = false := by
    by_contra htest
    exact h ((mem_keptFsids hcurrent hnext).2 ⟨a, ha, b, hb, hfsid, rfl, by simpa [hidentity] using htest⟩)
  exact sameSettings hidentity (hsame hnodes) (hsame hdynamic)

theorem matches_refreshed (happlied : ServesApplied host applier) (hnext : next.Distinct)
    (hmerged : MergedFrom host.defaults next merged) (hkept : (diffCatalog applier.current next).rejected = [])
    (haccepts : ExportTable.Accepts host.platform applier.table (applier.planFor next merged) started)
    {entry : ServedExport} (hentry : entry ∈ applier.table.entries) {cfg : ExportConfig} (hcfg : cfg ∈ merged)
    (hfsid : cfg.fsid = entry.fsid) :
    Matches host.platform (ExportTable.refreshed host.platform (applier.planFor next merged) entry) cfg := by
  obtain ⟨_, hplanned⟩ := planned_planFor happlied.distinct hnext hmerged
  have hconfig : configOf merged entry.fsid = some cfg := hfsid ▸ configOf_of_mem hmerged.distinct hcfg
  have hserved : (applier.table.byFsid entry.fsid).isSome = true := ExportTable.byFsid_isSome.2 ⟨entry, hentry, rfl⟩
  unfold ExportTable.refreshed
  cases hupdate : (applier.planFor next merged).update.find? (·.fsid == entry.fsid) with
  | some new =>
    have hmem := List.mem_of_find?_eq_some hupdate
    have hnew : new.fsid = entry.fsid := by simpa using List.find?_some hupdate
    obtain rfl : new = cfg := by
      have hnewConfig := ((hplanned.update new).1 hmem).1
      rw [hnew, hconfig] at hnewConfig
      exact (Option.some.inj hnewConfig).symm
    have haccept := haccepts.update new hmem
    unfold ExportTable.acceptsUpdate at haccept
    split at haccept
    · cases haccept
    rename_i old hold
    obtain ⟨holdmem, holdfsid⟩ := ExportTable.byFsid_eq_some hold
    obtain rfl : old = entry :=
      eq_of_distinct ServedExport.fsid (applier.table.sorted.imp UInt32.ne_of_lt) holdmem hentry (holdfsid.trans hnew)
    simp only [Bool.and_eq_true, beq_iff_eq] at haccept
    exact matches_update haccept.2 hfsid.symm haccept.1.2
  | none =>
    -- The plan leaves the entry alone, so the documents agree about it.
    obtain ⟨oldMerged, hmerge, hserves⟩ := happlied.serves
    have holdMerged := mergedFrom hmerge happlied.distinct
    obtain ⟨oldCfg, holdCfg, hmatches⟩ := hserves.only entry hentry
    obtain ⟨a, ha, -, hoptions⟩ := (holdMerged.mem oldCfg).1 holdCfg
    obtain ⟨b, hb, -, hoptions'⟩ := (hmerged.mem cfg).1 hcfg
    obtain ⟨options, rfl⟩ := mergeDefaults_ok hoptions
    obtain ⟨options', rfl⟩ := mergeDefaults_ok hoptions'
    have hab : a.cfg.fsid = b.cfg.fsid := hmatches.fsid.symm.trans hfsid.symm
    have hquiet : .add b.cfg.fsid ∉ wants (diffCatalog applier.current next) applier.table merged := by
      intro hadd
      have hmem : { b.cfg with options := options' } ∈ (applier.planFor next merged).update :=
        (hplanned.update _).2 ⟨configOf_of_mem hmerged.distinct hcfg, hadd, hfsid ▸ hserved⟩
      have hnone := List.find?_eq_none.1 hupdate _ hmem
      exact hnone (by simpa using hfsid)
    exact hmatches.of_same hab (sameSettings_of_not_wanted happlied.distinct hnext hkept ha hb hab hquiet)

theorem serves_apply (happlied : ServesApplied host applier) (hnext : next.Distinct)
    (hmerged : MergedFrom host.defaults next merged) (hkept : (diffCatalog applier.current next).rejected = [])
    (happly : applier.table.apply host.platform (applier.planFor next merged) started = .ok table) :
    Serves host.platform table merged := by
  obtain ⟨_, hplanned⟩ := planned_planFor happlied.distinct hnext hmerged
  obtain ⟨haccepts, hentries⟩ := ExportTable.apply_ok happly
  have hadded {cfg : ExportConfig} (hcfg : cfg ∈ (applier.planFor next merged).add) :
      cfg ∈ merged ∧ (parseClients host.platform cfg).isOk = true := by
    have haccept := haccepts.add cfg hcfg
    simp only [ExportTable.acceptsAdd, Bool.and_eq_true] at haccept
    exact ⟨(mem_of_configOf ((hplanned.add cfg).1 hcfg).1).1, haccept.2⟩
  constructor
  · intro cfg hcfg
    cases hserved : applier.table.byFsid cfg.fsid with
    | none =>
      have hadd : cfg ∈ (applier.planFor next merged).add := (hplanned.add cfg).2
        ⟨configOf_of_mem hmerged.distinct hcfg,
          add_mem_wants.2 (.inr (.inr (.inr (.inr ⟨cfg, hcfg, hserved, rfl⟩)))), by simp [hserved]⟩
      rw [← List.map_fst_zip haccepts.started.ge] at hadd
      obtain ⟨⟨_, backend⟩, hzip, rfl⟩ := List.mem_map.1 hadd
      exact ⟨_, (hentries _).2 (.inr (ExportTable.mem_added.2 ⟨_, backend, hzip, rfl⟩)),
        matches_make (hadded (List.of_mem_zip hzip).1).2 backend⟩
    | some entry =>
      obtain ⟨hentry, hfsid⟩ := ExportTable.byFsid_eq_some hserved
      have hstays := (stays_iff happlied.distinct hnext hmerged hentry).2 ⟨cfg, hcfg, hfsid.symm⟩
      exact ⟨_, (hentries _).2 (.inl (ExportTable.mem_kept.2 ⟨entry, hentry, hstays, rfl⟩)),
        matches_refreshed happlied hnext hmerged hkept haccepts hentry hcfg hfsid.symm⟩
  · intro entry hentry
    rcases (hentries entry).1 hentry with hkeeps | hnew
    · obtain ⟨old, hold, hstays, rfl⟩ := ExportTable.mem_kept.1 hkeeps
      obtain ⟨cfg, hcfg, hfsid⟩ := (stays_iff happlied.distinct hnext hmerged hold).1 hstays
      exact ⟨cfg, hcfg, matches_refreshed happlied hnext hmerged hkept haccepts hold hcfg hfsid⟩
    · obtain ⟨cfg, backend, hzip, rfl⟩ := ExportTable.mem_added.1 hnew
      obtain ⟨hcfg, hclients⟩ := hadded (List.of_mem_zip hzip).1
      exact ⟨cfg, hcfg, matches_make hclients backend⟩

theorem backend_kept (hcurrent : applier.current.Distinct) (hnext : next.Distinct)
    (hmerged : MergedFrom host.defaults next merged)
    (happly : applier.table.apply host.platform (applier.planFor next merged) started = .ok table)
    {old new : ServedExport} (hold : old ∈ applier.table.entries) (hnew : new ∈ table.entries)
    (hfsid : new.fsid = old.fsid) : new.backend = old.backend := by
  obtain ⟨_, hplanned⟩ := planned_planFor hcurrent hnext hmerged
  rcases ((ExportTable.apply_ok happly).2 new).1 hnew with hkept | hadded
  · obtain ⟨entry, hentry, -, rfl⟩ := ExportTable.mem_kept.1 hkept
    rw [ExportTable.fsid_refreshed] at hfsid
    obtain rfl :=
      eq_of_distinct ServedExport.fsid (applier.table.sorted.imp UInt32.ne_of_lt) hentry hold hfsid
    unfold ExportTable.refreshed
    split <;> rfl
  · obtain ⟨cfg, backend, hzip, rfl⟩ := ExportTable.mem_added.1 hadded
    have hnone := ((hplanned.add cfg).1 (List.of_mem_zip hzip).1).2.2
    have hsome : (applier.table.byFsid cfg.fsid).isSome = true := ExportTable.byFsid_isSome.2 ⟨old, hold, hfsid.symm⟩
    simp [Option.isNone_iff_eq_none.1 hnone] at hsome

end Plan

/-! ### Outcomes -/

theorem vet_ok {next : Catalog}
    (h : host.vet doc = .ok (next, merged)) :
    parseCatalog doc.text = .ok next ∧ next.info.version = doc.version ∧
      validateCatalog host.platform host.activeActive next = .ok () ∧
      mergeWithLocal next host.defaults = .ok merged ∧ host.validateConfig merged = .ok () := by
  unfold Host.vet at h
  split at h
  · cases h
  rename_i parsed hparse
  split at h
  · cases h
  rename_i hversion
  split at h
  · cases h
  rename_i hvalid
  split at h
  · cases h
  rename_i exports hmerge
  split at h
  · cases h
  rename_i hconfig
  cases h
  exact ⟨hparse, not_not.1 hversion, hvalid, hmerge, hconfig⟩

theorem runningAfter_stopped (started : List Nat) :
    runningAfter (started.map BackendAction.started ++ started.map BackendAction.stopped) = [] := by
  have hstart : ∀ (running started : List Nat), (started.map BackendAction.started).foldl (fun running call =>
      match call with
      | .started backend => running ++ [backend]
      | .stopped backend => running.erase backend) running = running ++ started := by
    intro running started
    induction started generalizing running with
    | nil => simp
    | cons backend started ih => simp [ih]
  have hstop : (started.map BackendAction.stopped).foldl (fun running call =>
      match call with
      | .started backend => running ++ [backend]
      | .stopped backend => running.erase backend) started = [] := by
    induction started with
    | nil => rfl
    | cons backend started ih => simpa using ih
  rw [runningAfter, List.foldl_append, hstart, List.nil_append, hstop]

/-- Nothing of the gateway changed, and no backend is left up. -/
structure Untouched (before : Applier) (outcome : ApplyOutcome) : Prop where
  table : outcome.applier.table = before.table
  applied : outcome.applier.applied = before.applied
  current : outcome.applier.current = before.current
  stopped : runningAfter outcome.calls = []

/-- A document was applied: it was admitted, differs from the applied one in no identity, and the table took the
plan. -/
structure Installed (host : Host) (before : Applier) (doc : CatalogDoc) (merged : List ExportConfig)
    (started : List Nat) (outcome : ApplyOutcome) : Prop where
  admitted : host.vet doc = .ok (outcome.applier.current, merged)
  kept : (diffCatalog before.current outcome.applier.current).rejected = []
  table : before.table.apply host.platform (before.planFor outcome.applier.current merged) started =
    .ok outcome.applier.table
  applied : outcome.applier.applied = doc.version

theorem install_cases (host : Host) (applier : Applier) (attempt : ApplyAttempt) (doc : CatalogDoc) :
    (∃ refusal, (applier.install host attempt doc).result = .error refusal ∧
        Untouched applier (applier.install host attempt doc)) ∨
      ∃ merged started, (applier.install host attempt doc).result = .ok doc.version ∧
        Installed host applier doc merged started (applier.install host attempt doc) := by
  unfold Applier.install
  split
  case h_1 refusal _ => exact .inl ⟨refusal, rfl, rfl, rfl, rfl, rfl⟩
  case h_2 next merged hvet =>
    dsimp only
    split
    case isTrue => exact .inl ⟨_, rfl, rfl, rfl, rfl, rfl⟩
    case isFalse hkept =>
      split
      case h_1 refusal _ => exact .inl ⟨refusal, rfl, rfl, rfl, rfl, runningAfter_stopped _⟩
      case h_2 =>
        split
        case h_1 error _ => exact .inl ⟨_, rfl, rfl, rfl, rfl, runningAfter_stopped _⟩
        case h_2 table happly => exact .inr ⟨merged, _, rfl, hvet, not_not.1 hkept, happly, rfl⟩

theorem applyLatest_cases (host : Host) (applier : Applier) (attempt : ApplyAttempt) :
    (∃ refusal, (applier.applyLatest host attempt).result = .error refusal ∧
        Untouched applier (applier.applyLatest host attempt)) ∨
      ((applier.applyLatest host attempt).result = .ok applier.applied ∧
        Untouched applier (applier.applyLatest host attempt)) ∨
      ∃ doc merged started, attempt.read = .ok (some doc) ∧
        (applier.applyLatest host attempt).result = .ok doc.version ∧
        Installed host applier doc merged started (applier.applyLatest host attempt) := by
  unfold Applier.applyLatest Applier.pipeline
  cases hread : attempt.read with
  | error error => exact .inl ⟨_, rfl, rfl, rfl, rfl, rfl⟩
  | ok latest =>
    cases latest with
    | none => exact .inr (.inl ⟨rfl, rfl, rfl, rfl, rfl⟩)
    | some doc =>
      by_cases hold : doc.version ≤ applier.applied
      · simp only [if_pos hold]
        exact .inr (.inl ⟨trivial, rfl, rfl, rfl, rfl⟩)
      · simp only [if_neg hold]
        rcases install_cases host applier attempt doc with ⟨refusal, hresult, huntouched⟩ | ⟨merged, started, hresult, h⟩
        · rw [hresult]
          exact .inl ⟨refusal, rfl, huntouched.1, huntouched.2, huntouched.3, huntouched.4⟩
        · rw [hresult]
          exact .inr (.inr ⟨doc, merged, started, rfl, hresult, h⟩)

theorem installed_distinct
    {started : List Nat} {outcome : ApplyOutcome} (h : Installed host before doc merged started outcome) :
    outcome.applier.current.Distinct :=
  (catalogValid (vet_ok h.admitted).2.2.1).2

theorem servesApplied_installed (hbefore : ServesApplied host before) {started : List Nat} {outcome : ApplyOutcome}
    (h : Installed host before doc merged started outcome) : ServesApplied host outcome.applier := by
  have hdistinct := installed_distinct h
  have hmerge := (vet_ok h.admitted).2.2.2.1
  exact ⟨hdistinct, merged, hmerge, serves_apply hbefore hdistinct (mergedFrom hmerge hdistinct) h.kept h.table⟩

theorem servesApplied_congr {after : Applier} (h : ServesApplied host before)
    (htable : after.table = before.table) (hcurrent : after.current = before.current) : ServesApplied host after := by
  obtain ⟨hdistinct, merged, hmerge, hserves⟩ := h
  exact ⟨hcurrent ▸ hdistinct, merged, hcurrent ▸ hmerge, htable ▸ hserves⟩

/-- `apply_latest` is all or nothing and exact. When it fails, the table, the applied version and the applied document
are what they were and no backend of the attempt is left up. When it succeeds on a gateway whose table serves its
applied document, the applied document is the one that was read, or was applied already; the ids that are served are
those of its enabled exports, each with the settings this host merges for it; an export that stays keeps its backend;
and the table serves the applied document again. -/
theorem applyLatest_exact (host : Host) (applier : Applier) (attempt : ApplyAttempt) (outcome : ApplyOutcome)
    (houtcome : outcome = applier.applyLatest host attempt) :
    (∀ refusal, outcome.result = .error refusal → Untouched applier outcome) ∧
      ∀ version, outcome.result = .ok version → ServesApplied host applier →
        outcome.applier.applied = version ∧
          (version = applier.applied ∧ outcome.applier.current = applier.current ∨
            ∃ doc, attempt.read = .ok (some doc) ∧ doc.version = version ∧
              parseCatalog doc.text = .ok outcome.applier.current ∧ outcome.applier.current.info.version = version) ∧
          (∀ fsid, (∃ entry ∈ outcome.applier.table.entries, entry.fsid = fsid) ↔
            ∃ exp ∈ outcome.applier.current.exports, exp.disabled = false ∧ exp.cfg.fsid = fsid) ∧
          (∀ old ∈ applier.table.entries, ∀ new ∈ outcome.applier.table.entries, new.fsid = old.fsid →
            new.backend = old.backend) ∧
          ServesApplied host outcome.applier := by
  subst houtcome
  have hids {after : Applier} (h : ServesApplied host after) (fsid : UInt32) :
      (∃ entry ∈ after.table.entries, entry.fsid = fsid) ↔
        ∃ exp ∈ after.current.exports, exp.disabled = false ∧ exp.cfg.fsid = fsid := by
    obtain ⟨hdistinct, merged, hmerge, hserves⟩ := h
    rw [← (mergedFrom hmerge hdistinct).fsid_iff]
    constructor
    · rintro ⟨entry, hentry, rfl⟩
      obtain ⟨cfg, hcfg, hmatches⟩ := hserves.only entry hentry
      exact ⟨cfg, hcfg, hmatches.fsid.symm⟩
    · rintro ⟨cfg, hcfg, rfl⟩
      obtain ⟨entry, hentry, hmatches⟩ := hserves.all cfg hcfg
      exact ⟨entry, hentry, hmatches.fsid⟩
  rcases applyLatest_cases host applier attempt with ⟨refusal, hresult, h⟩ | ⟨hresult, h⟩ |
    ⟨doc, merged, started, hread, hresult, h⟩
  · refine ⟨fun _ _ => h, fun version hok => ?_⟩
    exact absurd (hresult.symm.trans hok) (by simp)
  · refine ⟨fun refusal herror => ?_, fun version hok hserves => ?_⟩
    · exact absurd (hresult.symm.trans herror) (by simp)
    · obtain rfl : applier.applied = version := Except.ok.inj (hresult.symm.trans hok)
      have hafter := servesApplied_congr hserves h.table h.current
      refine ⟨h.applied, .inl ⟨rfl, h.current⟩, hids hafter, fun old hold new hnew hfsid => ?_, hafter⟩
      rw [h.table] at hnew
      rw [eq_of_distinct ServedExport.fsid (applier.table.sorted.imp UInt32.ne_of_lt) hnew hold hfsid]
  · refine ⟨fun refusal herror => ?_, fun version hok hserves => ?_⟩
    · exact absurd (hresult.symm.trans herror) (by simp)
    · obtain rfl : doc.version = version := Except.ok.inj (hresult.symm.trans hok)
      obtain ⟨hparse, hversion, -, hmerge, -⟩ := vet_ok h.admitted
      have hafter := servesApplied_installed hserves h
      have hmerged := mergedFrom hmerge hafter.distinct
      exact ⟨h.applied, .inr ⟨doc, hread, rfl, hparse, hversion⟩, hids hafter,
        fun old hold new hnew => backend_kept hserves.distinct hafter.distinct hmerged h.table hold hnew, hafter⟩

/-- A host without defaults, whose `validate_config` takes everything. -/
def plainHost : Host where
  platform := plainPlatform
  activeActive := false
  defaults := .empty
  validateConfig _ := .ok ()
  digest _ := []
  errnoName _ := []

def docOf (catalog : Catalog) : CatalogDoc := ⟨catalog.info.version, serializeCatalog catalog⟩

def singleExport (version : UInt64) (cfg : ExportConfig) : Catalog := { info := { version }, exports := [{ cfg }] }

/-- Three exports; the next document keeps the first, makes the second read-only, removes the third and adds another. -/
def firstCatalog : Catalog where
  info := { version := 1 }
  exports := [{ cfg := { path := lit "/a", fsid := 7 } }, { cfg := { path := lit "/b", fsid := 8 } },
    { cfg := { path := lit "/c", fsid := 9 } }]

def nextCatalog : Catalog where
  info := { version := 2 }
  exports := [{ cfg := { path := lit "/a", fsid := 7 } }, { cfg := { path := lit "/b", fsid := 8, readonly := true } },
    { cfg := { path := lit "/d", fsid := 10 } }]

theorem applyLatest_exact_next :
    let first := Applier.applyLatest plainHost {} { read := .ok (some (docOf firstCatalog)) }
    let next := first.applier.applyLatest plainHost { read := .ok (some (docOf nextCatalog)) }
    next.applier.applied = 2 ∧
      next.applier.table.entries.map (fun entry => (entry.fsid, entry.readonly)) = [(7, false), (8, true), (10, false)] ∧
      (∀ old ∈ first.applier.table.entries, ∀ new ∈ next.applier.table.entries, new.fsid = old.fsid →
        new.backend = old.backend) ∧
      ServesApplied plainHost next.applier := by
  intro first next
  have hfirst : first.result = .ok 1 := by decide +kernel
  have hnext : next.result = .ok 2 ∧
      next.applier.table.entries.map (fun entry => (entry.fsid, entry.readonly)) = [(7, false), (8, true), (10, false)] := by
    decide +kernel
  obtain ⟨-, -, -, -, hserves⟩ :=
    (applyLatest_exact plainHost {} _ first rfl).2 1 hfirst (servesApplied_fresh plainHost [])
  obtain ⟨happlied, -, -, hkept, hserves⟩ :=
    (applyLatest_exact plainHost first.applier _ next rfl).2 2 hnext.1 hserves
  exact ⟨happlied, hnext.2, hkept, hserves⟩

/-- A gateway that has applied a read-only export and serves it read-write. -/
def strayApplier : Applier where
  applied := 1
  current := singleExport 1 { path := lit "/a", fsid := 7, readonly := true }
  table := { entries := [.make { path := lit "/a", fsid := 7 } [] 0], sorted := List.pairwise_singleton _ _ }

/-- Only what changed between the documents is updated. -/
theorem applyLatest_keeps_stray :
    let outcome := strayApplier.applyLatest plainHost
      { read := .ok (some (docOf (singleExport 2 { path := lit "/a", fsid := 7, readonly := true }))) }
    outcome.result = .ok 2 ∧ outcome.applier.current.exports.map (·.cfg.readonly) = [true] ∧
      outcome.applier.table.entries.map (·.readonly) = [false] := by
  decide +kernel

end LightNfs
