import LightNfs.Server.CatalogApplier

/-!
# Convergence of the gateways

Gateways follow the catalog at their own pace: one boots with the version that is current, another applies every
version, a third skips some. What they end up with is the same if and only if no version gave an id to another export.
-/

namespace LightNfs

open Text

/-! ### Boots -/

/-- `load_catalog_exports` and `ExportTable::build`: a gateway at the end of its start. -/
def bootCatalog (host : Host) : Option CatalogDoc → Except Refusal Applier
  | none => .ok { digest := host.digest [] }
  | some doc =>
    match host.vet doc with
    | .error refusal => .error refusal
    | .ok (next, merged) =>
      match ExportTable.build host.platform merged with
      | .error error => .error ⟨error, lit "cannot initialize exports: " ++ host.errnoName error⟩
      | .ok table => .ok
          { applied := doc.version, latest := doc.version, digest := host.digest merged, current := next, table
            nextBackend := merged.length }

/-- The host can serve the document: it reads as what it says it is, is valid, and this host's side goes with it. -/
def Host.Takes (host : Host) (doc : CatalogDoc) : Prop :=
  ∃ next merged, parseCatalog doc.text = .ok next ∧ next.info.version = doc.version ∧
    validateCatalog host.platform host.activeActive next = .ok () ∧ mergeWithLocal next host.defaults = .ok merged ∧
    host.validateConfig merged = .ok ()

variable {host : Host} {doc : CatalogDoc} {applier : Applier} {merged : List ExportConfig}
  {versions : List CatalogDoc}
variable {next : Catalog}

theorem takes_iff :
    host.Takes doc ↔ ∃ next merged, host.vet doc = .ok (next, merged) := by
  constructor
  · rintro ⟨next, merged, hparse, hversion, hvalid, hmerge, hconfig⟩
    exact ⟨next, merged, by simp [Host.vet, hparse, hversion, hvalid, hmerge, hconfig]⟩
  · rintro ⟨next, merged, hvet⟩
    exact ⟨next, merged, vet_ok hvet⟩

theorem parseClients_isOk {platform : Platform} {cfg : ExportConfig}
    (h : ∀ client ∈ cfg.clients, ∃ cidr, Cidr.parse platform client = .ok cidr) :
    (parseClients platform cfg).isOk = true := by
  unfold parseClients
  generalize cfg.clients = clients at h
  induction clients with
  | nil => rfl
  | cons client clients ih =>
    obtain ⟨cidr, hcidr⟩ := h client List.mem_cons_self
    have hrest := ih fun c hc => h c (List.mem_cons_of_mem _ hc)
    rw [List.mapM_cons, hcidr]
    cases hparse : clients.mapM (Cidr.parse platform) with
    | error => simp [hparse, Except.isOk, Except.toBool] at hrest
    | ok cidrs => rfl

theorem merged_valid
    (hvet : host.vet doc = .ok (next, merged)) {cfg : ExportConfig} (hcfg : cfg ∈ merged) :
    cfg.backend ∈ host.platform.backends ∧ cfg.fsid ≠ 0 ∧ (parseClients host.platform cfg).isOk = true := by
  obtain ⟨-, -, hvalid, hmerge, -⟩ := vet_ok hvet
  obtain ⟨hexports, hdistinct⟩ := catalogValid hvalid
  obtain ⟨exp, hexp, -, hoptions⟩ := ((mergedFrom hmerge hdistinct).mem cfg).1 hcfg
  obtain ⟨options, rfl⟩ := mergeDefaults_ok hoptions
  have hexport := hexports exp hexp
  exact ⟨hexport.backend_known, hexport.fsid_ne_zero, parseClients_isOk hexport.clients_parse⟩

theorem bootCatalog_some
    (hvet : host.vet doc = .ok (next, merged)) :
    ∃ applier, bootCatalog host (some doc) = .ok applier ∧ applier.applied = doc.version ∧ applier.current = next ∧
      ServesApplied host applier := by
  obtain ⟨-, -, hvalid, hmerge, -⟩ := vet_ok hvet
  have hdistinct : next.Distinct := (catalogValid hvalid).2
  have hnone : ExportTable.buildError host.platform [] merged = none :=
    ExportTable.buildError_none.2 ⟨fun cfg hcfg => by
      obtain ⟨hbackend, hfsid, hclients⟩ := merged_valid hvet hcfg
      exact ⟨hbackend, hfsid, List.not_mem_nil, hclients⟩, (mergedFrom hmerge hdistinct).distinct⟩
  obtain ⟨table, hbuild, -⟩ := ExportTable.build_ok hnone
  have hboot : bootCatalog host (some doc) = .ok
      { applied := doc.version, latest := doc.version, digest := host.digest merged, current := next, table
        nextBackend := merged.length } := by
    simp only [bootCatalog, hvet, hbuild]
  exact ⟨_, hboot, rfl, rfl, hdistinct, merged, hmerge, serves_build hbuild⟩

theorem bootCatalog_inv (h : bootCatalog host (some doc) = .ok applier) :
    ∃ next merged, host.vet doc = .ok (next, merged) ∧ applier.applied = doc.version ∧ applier.current = next ∧
      ServesApplied host applier := by
  cases hvet : host.vet doc with
  | error => simp [bootCatalog, hvet] at h
  | ok admitted =>
    obtain ⟨next, merged⟩ := admitted
    obtain ⟨booted, hboot, happlied, hcurrent, hserves⟩ := bootCatalog_some hvet
    obtain rfl : booted = applier := Except.ok.inj (hboot.symm.trans h)
    exact ⟨next, merged, rfl, happlied, hcurrent, hserves⟩

/-! ### Applying what can be served -/

theorem startBackends_ok {host : Host} {read : Except Errno (Option CatalogDoc)} {version : UInt64}
    {exports : List ExportConfig} (h : ∀ cfg ∈ exports, cfg.backend ∈ host.platform.backends) (next : Nat) :
    ∃ started, startBackends host { read } version next exports = (started, none) ∧
      started.length = exports.length := by
  induction exports generalizing next with
  | nil => exact ⟨[], rfl, rfl⟩
  | cons cfg exports ih =>
    obtain ⟨started, hstarted, hlength⟩ := ih (fun c hc => h c (List.mem_cons_of_mem _ hc)) (next + 1)
    have hbackend := h cfg List.mem_cons_self
    refine ⟨next :: started, ?_, by simp [hlength]⟩
    simp [startBackends, hbackend, hstarted]

theorem accepts_planFor (happlied : ServesApplied host applier) (hvet : host.vet doc = .ok (next, merged))
    (hkept : (diffCatalog applier.current next).rejected = []) {started : List Nat}
    (hstarted : started.length = (applier.planFor next merged).add.length) :
    ExportTable.Accepts host.platform applier.table (applier.planFor next merged) started := by
  obtain ⟨-, -, hvalid, hmerge, -⟩ := vet_ok hvet
  have hnext : next.Distinct := (catalogValid hvalid).2
  have hmerged := mergedFrom hmerge hnext
  obtain ⟨_, hplanned⟩ := planned_planFor happlied.distinct hnext hmerged
  refine ⟨hstarted, fun fsid hfsid => ((hplanned.remove fsid).1 hfsid).2, hplanned.remove_once, fun cfg hcfg => ?_,
    hplanned.update_once, fun cfg hcfg => ?_, hplanned.add_once⟩
  · obtain ⟨hconfig, -, hserved⟩ := (hplanned.update cfg).1 hcfg
    have hmem := (mem_of_configOf hconfig).1
    obtain ⟨entry, hentry⟩ := Option.isSome_iff_exists.1 hserved
    obtain ⟨hold, hfsid⟩ := ExportTable.byFsid_eq_some hentry
    have hstays := (stays_iff happlied.distinct hnext hmerged hold).2 ⟨cfg, hmem, hfsid.symm⟩
    -- The entry came from an export of the same identity, so it has the same path.
    have hpath : Toml.normalizePath cfg.path = entry.path := by
      obtain ⟨oldMerged, hmergeOld, hserves⟩ := happlied.serves
      obtain ⟨oldCfg, holdCfg, hmatches⟩ := hserves.only entry hold
      obtain ⟨a, ha, -, hoptions⟩ := ((mergedFrom hmergeOld happlied.distinct).mem oldCfg).1 holdCfg
      obtain ⟨b, hb, -, hoptions'⟩ := (hmerged.mem cfg).1 hmem
      obtain ⟨options, rfl⟩ := mergeDefaults_ok hoptions
      obtain ⟨options', rfl⟩ := mergeDefaults_ok hoptions'
      have hidentity := sameIdentity_of_kept happlied.distinct hnext hkept ha hb (hmatches.fsid.symm.trans hfsid)
      simp only [sameIdentity, Bool.and_eq_true, beq_iff_eq] at hidentity
      rw [hmatches.2, ServedExport.make, hidentity.1.1]
    rw [hfsid] at hstays
    simp [ExportTable.acceptsUpdate, hentry, hstays, hpath, (merged_valid hvet hmem).2.2]
  · obtain ⟨hconfig, -, hfree⟩ := (hplanned.add cfg).1 hcfg
    have hmem := (mem_of_configOf hconfig).1
    obtain ⟨-, hfsid, hclients⟩ := merged_valid hvet hmem
    have hupdate : cfg.fsid ∉ (applier.planFor next merged).update.map (·.fsid) := by
      intro hmap
      obtain ⟨other, hother, hsame⟩ := List.mem_map.1 hmap
      have hserved := ((hplanned.update other).1 hother).2.2
      rw [hsame] at hserved
      simp [Option.isNone_iff_eq_none.1 hfree] at hserved
    have hcontains : ((applier.planFor next merged).update.map (·.fsid)).contains cfg.fsid = false := by
      rwa [List.contains_eq_mem, decide_eq_false_iff_not]
    rw [ExportTable.acceptsAdd, hfree, hclients, hcontains, bne_iff_ne.2 hfsid]
    rfl

theorem applyLatest_installs (happlied : ServesApplied host applier) (hvet : host.vet doc = .ok (next, merged))
    (hnewer : ¬doc.version ≤ applier.applied) (hkept : (diffCatalog applier.current next).rejected = []) :
    ∃ started, Installed host applier doc merged started
      (applier.applyLatest host { read := .ok (some doc) }) ∧
      (applier.applyLatest host { read := .ok (some doc) }).applier.current = next := by
  obtain ⟨-, -, hvalid, hmerge, -⟩ := vet_ok hvet
  have hnext : next.Distinct := (catalogValid hvalid).2
  obtain ⟨_, hplanned⟩ := planned_planFor happlied.distinct hnext (mergedFrom hmerge hnext)
  have hbackends : ∀ cfg ∈ (applier.planFor next merged).add, cfg.backend ∈ host.platform.backends := fun cfg hcfg =>
    (merged_valid hvet (mem_of_configOf ((hplanned.add cfg).1 hcfg).1).1).1
  obtain ⟨started, hstarted, hlength⟩ :=
    @startBackends_ok host (.ok (some doc)) doc.version _ hbackends applier.nextBackend
  have haccepts := accepts_planFor happlied hvet hkept hlength
  have happly : ∃ table, applier.table.apply host.platform (applier.planFor next merged) started = .ok table := by
    rw [ExportTable.apply, dif_pos haccepts]
    exact ⟨_, rfl⟩
  obtain ⟨table, htable⟩ := happly
  have hinstall : (applier.applyLatest host { read := .ok (some doc) }).applier.current = next ∧
      (applier.applyLatest host { read := .ok (some doc) }).applier.applied = doc.version ∧
      (applier.applyLatest host { read := .ok (some doc) }).applier.table = table := by
    simp [Applier.applyLatest, Applier.pipeline, if_neg hnewer, Applier.install, hvet, hkept, hstarted, htable]
  refine ⟨started, ⟨?_, ?_, ?_, hinstall.2.1⟩, hinstall.1⟩
  · rw [hinstall.1, hvet]
  · rw [hinstall.1, hkept]
  · rw [hinstall.1, hinstall.2.2, htable]

/-! ### Gateways -/

namespace Applier

/-- A gateway tries one version after the other, with every backend starting. -/
def follow (host : Host) (applier : Applier) (docs : List CatalogDoc) : Applier :=
  docs.foldl (fun applier doc => (applier.applyLatest host { read := .ok (some doc) }).applier) applier

end Applier

/-- A gateway that boots with one of the versions, or before there is any, and then tries some of the later ones,
with the last one at the end. -/
def FollowsCatalog (host : Host) (versions : List CatalogDoc) (applier : Applier) : Prop :=
  ∃ start docs begun, bootCatalog host start = .ok begun ∧ (start.toList ++ docs).Sublist versions ∧
    (start.toList ++ docs).getLast? = versions.getLast? ∧ applier = begun.follow host docs

/-- The gateway serves one of the versions, or none yet. -/
structure ServesOneOf (host : Host) (versions : List CatalogDoc) (applier : Applier) : Prop where
  serves : ServesApplied host applier
  source : applier.applied = 0 ∧ applier.current = {} ∨
    ∃ doc ∈ versions, ∃ merged, applier.applied = doc.version ∧ host.vet doc = .ok (applier.current, merged)

theorem servesOneOf_boot {start : Option CatalogDoc} {begun : Applier} (h : bootCatalog host start = .ok begun)
    (hstart : ∀ doc, start = some doc → doc ∈ versions) :
    ServesOneOf host versions begun := by
  cases start with
  | none =>
    cases h
    exact ⟨servesApplied_fresh host _, .inl ⟨rfl, rfl⟩⟩
  | some doc =>
    obtain ⟨next, merged, hvet, happlied, rfl, hserves⟩ := bootCatalog_inv h
    exact ⟨hserves, .inr ⟨doc, hstart doc rfl, merged, happlied, hvet⟩⟩

theorem servesOneOf_step
    (h : ServesOneOf host versions applier) (hdoc : doc ∈ versions) :
    ServesOneOf host versions (applier.applyLatest host { read := .ok (some doc) }).applier := by
  have hkeeps {outcome : ApplyOutcome} (hsame : Untouched applier outcome) :
      ServesOneOf host versions outcome.applier := by
    refine ⟨servesApplied_congr h.serves hsame.table hsame.current, ?_⟩
    rw [hsame.applied, hsame.current]
    exact h.source
  rcases applyLatest_cases host applier { read := .ok (some doc) } with ⟨_, -, hsame⟩ | ⟨-, hsame⟩ |
    ⟨read, merged, started, hread, -, hinstalled⟩
  · exact hkeeps hsame
  · exact hkeeps hsame
  · obtain rfl : doc = read := by simpa using hread
    exact ⟨servesApplied_installed h.serves hinstalled,
      .inr ⟨doc, hdoc, merged, hinstalled.applied, hinstalled.admitted⟩⟩

theorem servesOneOf_follow
    (h : ServesOneOf host versions applier) {docs : List CatalogDoc} (hdocs : ∀ doc ∈ docs, doc ∈ versions) :
    ServesOneOf host versions (applier.follow host docs) := by
  induction docs generalizing applier with
  | nil => exact h
  | cons doc docs ih =>
    exact ih (servesOneOf_step h (hdocs doc List.mem_cons_self)) fun d hd => hdocs d (List.mem_cons_of_mem _ hd)

/-- No id of the last document was another export's in an earlier one that this host can serve. -/
def IdsKept (host : Host) (earlier : List CatalogDoc) (last : CatalogDoc) : Prop :=
  ∀ doc ∈ earlier, host.Takes doc → ∀ old new, parseCatalog doc.text = .ok old → parseCatalog last.text = .ok new →
    ∀ a ∈ old.exports, ∀ b ∈ new.exports, a.cfg.fsid = b.cfg.fsid → sameIdentity a.cfg b.cfg = true

theorem rejected_eq_nil_iff {old new : Catalog} (hold : old.Distinct) (hnew : new.Distinct) :
    (diffCatalog old new).rejected = [] ↔
      ∀ a ∈ old.exports, ∀ b ∈ new.exports, a.cfg.fsid = b.cfg.fsid → sameIdentity a.cfg b.cfg = true := by
  rw [List.eq_nil_iff_forall_not_mem]
  constructor
  · intro h a ha b hb hfsid
    by_contra hdiffers
    exact h b.cfg.fsid ((mem_keptFsids hold hnew).2 ⟨a, ha, b, hb, hfsid, rfl, by simpa using hdiffers⟩)
  · intro h fsid hfsid
    obtain ⟨a, ha, b, hb, hafsid, hbfsid, hdiffers⟩ := (mem_keptFsids hold hnew).1 hfsid
    simp [h a ha b hb (hafsid.trans hbfsid.symm)] at hdiffers

theorem admitted_distinct
    (h : host.vet doc = .ok (next, merged)) : next.Distinct :=
  (catalogValid (vet_ok h).2.2.1).2

theorem follows_last {earlier : List CatalogDoc} {last : CatalogDoc}
    (hnewer : ∀ doc ∈ earlier, doc.version < last.version) (hpositive : 0 < last.version)
    (hvet : host.vet last = .ok (next, merged)) (hkept : IdsKept host earlier last)
    (h : FollowsCatalog host (earlier ++ [last]) applier) :
    applier.applied = last.version ∧ applier.current = next ∧ ServesApplied host applier := by
  obtain ⟨start, docs, begun, hboot, hsublist, hlast, rfl⟩ := h
  rw [List.getLast?_concat] at hlast
  induction docs using List.reverseRecOn with
  | nil =>
    obtain rfl : start = some last := by cases start <;> simp_all
    obtain ⟨next', merged', hvet', happlied, hcurrent, hserves⟩ := bootCatalog_inv hboot
    obtain ⟨rfl, rfl⟩ : next' = next ∧ merged' = merged := by simpa using hvet'.symm.trans hvet
    exact ⟨happlied, hcurrent, hserves⟩
  | append_singleton docs doc _ =>
    obtain rfl : doc = last := by simpa [← List.append_assoc] using hlast
    rw [← List.append_assoc, List.append_sublist_append_right] at hsublist
    have hbefore : ServesOneOf host earlier (begun.follow host docs) :=
      servesOneOf_follow (servesOneOf_boot hboot fun d hd => hsublist.mem (by simp [hd]))
        fun d hd => hsublist.mem (List.mem_append_right _ hd)
    have hstep : begun.follow host (docs ++ [doc]) =
        ((begun.follow host docs).applyLatest host { read := .ok (some doc) }).applier := by
      rw [Applier.follow, List.foldl_concat]
      rfl
    have hnew := admitted_distinct hvet
    have hready : ¬doc.version ≤ (begun.follow host docs).applied ∧
        (diffCatalog (begun.follow host docs).current next).rejected = [] := by
      rw [rejected_eq_nil_iff hbefore.serves.distinct hnew]
      rcases hbefore.source with ⟨hzero, hempty⟩ | ⟨old, hold, oldMerged, happlied, hvetOld⟩
      · rw [hzero, hempty]
        exact ⟨UInt64.not_le.2 hpositive, nofun⟩
      · rw [happlied]
        refine ⟨UInt64.not_le.2 (hnewer old hold), ?_⟩
        exact hkept old hold (takes_iff.2 ⟨_, _, hvetOld⟩) _ _ (vet_ok hvetOld).1 (vet_ok hvet).1
    obtain ⟨started, hinstalled, hcurrent⟩ := applyLatest_installs hbefore.serves hvet hready.1 hready.2
    rw [hstep]
    exact ⟨hinstalled.applied, hcurrent, servesApplied_installed hbefore.serves hinstalled⟩

theorem not_applied (hnewer : applier.applied ≠ doc.version)
    (h : (applier.applyLatest host { read := .ok (some doc) }).applier.applied = doc.version) :
    ∃ next merged, host.vet doc = .ok (next, merged) ∧ (diffCatalog applier.current next).rejected = [] := by
  rcases applyLatest_cases host applier { read := .ok (some doc) } with ⟨_, -, hsame⟩ | ⟨-, hsame⟩ |
    ⟨read, merged, started, hread, -, hinstalled⟩
  · exact absurd (hsame.applied.symm.trans h) hnewer
  · exact absurd (hsame.applied.symm.trans h) hnewer
  · obtain rfl : doc = read := by simpa using hread
    exact ⟨_, merged, hinstalled.admitted, hinstalled.kept⟩

theorem serial_lt_last {platform : Platform} {first : Option CatalogDoc} {commits : List CatalogCommit}
    {last : CatalogCommit} (h : Serial platform first (commits ++ [last])) :
    (docVersion first).toNat < last.doc.version.toNat ∧
      ∀ commit ∈ commits, commit.doc.version.toNat < last.doc.version.toNat := by
  induction commits generalizing first with
  | nil =>
    have hnext := h.2.1
    exact ⟨by omega, nofun⟩
  | cons commit commits ih =>
    obtain ⟨hfirst, hrest⟩ := ih h.2.2.2
    have hcommit : commit.doc.version.toNat < last.doc.version.toNat := hfirst
    have hnext := h.2.1
    exact ⟨by omega, List.forall_mem_cons.2 ⟨hcommit, hrest⟩⟩

/-- For every sequence of committed versions, any two gateways of one configuration that follow it to the last version
end up having applied it and serving the same exports with the same settings, if and only if the configuration can
serve that version and no id in it was another export's in an earlier version that the configuration can serve. -/
theorem gateways_converge_iff {platform : Platform} {first : Option CatalogDoc} {commits : List CatalogCommit}
    {last : CatalogCommit} (hserial : Serial platform first (commits ++ [last])) (host : Host) :
    (∀ a b, FollowsCatalog host (commits.map (·.doc) ++ [last.doc]) a →
        FollowsCatalog host (commits.map (·.doc) ++ [last.doc]) b →
        a.applied = last.doc.version ∧ b.applied = last.doc.version ∧ a.table.served = b.table.served) ↔
      host.Takes last.doc ∧ IdsKept host (commits.map (·.doc)) last.doc := by
  obtain ⟨hpositive, hgrows⟩ := serial_lt_last hserial
  have hversions : ∀ doc ∈ commits.map (·.doc), doc.version < last.doc.version := by
    intro doc hdoc
    obtain ⟨commit, hcommit, rfl⟩ := List.mem_map.1 hdoc
    exact UInt64.lt_iff_toNat_lt.2 (hgrows commit hcommit)
  have hzero : 0 < last.doc.version := UInt64.lt_iff_toNat_lt.2 (Nat.zero_lt_of_lt hpositive)
  constructor
  · intro h
    -- The gateway that boots before there is a catalog, and tries the last version only.
    have hfresh : FollowsCatalog host (commits.map (·.doc) ++ [last.doc])
        (Applier.follow host { digest := host.digest [] } [last.doc]) :=
      ⟨none, [last.doc], _, rfl, List.sublist_append_right .., by simp, rfl⟩
    obtain ⟨next, merged, hvet, -⟩ := not_applied (UInt64.ne_of_lt hzero) (h _ _ hfresh hfresh).1
    refine ⟨takes_iff.2 ⟨next, merged, hvet⟩, fun doc hdoc htakes old new hold hnew => ?_⟩
    -- The gateway that boots with the earlier version, and tries the last one next.
    obtain ⟨oldNext, oldMerged, hvetOld⟩ := takes_iff.1 htakes
    obtain ⟨begun, hboot, happlied, hcurrent, hserves⟩ := bootCatalog_some hvetOld
    have hskips : FollowsCatalog host (commits.map (·.doc) ++ [last.doc]) (begun.follow host [last.doc]) :=
      ⟨some doc, [last.doc], begun, hboot, (List.singleton_sublist.2 hdoc).append_right _, by simp, rfl⟩
    have hbehind : begun.applied ≠ last.doc.version := happlied ▸ UInt64.ne_of_lt (hversions doc hdoc)
    obtain ⟨next', merged', hvet', hkept⟩ := not_applied hbehind (h _ _ hskips hskips).1
    obtain rfl : oldNext = old := Except.ok.inj ((vet_ok hvetOld).1.symm.trans hold)
    obtain rfl : next' = new := Except.ok.inj ((vet_ok hvet').1.symm.trans hnew)
    rw [hcurrent] at hkept
    exact (rejected_eq_nil_iff (admitted_distinct hvetOld) (admitted_distinct hvet')).1 hkept
  · rintro ⟨htakes, hkept⟩ a b ha hb
    obtain ⟨next, merged, hvet⟩ := takes_iff.1 htakes
    have hmerge := (vet_ok hvet).2.2.2.1
    have hsorted := (mergedFrom hmerge (admitted_distinct hvet)).sorted
    have hend {g : Applier} (hg : FollowsCatalog host (commits.map (·.doc) ++ [last.doc]) g) :
        g.applied = last.doc.version ∧
          g.table.served = merged.map fun cfg => .make cfg (ExportTable.clientsOf host.platform cfg) 0 := by
      obtain ⟨happlied, hcurrent, -, merged', hmerge', hserves⟩ := follows_last hversions hzero hvet hkept hg
      rw [hcurrent] at hmerge'
      obtain rfl : merged' = merged := Except.ok.inj (hmerge'.symm.trans hmerge)
      exact ⟨happlied, served_eq hsorted hserves⟩
    exact ⟨(hend ha).1, (hend hb).1, (hend ha).2.trans (hend hb).2.symm⟩

/-- `import`: the document of the file, whatever there was. -/
def importCommand (catalog : Catalog) : CommitCommand where
  mutate _ := .ok catalog
  activeActive := false
  author := lit "gw1 uid=0"
  comment := []

/-- A commit of a command on top of the versions before it. -/
def commitOf (base : Option CatalogDoc) (command : CommitCommand) : CatalogCommit where
  doc :=
    match prepare plainPlatform command [] base with
    | .ok (was, text) => ⟨was + 1, text⟩
    | .error _ => ⟨0, []⟩
  base := base
  command := command
  stamp := []

/-- The command goes through on top of the document. -/
def Commits (base : Option CatalogDoc) (command : CommitCommand) : Prop :=
  (prepare plainPlatform command [] base).map (·.1) = .ok (docVersion base) ∧ (docVersion base).toNat + 1 < 2 ^ 64

instance (base : Option CatalogDoc) (command : CommitCommand) : Decidable (Commits base command) :=
  inferInstanceAs (Decidable (_ ∧ _))

theorem Commits.serial {base : Option CatalogDoc} {command : CommitCommand} {commits : List CatalogCommit}
    (h : Commits base command) (hnext : Serial plainPlatform (some (commitOf base command).doc) commits) :
    Serial plainPlatform base (commitOf base command :: commits) := by
  obtain ⟨hprepare, hmax⟩ := h
  cases hresult : prepare plainPlatform command [] base with
  | error e => simp [hresult, Except.map] at hprepare
  | ok made =>
    obtain ⟨was, text⟩ := made
    have hwas : was = docVersion base := by simpa [hresult, Except.map] using hprepare
    have hdoc : (commitOf base command).doc = ⟨was + 1, text⟩ := by simp only [commitOf, hresult]
    refine ⟨rfl, ?_, ⟨was, ?_⟩, hnext⟩
    · rw [hdoc, hwas]
      exact (UInt64.toNat_add ..).trans (Nat.mod_eq_of_lt hmax)
    · rw [hdoc]
      exact hresult

/-- An export is added, an import without it removes it, and an import gives its id to another path. -/
def reusedId : List CatalogCommit × CatalogCommit :=
  let v1 := commitOf none (addCommand (lit "/a") 1)
  let v2 := commitOf (some v1.doc) (importCommand {})
  ([v1, v2], commitOf (some v2.doc) (importCommand (singleExport 0 { path := lit "/b", fsid := 1 })))

/-- Version 3 is there to be booted with, and the gateway that has applied version 1 and missed version 2 can never
apply it. -/
theorem reusedId_diverges :
    Serial plainPlatform none (reusedId.1 ++ [reusedId.2]) ∧
      (bootCatalog plainHost (some reusedId.2.doc)).map (·.applied) = .ok 3 ∧
      (bootCatalog plainHost (reusedId.1.head?.map (·.doc))).map
        (fun begun => (begun.follow plainHost [reusedId.2.doc]).applied) = .ok 1 := by
  -- One evaluation for all parts: each of them needs the documents.
  have hall : (∀ step ∈ [(none, addCommand (lit "/a") 1), (reusedId.1[0]?.map (·.doc), importCommand {}),
        (reusedId.1[1]?.map (·.doc), importCommand (singleExport 0 { path := lit "/b", fsid := 1 }))],
        Commits step.1 step.2) ∧
      (bootCatalog plainHost (some reusedId.2.doc)).map (·.applied) = .ok 3 ∧
      (bootCatalog plainHost (reusedId.1.head?.map (·.doc))).map
        (fun begun => (begun.follow plainHost [reusedId.2.doc]).applied) = .ok 1 := by
    decide +kernel
  obtain ⟨hcommits, hboot, hfollow⟩ := hall
  simp only [List.forall_mem_cons] at hcommits
  obtain ⟨h1, h2, h3, -⟩ := hcommits
  exact ⟨h1.serial (h2.serial (h3.serial trivial)), hboot, hfollow⟩

/-- The versions of an export that is added and then made read-only. -/
def changedExport : List CatalogCommit × CatalogCommit :=
  let v1 := commitOf none (addCommand (lit "/a") 1)
  ([v1], commitOf (some v1.doc) (importCommand (singleExport 0 { path := lit "/a", fsid := 1, readonly := true })))

theorem gateways_converge_changed :
    changedExport.2.doc.version = 2 ∧
      ∀ a b, FollowsCatalog plainHost (changedExport.1.map (·.doc) ++ [changedExport.2.doc]) a →
        FollowsCatalog plainHost (changedExport.1.map (·.doc) ++ [changedExport.2.doc]) b →
          a.applied = 2 ∧ b.applied = 2 ∧ a.table.served = b.table.served := by
  have hall : Commits none (addCommand (lit "/a") 1) ∧
      Commits (changedExport.1.head?.map (·.doc))
        (importCommand (singleExport 0 { path := lit "/a", fsid := 1, readonly := true })) ∧
      changedExport.2.doc.version = 2 ∧ (plainHost.vet changedExport.2.doc).isOk = true ∧
      ∀ doc ∈ changedExport.1.map (·.doc), ∀ old ∈ (parseCatalog doc.text).toOption,
        ∀ new ∈ (parseCatalog changedExport.2.doc.text).toOption, ∀ a ∈ old.exports, ∀ b ∈ new.exports,
          a.cfg.fsid = b.cfg.fsid → sameIdentity a.cfg b.cfg = true := by
    decide +kernel
  obtain ⟨h1, h2, hversion, hok, hsame⟩ := hall
  have hserial : Serial plainPlatform none (changedExport.1 ++ [changedExport.2]) := h1.serial (h2.serial trivial)
  have htakes : plainHost.Takes changedExport.2.doc := by
    refine takes_iff.2 ?_
    cases hvet : plainHost.vet changedExport.2.doc with
    | ok admitted => exact ⟨admitted.1, admitted.2, rfl⟩
    | error =>
      rw [hvet] at hok
      cases hok
  have hkept : IdsKept plainHost (changedExport.1.map (·.doc)) changedExport.2.doc := by
    intro doc hdoc _ old new hold hnew
    exact hsame doc hdoc old (by simp [hold, Except.toOption]) new (by simp [hnew, Except.toOption])
  have hconverge := (gateways_converge_iff hserial plainHost).2 ⟨htakes, hkept⟩
  rw [hversion] at hconverge
  exact ⟨hversion, hconverge⟩

end LightNfs
