import LightNfs.Core.Catalog

/-!
# The export table

`ExportTable::apply` brings the table from one set of exports to the next: entries that stay are the same objects with
their settings changed in place, new ones come with a started backend, removed ones are retired. The plan is checked
as a whole before anything is touched.
-/

namespace LightNfs

/-- `ExportEntry`; `backend` tells the backend objects of the process apart. -/
structure ServedExport where
  fsid : UInt32
  path : Text
  backend : Nat
  clients : List Cidr
  squash : Squash
  anonUid : UInt32
  anonGid : UInt32
  readonly : Bool
  securePorts : Bool
  strictReaddirCookies : Bool
  readBps : UInt64
  writeBps : UInt64
  iops : UInt32
  nodes : List Text
deriving DecidableEq

def parseClients (platform : Platform) (cfg : ExportConfig) : Except Errno (List Cidr) :=
  cfg.clients.mapM (Cidr.parse platform)

namespace ServedExport

/-- The entry that `ExportSetBuilder::add` makes. -/
def make (cfg : ExportConfig) (clients : List Cidr) (backend : Nat) : ServedExport where
  fsid := cfg.fsid
  path := Toml.normalizePath cfg.path
  backend
  clients
  squash := cfg.squash
  anonUid := cfg.anonUid
  anonGid := cfg.anonGid
  readonly := cfg.readonly
  securePorts := cfg.securePorts
  strictReaddirCookies := cfg.strictReaddirCookies
  readBps := cfg.readBps
  writeBps := cfg.writeBps
  iops := cfg.iops
  nodes := cfg.nodes

/-- `update_entry`. -/
def update (entry : ServedExport) (cfg : ExportConfig) (clients : List Cidr) : ServedExport :=
  { entry with
    clients
    readBps := cfg.readBps
    writeBps := cfg.writeBps
    iops := cfg.iops
    readonly := cfg.readonly
    securePorts := cfg.securePorts
    strictReaddirCookies := cfg.strictReaddirCookies
    squash := cfg.squash
    anonUid := cfg.anonUid
    anonGid := cfg.anonGid
    nodes := cfg.nodes }

end ServedExport

/-- The published set, ordered by id, and the entries that wait to be stopped. -/
structure ExportTable where
  entries : List ServedExport := []
  generation : UInt64 := 0
  retired : List ServedExport := []
  sorted : entries.Pairwise (·.fsid < ·.fsid) := by exact .nil

structure ExportSetPlan where
  add : List ExportConfig := []
  update : List ExportConfig := []
  remove : List UInt32 := []
deriving DecidableEq

namespace ExportTable

def byFsid (table : ExportTable) (fsid : UInt32) : Option ServedExport := table.entries.find? (·.fsid == fsid)

variable {platform : Platform} {table : ExportTable} {plan : ExportSetPlan} {started : List Nat}
  {exports : List ExportConfig}
variable {entry : ServedExport}

theorem byFsid_eq_some {fsid : UInt32}
    (h : table.byFsid fsid = some entry) : entry ∈ table.entries ∧ entry.fsid = fsid :=
  ⟨List.mem_of_find?_eq_some h, by simpa using List.find?_some h⟩

theorem byFsid_isSome {fsid : UInt32} :
    (table.byFsid fsid).isSome = true ↔ ∃ entry ∈ table.entries, entry.fsid = fsid := by
  simp [byFsid]

/-- An update is for an entry that stays where it is. -/
def acceptsUpdate (platform : Platform) (table : ExportTable) (plan : ExportSetPlan) (cfg : ExportConfig) : Bool :=
  match table.byFsid cfg.fsid with
  | none => false
  | some entry =>
    !plan.remove.contains cfg.fsid && Toml.normalizePath cfg.path == entry.path && (parseClients platform cfg).isOk

/-- An addition is for an id that is free, or freed by the same plan. -/
def acceptsAdd (platform : Platform) (table : ExportTable) (plan : ExportSetPlan) (cfg : ExportConfig) : Bool :=
  cfg.fsid != 0 && !(plan.update.map (·.fsid)).contains cfg.fsid &&
    ((table.byFsid cfg.fsid).isNone || plan.remove.contains cfg.fsid) && (parseClients platform cfg).isOk

/-- The checks of `apply`; all of them answer `EINVAL`. -/
structure Accepts (platform : Platform) (table : ExportTable) (plan : ExportSetPlan) (started : List Nat) : Prop where
  started : started.length = plan.add.length
  remove : ∀ fsid ∈ plan.remove, (table.byFsid fsid).isSome = true
  remove_once : plan.remove.Nodup
  update : ∀ cfg ∈ plan.update, acceptsUpdate platform table plan cfg = true
  update_once : (plan.update.map (·.fsid)).Nodup
  add : ∀ cfg ∈ plan.add, acceptsAdd platform table plan cfg = true
  add_once : (plan.add.map (·.fsid)).Nodup

theorem accepts_iff :
    Accepts platform table plan started ↔
      started.length = plan.add.length ∧ (∀ fsid ∈ plan.remove, (table.byFsid fsid).isSome = true) ∧
        plan.remove.Nodup ∧ (∀ cfg ∈ plan.update, acceptsUpdate platform table plan cfg = true) ∧
        (plan.update.map (·.fsid)).Nodup ∧ (∀ cfg ∈ plan.add, acceptsAdd platform table plan cfg = true) ∧
        (plan.add.map (·.fsid)).Nodup :=
  ⟨fun h => ⟨h.1, h.2, h.3, h.4, h.5, h.6, h.7⟩, fun h => ⟨h.1, h.2.1, h.2.2.1, h.2.2.2.1, h.2.2.2.2.1, h.2.2.2.2.2.1,
    h.2.2.2.2.2.2⟩⟩

instance (platform : Platform) (table : ExportTable) (plan : ExportSetPlan) (started : List Nat) :
    Decidable (Accepts platform table plan started) :=
  -- The ids are a finite type: left alone, the check would go through all of them.
  have : Decidable (∀ fsid ∈ plan.remove, (table.byFsid fsid).isSome = true) := List.decidableBAll _ _
  decidable_of_iff _ accepts_iff.symm

/-- The clients of an export whose texts were checked. -/
def clientsOf (platform : Platform) (cfg : ExportConfig) : List Cidr :=
  match parseClients platform cfg with
  | .ok clients => clients
  | .error _ => []

/-- An entry that stays, with its new settings if the plan has any. -/
def refreshed (platform : Platform) (plan : ExportSetPlan) (entry : ServedExport) : ServedExport :=
  match plan.update.find? (·.fsid == entry.fsid) with
  | some cfg => entry.update cfg (clientsOf platform cfg)
  | none => entry

def kept (platform : Platform) (table : ExportTable) (plan : ExportSetPlan) : List ServedExport :=
  (table.entries.filter fun entry => !plan.remove.contains entry.fsid).map (refreshed platform plan)

def added (platform : Platform) (plan : ExportSetPlan) (started : List Nat) : List ServedExport :=
  (plan.add.zip started).map fun (cfg, backend) => .make cfg (clientsOf platform cfg) backend

theorem fsid_refreshed (platform : Platform) (plan : ExportSetPlan) (entry : ServedExport) :
    (refreshed platform plan entry).fsid = entry.fsid := by
  unfold refreshed
  split <;> rfl

theorem mem_kept :
    entry ∈ table.kept platform plan ↔
      ∃ old ∈ table.entries, old.fsid ∉ plan.remove ∧ entry = refreshed platform plan old := by
  simp only [kept, List.mem_map, List.mem_filter, Bool.not_eq_true', List.contains_eq_mem, decide_eq_false_iff_not,
    and_assoc]
  exact exists_congr fun old => and_congr_right fun _ => and_congr_right fun _ => eq_comm

theorem mem_added :
    entry ∈ added platform plan started ↔
      ∃ cfg backend, (cfg, backend) ∈ plan.add.zip started ∧ entry = .make cfg (clientsOf platform cfg) backend := by
  simp only [added, List.mem_map, Prod.exists]
  exact exists_congr fun cfg => exists_congr fun backend => and_congr_right fun _ => eq_comm

theorem distinct_next
    (h : Accepts platform table plan started) :
    (table.kept platform plan ++ added platform plan started).Pairwise (·.fsid ≠ ·.fsid) := by
  refine List.pairwise_append.2 ⟨?_, ?_, ?_⟩
  · refine List.pairwise_map.2 ((table.sorted.filter _).imp fun {a b} hlt => ?_)
    rw [fsid_refreshed, fsid_refreshed]
    exact UInt32.ne_of_lt hlt
  · have hzip : (plan.add.zip started).map Prod.fst = plan.add := List.map_fst_zip h.started.ge
    have honce : ((plan.add.zip started).map Prod.fst).Pairwise (·.fsid ≠ ·.fsid) := by
      rw [hzip]
      exact List.pairwise_map.1 h.add_once
    refine List.pairwise_map.2 (List.Pairwise.imp ?_ (List.pairwise_map.1 honce))
    rintro ⟨cfg, backend⟩ ⟨cfg', backend'⟩ hne
    exact hne
  · intro a ha b hb heq
    obtain ⟨old, hold, hstays, rfl⟩ := mem_kept.1 ha
    obtain ⟨cfg, backend, hcfg, rfl⟩ := mem_added.1 hb
    have hadd := h.add cfg (List.of_mem_zip hcfg).1
    rw [fsid_refreshed] at heq
    have hfsid : old.fsid = cfg.fsid := heq
    have hsome : (table.byFsid cfg.fsid).isSome = true := byFsid_isSome.2 ⟨old, hold, hfsid⟩
    rw [hfsid] at hstays
    simp [acceptsAdd, hstays, Option.isSome_iff_ne_none.1 hsome] at hadd

def apply (platform : Platform) (table : ExportTable) (plan : ExportSetPlan) (started : List Nat) :
    Except Errno ExportTable :=
  if h : Accepts platform table plan started then
    .ok { entries := (table.kept platform plan ++ added platform plan started).insertionSort fun a b => a.fsid ≤ b.fsid
          generation := table.generation + 1
          retired := table.retired ++ table.entries.filter fun entry => plan.remove.contains entry.fsid
          sorted := sorted_of_distinct _ (distinct_next h) }
  else .error .inval

theorem apply_ok {next : ExportTable}
    (h : table.apply platform plan started = .ok next) :
    Accepts platform table plan started ∧
      ∀ entry, entry ∈ next.entries ↔ entry ∈ table.kept platform plan ∨ entry ∈ added platform plan started := by
  unfold apply at h
  split at h <;> try contradiction
  rename_i haccepts
  cases h
  exact ⟨haccepts, fun entry => by rw [List.mem_insertionSort, List.mem_append]⟩

/-- Why `build` refuses, export by export. -/
def buildError (platform : Platform) (earlier : List UInt32) : List ExportConfig → Option Errno
  | [] => none
  | cfg :: exports =>
    if !platform.backends.contains cfg.backend then some .nodev
    else if cfg.fsid == 0 || earlier.contains cfg.fsid then some .inval
    else
      match parseClients platform cfg with
      | .error error => some error
      | .ok _ => buildError platform (cfg.fsid :: earlier) exports

theorem buildError_none {earlier : List UInt32} :
    buildError platform earlier exports = none ↔
      (∀ cfg ∈ exports, cfg.backend ∈ platform.backends ∧ cfg.fsid ≠ 0 ∧ cfg.fsid ∉ earlier ∧
        (parseClients platform cfg).isOk = true) ∧ exports.Pairwise (·.fsid ≠ ·.fsid) := by
  induction exports generalizing earlier with
  | nil => simp [buildError]
  | cons cfg exports ih =>
    unfold buildError
    rw [List.forall_mem_cons, List.pairwise_cons]
    by_cases hbackend : cfg.backend ∈ platform.backends
    · by_cases hid : cfg.fsid = 0 ∨ cfg.fsid ∈ earlier
      · rw [if_neg (by simpa using hbackend), if_pos (by simpa using hid)]
        constructor
        · intro h
          cases h
        · tauto
      · rw [if_neg (by simpa using hbackend), if_neg (by simpa using hid)]
        cases hclients : parseClients platform cfg with
        | error => simp [Except.isOk, Except.toBool]
        | ok clients =>
          simp only [ih, List.mem_cons, not_or, Except.isOk, Except.toBool]
          constructor
          · rintro ⟨hrest, hdistinct⟩
            exact ⟨⟨⟨hbackend, fun h => hid (.inl h), fun h => hid (.inr h), trivial⟩,
              fun other hother => ⟨(hrest other hother).1, (hrest other hother).2.1, (hrest other hother).2.2.1.2,
                (hrest other hother).2.2.2⟩⟩, fun other hother => Ne.symm (hrest other hother).2.2.1.1, hdistinct⟩
          · rintro ⟨⟨-, hrest⟩, hfirst, hdistinct⟩
            exact ⟨fun other hother => ⟨(hrest other hother).1, (hrest other hother).2.1,
              ⟨Ne.symm (hfirst other hother), (hrest other hother).2.2.1⟩, (hrest other hother).2.2.2⟩, hdistinct⟩
    · rw [if_pos (by simpa using hbackend)]
      constructor
      · intro h
        cases h
      · tauto

/-- The entries of a list of exports, with backends in their order. -/
def built (platform : Platform) (exports : List ExportConfig) : List ServedExport :=
  exports.zipIdx.map fun (cfg, backend) => .make cfg (clientsOf platform cfg) backend

theorem mem_built :
    entry ∈ built platform exports ↔
      ∃ cfg backend, (cfg, backend) ∈ exports.zipIdx ∧ entry = .make cfg (clientsOf platform cfg) backend := by
  simp only [built, List.mem_map, Prod.exists]
  exact exists_congr fun cfg => exists_congr fun backend => and_congr_right fun _ => eq_comm

theorem distinct_built
    (h : buildError platform [] exports = none) : (built platform exports).Pairwise (·.fsid ≠ ·.fsid) := by
  have hdistinct := (buildError_none.1 h).2
  rw [← List.zipIdx_map_fst 0 exports] at hdistinct
  refine List.pairwise_map.2 (List.Pairwise.imp ?_ (List.pairwise_map.1 hdistinct))
  rintro ⟨cfg, backend⟩ ⟨cfg', backend'⟩ hne
  exact hne

/-- `ExportTable::build`, when every backend takes its configuration. -/
def build (platform : Platform) (exports : List ExportConfig) : Except Errno ExportTable :=
  match h : buildError platform [] exports with
  | some error => .error error
  | none => .ok
      { entries := (built platform exports).insertionSort fun a b => a.fsid ≤ b.fsid
        sorted := sorted_of_distinct _ (distinct_built h) }

theorem build_ok (h : buildError platform [] exports = none) :
    ∃ table, build platform exports = .ok table ∧ ∀ entry, entry ∈ table.entries ↔ entry ∈ built platform exports := by
  unfold build
  split
  case h_1 error herror =>
    rw [h] at herror
    contradiction
  case h_2 => exact ⟨_, rfl, fun entry => List.mem_insertionSort ..⟩

def served (table : ExportTable) : List ServedExport := table.entries.map fun entry => { entry with backend := 0 }

end ExportTable

/-! ### What is served -/

/-- The entry has the settings of the configuration. -/
def Matches (platform : Platform) (entry : ServedExport) (cfg : ExportConfig) : Prop :=
  parseClients platform cfg = .ok entry.clients ∧ entry = .make cfg entry.clients entry.backend

/-- The table serves the given exports with their settings, and no others. -/
structure Serves (platform : Platform) (table : ExportTable) (exports : List ExportConfig) : Prop where
  all : ∀ cfg ∈ exports, ∃ entry ∈ table.entries, Matches platform entry cfg
  only : ∀ entry ∈ table.entries, ∃ cfg ∈ exports, Matches platform entry cfg

variable {platform : Platform} {cfg : ExportConfig}

theorem Matches.fsid {entry : ServedExport}
    (h : Matches platform entry cfg) : entry.fsid = cfg.fsid := by
  rw [h.2]
  rfl

theorem clientsOf_eq (h : (parseClients platform cfg).isOk = true) :
    parseClients platform cfg = .ok (ExportTable.clientsOf platform cfg) := by
  unfold ExportTable.clientsOf
  cases hparse : parseClients platform cfg with
  | ok clients => rfl
  | error => simp [hparse, Except.isOk, Except.toBool] at h

theorem matches_make (h : (parseClients platform cfg).isOk = true)
    (backend : Nat) : Matches platform (.make cfg (ExportTable.clientsOf platform cfg) backend) cfg :=
  ⟨clientsOf_eq h, rfl⟩

theorem matches_update {entry : ServedExport}
    (h : (parseClients platform cfg).isOk = true) (hfsid : entry.fsid = cfg.fsid)
    (hpath : Toml.normalizePath cfg.path = entry.path) :
    Matches platform (entry.update cfg (ExportTable.clientsOf platform cfg)) cfg := by
  refine ⟨clientsOf_eq h, ?_⟩
  simp [ServedExport.update, ServedExport.make, hfsid, hpath]

theorem serves_build {exports : List ExportConfig} {table : ExportTable}
    (h : ExportTable.build platform exports = .ok table) : Serves platform table exports := by
  have hnone : ExportTable.buildError platform [] exports = none := by
    unfold ExportTable.build at h
    split at h <;> first | contradiction | assumption
  obtain ⟨built, hbuilt, hentries⟩ := ExportTable.build_ok hnone
  obtain rfl : built = table := Except.ok.inj (hbuilt.symm.trans h)
  have hclients {cfg : ExportConfig} (hcfg : cfg ∈ exports) : (parseClients platform cfg).isOk = true :=
    ((ExportTable.buildError_none.1 hnone).1 cfg hcfg).2.2.2
  constructor
  · intro cfg hcfg
    rw [← List.zipIdx_map_fst 0 exports] at hcfg
    obtain ⟨⟨_, backend⟩, hzip, rfl⟩ := List.mem_map.1 hcfg
    exact ⟨_, (hentries _).2 (ExportTable.mem_built.2 ⟨_, backend, hzip, rfl⟩),
      matches_make (hclients (List.fst_mem_of_mem_zipIdx hzip)) backend⟩
  · intro entry hentry
    obtain ⟨cfg, backend, hzip, rfl⟩ := ExportTable.mem_built.1 ((hentries entry).1 hentry)
    have hcfg := List.fst_mem_of_mem_zipIdx hzip
    exact ⟨cfg, hcfg, matches_make (hclients hcfg) backend⟩

theorem served_eq {table : ExportTable} {exports : List ExportConfig}
    (hsorted : exports.Pairwise (·.fsid < ·.fsid)) (h : Serves platform table exports) :
    table.served = exports.map fun cfg => .make cfg (ExportTable.clientsOf platform cfg) 0 := by
  have hshown {entry : ServedExport} {cfg : ExportConfig} (hmatches : Matches platform entry cfg) :
      { entry with backend := 0 } = ServedExport.make cfg (ExportTable.clientsOf platform cfg) 0 := by
    rw [hmatches.2, ExportTable.clientsOf, hmatches.1]
    rfl
  have hleft : table.served.Pairwise (·.fsid < ·.fsid) := List.pairwise_map.2 table.sorted
  have hright : (exports.map fun cfg => ServedExport.make cfg (ExportTable.clientsOf platform cfg) 0).Pairwise
      (·.fsid < ·.fsid) := List.pairwise_map.2 hsorted
  have : Std.Asymm fun a b : ServedExport => a.fsid < b.fsid := ⟨fun _ _ hlt hgt => UInt32.lt_asymm hlt hgt⟩
  refine List.Perm.eq_of_pairwise' hleft hright ?_
  refine (List.perm_ext_iff_of_nodup (hleft.imp fun hlt heq => ?_) (hright.imp fun hlt heq => ?_)).2 fun entry => ?_
  · exact UInt32.lt_irrefl _ (heq ▸ hlt)
  · exact UInt32.lt_irrefl _ (heq ▸ hlt)
  · simp only [ExportTable.served, List.mem_map]
    constructor
    · rintro ⟨old, hold, rfl⟩
      obtain ⟨cfg, hcfg, hmatches⟩ := h.only old hold
      exact ⟨cfg, hcfg, (hshown hmatches).symm⟩
    · rintro ⟨cfg, hcfg, rfl⟩
      obtain ⟨old, hold, hmatches⟩ := h.all cfg hcfg
      exact ⟨old, hold, hshown hmatches⟩

end LightNfs
