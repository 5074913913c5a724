import Mathlib
import LightNfs.Cluster.Files
import LightNfs.Core.Exports
import LightNfs.Core.Toml
import LightNfs.Lib.SortedMap

/-!
# The export catalog

The document that all gateways of a cluster take their exports from (`core/catalog.cpp`): what it says, when it is
valid, how two versions differ and what one host makes of it.
-/

namespace LightNfs

open Text

/-! ### Documents -/

/-- `BackendConfig::values`: the options of a backend by name. -/
abbrev Options := SortedMap Text Text

/-- `ExportConfig`; of `backend_config` only the options, since its path and id are those of the export. -/
structure ExportConfig where
  path : Text := []
  backend : Text := lit "local"
  fsid : UInt32 := 0
  clients : List Text := [lit "0.0.0.0/0", lit "::/0"]
  squash : Squash := .root
  anonUid : UInt32 := 65534
  anonGid : UInt32 := 65534
  readonly : Bool := false
  securePorts : Bool := true
  strictReaddirCookies : Bool := true
  readBps : UInt64 := 0
  writeBps : UInt64 := 0
  iops : UInt32 := 0
  nodes : List Text := []
  options : Options := .empty
deriving DecidableEq

structure CatalogMeta where
  version : UInt64 := 0
  updatedAt : Text := []
  updatedBy : Text := []
  comment : Text := []
deriving DecidableEq

/-- An export of the catalog; a disabled one keeps its id and is not served. -/
structure CatalogExport where
  cfg : ExportConfig := {}
  disabled : Bool := false
deriving DecidableEq

structure Catalog where
  info : CatalogMeta := {}
  exports : List CatalogExport := []
deriving DecidableEq

def sortByFsid (exports : List CatalogExport) : List CatalogExport :=
  exports.insertionSort fun a b => a.cfg.fsid ≤ b.cfg.fsid

variable {defaults : SortedMap Text Options} {exports : List CatalogExport} {catalog : Catalog}
  {merged : List ExportConfig} {cfg : ExportConfig} {activeActive : Bool} {exp : CatalogExport}
variable {fsid : UInt32}

theorem sorted_of_distinct {α : Type*} (id : α → UInt32) {l : List α} (h : l.Pairwise (id · ≠ id ·)) :
    (l.insertionSort fun a b => id a ≤ id b).Pairwise (id · < id ·) := by
  have : Std.Total (fun a b : α => id a ≤ id b) := ⟨fun a b => UInt32.le_total (id a) (id b)⟩
  have : IsTrans α (fun a b => id a ≤ id b) := ⟨fun _ _ _ => UInt32.le_trans⟩
  have hsorted := List.pairwise_insertionSort (fun a b : α => id a ≤ id b) l
  have hdistinct : (l.insertionSort fun a b => id a ≤ id b).Pairwise (id · ≠ id ·) :=
    (List.perm_insertionSort ..).symm.pairwise h fun hne => hne.symm
  exact (hsorted.and hdistinct).imp fun {a b} hab => UInt32.lt_of_le_of_ne hab.1 hab.2

theorem eq_of_distinct {α : Type*} (id : α → UInt32) {l : List α} (h : l.Pairwise (id · ≠ id ·)) {a b : α}
    (ha : a ∈ l) (hb : b ∈ l) (hid : id a = id b) : a = b :=
  List.inj_on_of_nodup_map (List.pairwise_map.2 h) ha hb hid

/-- `kPerNodeBackendKeys`: what each host says for itself. -/
def perNodeBackendKeys : List Text :=
  [lit "conf", lit "keyring", lit "id", lit "user", lit "name", lit "log_file", lit "fd_cache", lit "mon_host"]

def perNodeBackendKey (key : Text) : Bool := perNodeBackendKeys.contains key

/-- `cluster_backend_keys`: the options that are part of an export's identity. -/
def clusterBackendKeys (options : Options) : Options := options.filterKeys fun key => !perNodeBackendKey key

def stripPerNodeKeys (exp : CatalogExport) : CatalogExport :=
  { exp with cfg := { exp.cfg with options := clusterBackendKeys exp.cfg.options } }

/-! ### Platforms -/

/-- The backends that `register_builtin_backends` can register. -/
def builtinBackends : List Text := [lit "local", lit "gluster", lit "lustre", lit "cephfs"]

/-- What the build and the C library decide: the backends that are compiled in, and `inet_pton`, which knows
addresses by their characters. -/
structure Platform where
  backends : List Text
  inetPton : Family → Text → Option Bytes
  backends_builtin : backends ⊆ builtinBackends
  inetPton_chars : ∀ family host addr, inetPton family host = some addr →
    ∀ c ∈ host, c.isAlphanum = true ∨ c = '.' ∨ c = ':'

variable {platform : Platform}

/-- A C library whose `inet_pton` knows one address of each family. -/
def plainPlatform : Platform where
  backends := builtinBackends
  inetPton family host :=
    match family with
    | .inet => if host = lit "0.0.0.0" then some (List.replicate 4 0) else none
    | .inet6 => if host = lit "::" then some (List.replicate 16 0) else none
  backends_builtin := fun _ h => h
  inetPton_chars := by
    have hchars : ∀ host ∈ [lit "0.0.0.0", lit "::"], ∀ c ∈ host, c.isAlphanum = true ∨ c = '.' ∨ c = ':' := by
      simp [lit_def]
    intro family host addr haddr
    cases family <;> (dsimp only at haddr; split at haddr <;> simp_all)

/-- A text up to its first NUL, as `c_str` shows it to C. -/
def cStr (t : Text) : Text := t.takeWhile (· != '\x00')

namespace Cidr

/-- The prefix length of an address, `most` when none is given. -/
def prefixValue (most : UInt64) : Option Text → Except Errno UInt8
  | none => .ok most.toUInt8
  | some value => do
    let n ← Toml.uintValue value
    if n > most then throw .inval
    return n.toUInt8

def parse (platform : Platform) (value : Text) : Except Errno Cidr := do
  let (host, rest) := cut '/' value
  let text := value.map fun c => UInt8.ofNat c.toNat
  match platform.inetPton .inet (cStr host) with
  | some address => return ⟨.inet, address, ← prefixValue 32 rest, text⟩
  | none =>
    match platform.inetPton .inet6 (cStr host) with
    | some address => return ⟨.inet6, address, ← prefixValue 128 rest, text⟩
    | none => .error .inval

end Cidr

/-! ### Validity -/

structure Refusal where
  error : Errno
  why : Text
deriving DecidableEq

/-- Checks in their order; the first one that fails refuses. -/
def firstRefusal : List (Bool × Refusal) → Except Refusal Unit
  | [] => .ok ()
  | (failed, refusal) :: checks => if failed then .error refusal else firstRefusal checks

theorem firstRefusal_ok {checks : List (Bool × Refusal)} :
    firstRefusal checks = .ok () ↔ ∀ check ∈ checks, check.1 = false := by
  induction checks with
  | nil => simp [firstRefusal]
  | cons check checks ih =>
    obtain ⟨failed, refusal⟩ := check
    cases failed <;> simp [firstRefusal, ih]

/-- `inner` lives under `outer`. -/
def nestedPath (outer inner : Text) : Bool :=
  inner.length > outer.length && outer.isPrefixOf inner && (outer == ['/'] || inner[outer.length]? == some '/')

/-- The first entry of `nodes` that `valid_export_nodes` refuses. -/
def badNode (earlier : List Text) : List Text → Option Text
  | [] => none
  | node :: nodes =>
    if !validClusterNodeName node || earlier.contains node then some node else badNode (node :: earlier) nodes

def ExportConfig.label (cfg : ExportConfig) : Text := lit "export fsid=" ++ decimal cfg.fsid.toNat

/-- The path of an export is taken by another, or lies in another's tree. -/
def pathChecks (other cfg : ExportConfig) : List (Bool × Refusal) :=
  let nested (inner outer : ExportConfig) : Text := inner.label ++ lit " (" ++ inner.path ++ lit ") is nested in fsid=" ++
    decimal outer.fsid.toNat ++ lit " (" ++ outer.path ++ lit "): export paths must not be prefixes of one another"
  [(other.path == cfg.path, ⟨.inval, other.label ++ lit " and fsid=" ++ decimal cfg.fsid.toNat ++ lit " share path " ++
      cfg.path⟩),
    (nestedPath other.path cfg.path, ⟨.inval, nested cfg other⟩),
    (nestedPath cfg.path other.path, ⟨.inval, nested other cfg⟩)]

/-- What `validate_catalog` checks of one export, given those before it. -/
def exportChecks (platform : Platform) (activeActive : Bool) (earlier : List ExportConfig) (cfg : ExportConfig) :
    List (Bool × Refusal) :=
  [(cfg.fsid == 0, ⟨.inval, lit "export path=" ++ cfg.path ++ lit ": fsid must be non-zero"⟩),
    (earlier.any (·.fsid == cfg.fsid), ⟨.inval, cfg.label ++ lit ": fsid is listed twice"⟩),
    (cfg.path.head? != some '/' || Toml.normalizePath cfg.path != cfg.path,
      ⟨.inval, cfg.label ++ lit ": path must be absolute with no trailing slash"⟩),
    (!platform.backends.contains cfg.backend,
      ⟨.nodev, cfg.label ++ lit ": no such backend \"" ++ cfg.backend ++ lit "\" in this build"⟩)] ++
  (cfg.options.entries.map fun option => (perNodeBackendKey option.1,
    ⟨.inval, cfg.label ++ lit ": \"" ++ option.1 ++ lit "\" is a per-node key: put it in each gateway's " ++
      lit "[backend_defaults." ++ cfg.backend ++ lit "], not in the catalog"⟩)) ++
  [(activeActive && cfg.nodes.isEmpty, ⟨.inval, cfg.label ++ lit ": nodes is required under active-active"⟩),
    ((badNode [] cfg.nodes).isSome, ⟨.inval, cfg.label ++ lit ": nodes has an invalid or duplicate entry \"" ++
      (badNode [] cfg.nodes).getD [] ++ lit "\""⟩),
    (cfg.clients.isEmpty, ⟨.inval, cfg.label ++ lit ": clients must not be empty"⟩)] ++
  (cfg.clients.map fun client => (!(Cidr.parse platform client).isOk,
    ⟨.inval, cfg.label ++ lit ": bad client CIDR \"" ++ client ++ lit "\""⟩)) ++
  earlier.flatMap fun other => pathChecks other cfg

def validateExports (platform : Platform) (activeActive : Bool) (earlier : List ExportConfig) :
    List CatalogExport → Except Refusal Unit
  | [] => .ok ()
  | exp :: exports => do
    firstRefusal (exportChecks platform activeActive earlier exp.cfg)
    validateExports platform activeActive (earlier ++ [exp.cfg]) exports

/-- The option that names the volume of a connection, for the backends that have one per volume. -/
def sharedKey (backend : Text) : Option Text :=
  if backend = lit "gluster" then some (lit "volume") else if backend = lit "lustre" then some (lit "mount") else none

def sameVolumeGroups (exports : List ExportConfig) : SortedMap Text (List ExportConfig) :=
  exports.foldl (fun groups exp =>
    match sharedKey exp.backend with
    | none => groups
    | some key =>
      let group := exp.backend ++ lit ":" ++ (exp.options.find key).getD []
      groups.put group ((groups.find group).getD [] ++ [exp])) .empty

/-- `check_same_volume_nodes`. -/
def sameVolumeChecks (exports : List ExportConfig) : List (Bool × Refusal) :=
  (sameVolumeGroups exports).entries.flatMap fun (_, members) =>
    match members with
    | [] => []
    | first :: _ => members.map fun exp => (exp.nodes != first.nodes,
        ⟨.inval, first.label ++ lit " and fsid=" ++ decimal exp.fsid.toNat ++ lit " share one " ++ first.backend ++
          lit " " ++ (sharedKey first.backend).getD [] ++ lit " but list different nodes: a " ++ first.backend ++
          lit " connection is per volume, so their owner lists must match (design 10 §10.6)"⟩)

def validateCatalog (platform : Platform) (activeActive : Bool) (catalog : Catalog) : Except Refusal Unit := do
  validateExports platform activeActive [] catalog.exports
  if activeActive then firstRefusal (sameVolumeChecks (catalog.exports.map (·.cfg)))

/-- What a valid document says of each of its exports. -/
structure ExportValid (platform : Platform) (cfg : ExportConfig) : Prop where
  fsid_ne_zero : cfg.fsid ≠ 0
  path_normal : Toml.normalizePath cfg.path = cfg.path
  backend_known : cfg.backend ∈ platform.backends
  no_per_node : ∀ option ∈ cfg.options.entries, perNodeBackendKey option.1 = false
  nodes_valid : badNode [] cfg.nodes = none
  clients_parse : ∀ client ∈ cfg.clients, ∃ cidr, Cidr.parse platform client = .ok cidr

theorem exportValid_of_checks {earlier : List ExportConfig}
    (h : ∀ check ∈ exportChecks platform activeActive earlier cfg, check.1 = false) :
    ExportValid platform cfg ∧ ∀ other ∈ earlier, other.fsid ≠ cfg.fsid := by
  simp only [exportChecks, List.mem_append, List.mem_cons, List.mem_map, List.mem_flatMap, List.not_mem_nil, or_false]
    at h
  have hzero := h _ (.inl (.inl (.inl (.inl (.inl rfl)))))
  have htwice := h _ (.inl (.inl (.inl (.inl (.inr (.inl rfl))))))
  have hpath := h _ (.inl (.inl (.inl (.inl (.inr (.inr (.inl rfl)))))))
  have hbackend := h _ (.inl (.inl (.inl (.inl (.inr (.inr (.inr rfl)))))))
  have hnodes := h _ (.inl (.inl (.inr (.inr (.inl rfl)))))
  refine ⟨⟨?_, ?_, ?_, ?_, ?_, ?_⟩, ?_⟩
  · simpa using hzero
  · simp only [Bool.or_eq_false_iff, bne_eq_false_iff_eq] at hpath
    exact hpath.2
  · simpa using hbackend
  · exact fun option hoption => h _ (.inl (.inl (.inl (.inr ⟨option, hoption, rfl⟩))))
  · simpa using hnodes
  · intro client hclient
    have hparse := h _ (.inl (.inr ⟨client, hclient, rfl⟩))
    cases hcidr : Cidr.parse platform client with
    | ok cidr => exact ⟨cidr, rfl⟩
    | error => simp [hcidr, Except.isOk, Except.toBool] at hparse
  · simpa using htwice

theorem exportsValid {earlier : List ExportConfig} (h : validateExports platform activeActive earlier exports = .ok ()) :
    (∀ exp ∈ exports, ExportValid platform exp.cfg ∧ ∀ other ∈ earlier, other.fsid ≠ exp.cfg.fsid) ∧
      exports.Pairwise (·.cfg.fsid ≠ ·.cfg.fsid) := by
  induction exports generalizing earlier with
  | nil => exact ⟨nofun, .nil⟩
  | cons exp exports ih =>
    simp only [validateExports, bind, Except.bind] at h
    split at h <;> try contradiction
    rename_i hfirst
    have hchecks := exportValid_of_checks (firstRefusal_ok.1 hfirst)
    obtain ⟨hall, hdistinct⟩ := ih h
    refine ⟨fun e he => ?_, List.pairwise_cons.2 ⟨fun e he => ?_, hdistinct⟩⟩
    · rcases List.mem_cons.1 he with rfl | he
      · exact hchecks
      · exact ⟨(hall e he).1, fun other hother => (hall e he).2 other (List.mem_append_left _ hother)⟩
    · exact (hall e he).2 exp.cfg (List.mem_append_right _ List.mem_cons_self)

theorem catalogValid
    (h : validateCatalog platform activeActive catalog = .ok ()) :
    (∀ exp ∈ catalog.exports, ExportValid platform exp.cfg) ∧ catalog.exports.Pairwise (·.cfg.fsid ≠ ·.cfg.fsid) := by
  simp only [validateCatalog, bind, Except.bind] at h
  split at h <;> try contradiction
  rename_i hexports
  obtain ⟨hall, hdistinct⟩ := exportsValid hexports
  exact ⟨fun exp hexp => (hall exp hexp).1, hdistinct⟩

/-! ### Differences -/

/-- The ids of a document in order, each once: the keys of the maps in `diff_catalog`. -/
def Catalog.fsids (catalog : Catalog) : List UInt32 :=
  (catalog.exports.map (·.cfg.fsid)).dedup.insertionSort (· ≤ ·)

/-- The export of an id in those maps, which keep the last one. -/
def Catalog.last (catalog : Catalog) (fsid : UInt32) : Option CatalogExport :=
  catalog.exports.reverse.find? (·.cfg.fsid == fsid)

structure CatalogDiff where
  added : List UInt32
  removed : List UInt32
  disabled : List UInt32
  enabled : List UInt32
  nodesChanged : List UInt32
  dynamicChanged : List UInt32
  rejected : List UInt32
deriving DecidableEq

/-- Path, backend and the options that all hosts share. -/
def sameIdentity (a b : ExportConfig) : Bool :=
  a.path == b.path && a.backend == b.backend && clusterBackendKeys a.options == clusterBackendKeys b.options

def dynamicDiffers (a b : ExportConfig) : Bool :=
  a.clients != b.clients || a.readBps != b.readBps || a.writeBps != b.writeBps || a.iops != b.iops ||
    a.readonly != b.readonly || a.securePorts != b.securePorts ||
    a.strictReaddirCookies != b.strictReaddirCookies || a.squash != b.squash || a.anonUid != b.anonUid ||
    a.anonGid != b.anonGid

/-- The ids that both documents list with exports the test holds of. -/
def keptFsids (old new : Catalog) (test : CatalogExport → CatalogExport → Bool) : List UInt32 :=
  new.fsids.filter fun fsid =>
    match old.last fsid, new.last fsid with
    | some a, some b => test a b
    | _, _ => false

def diffCatalog (old new : Catalog) : CatalogDiff :=
  let changed (test : CatalogExport → CatalogExport → Bool) : List UInt32 :=
    keptFsids old new fun a b => sameIdentity a.cfg b.cfg && test a b
  { removed := old.fsids.filter fun fsid => (new.last fsid).isNone
    added := new.fsids.filter fun fsid => (old.last fsid).isNone
    rejected := keptFsids old new fun a b => !sameIdentity a.cfg b.cfg
    disabled := changed fun a b => !a.disabled && b.disabled
    enabled := changed fun a b => a.disabled && !b.disabled
    nodesChanged := changed fun a b => a.cfg.nodes != b.cfg.nodes
    dynamicChanged := changed fun a b => dynamicDiffers a.cfg b.cfg }

/-- The ids of a document are different, as `validate_catalog` wants them. -/
def Catalog.Distinct (catalog : Catalog) : Prop := catalog.exports.Pairwise (·.cfg.fsid ≠ ·.cfg.fsid)

theorem mem_fsids :
    fsid ∈ catalog.fsids ↔ ∃ exp ∈ catalog.exports, exp.cfg.fsid = fsid := by
  simp [Catalog.fsids]

theorem last_eq_some_iff (h : catalog.Distinct) :
    catalog.last fsid = some exp ↔ exp ∈ catalog.exports ∧ exp.cfg.fsid = fsid := by
  constructor
  · intro hlast
    exact ⟨List.mem_reverse.1 (List.mem_of_find?_eq_some hlast), by simpa using List.find?_some hlast⟩
  · rintro ⟨hexp, rfl⟩
    obtain ⟨other, hother⟩ : ∃ other, catalog.last exp.cfg.fsid = some other :=
      Option.isSome_iff_exists.1 (List.find?_isSome.2 ⟨exp, List.mem_reverse.2 hexp, by simp⟩)
    have hmem := List.mem_reverse.1 (List.mem_of_find?_eq_some hother)
    have hfsid : other.cfg.fsid = exp.cfg.fsid := by simpa using List.find?_some hother
    rw [hother, eq_of_distinct (fun exp : CatalogExport => exp.cfg.fsid) h hmem hexp hfsid]

theorem last_eq_none_iff :
    catalog.last fsid = none ↔ ∀ exp ∈ catalog.exports, exp.cfg.fsid ≠ fsid := by
  simp [Catalog.last]

theorem mem_keptFsids {old new : Catalog} (hold : old.Distinct) (hnew : new.Distinct)
    {test : CatalogExport → CatalogExport → Bool} :
    fsid ∈ keptFsids old new test ↔
      ∃ a ∈ old.exports, ∃ b ∈ new.exports, a.cfg.fsid = fsid ∧ b.cfg.fsid = fsid ∧ test a b = true := by
  rw [keptFsids, List.mem_filter, mem_fsids]
  constructor
  · rintro ⟨-, htest⟩
    split at htest <;> try contradiction
    rename_i a b ha hb
    obtain ⟨ha, hafsid⟩ := (last_eq_some_iff hold).1 ha
    obtain ⟨hb, hbfsid⟩ := (last_eq_some_iff hnew).1 hb
    exact ⟨a, ha, b, hb, hafsid, hbfsid, htest⟩
  · rintro ⟨a, ha, b, hb, hafsid, hbfsid, htest⟩
    refine ⟨⟨b, hb, hbfsid⟩, ?_⟩
    rw [(last_eq_some_iff hold).2 ⟨ha, hafsid⟩, (last_eq_some_iff hnew).2 ⟨hb, hbfsid⟩]
    exact htest

/-! ### One host's exports -/

/-- The options of a host's `[backend_defaults]` put over those of an export. -/
def mergeDefaults (defaults : SortedMap Text Options) (cfg : ExportConfig) : Except Errno ExportConfig :=
  let stripped := clusterBackendKeys cfg.options
  match defaults.find cfg.backend with
  | none => .ok { cfg with options := stripped }
  | some values =>
    if values.entries.all fun option => perNodeBackendKey option.1 then
      .ok { cfg with options := values.entries.foldl (fun options option => options.put option.1 option.2) stripped }
    else .error .inval

def mergeEach (defaults : SortedMap Text Options) : List CatalogExport → Except Errno (List ExportConfig)
  | [] => .ok []
  | exp :: exports =>
    if exp.disabled then mergeEach defaults exports
    else do return (← mergeDefaults defaults exp.cfg) :: (← mergeEach defaults exports)

def mergeWithLocal (catalog : Catalog) (defaults : SortedMap Text Options) : Except Errno (List ExportConfig) := do
  return (← mergeEach defaults catalog.exports).insertionSort fun a b => a.fsid ≤ b.fsid

theorem mergeDefaults_ok {merged : ExportConfig}
    (h : mergeDefaults defaults cfg = .ok merged) : ∃ options, merged = { cfg with options } := by
  simp only [mergeDefaults] at h
  split at h
  · cases h
    exact ⟨_, rfl⟩
  · split at h <;> try contradiction
    cases h
    exact ⟨_, rfl⟩

theorem mergeDefaults_fsid {merged : ExportConfig}
    (h : mergeDefaults defaults cfg = .ok merged) : merged.fsid = cfg.fsid := by
  obtain ⟨options, rfl⟩ := mergeDefaults_ok h
  rfl

theorem mergeEach_cons (h : mergeEach defaults (exp :: exports) = .ok merged) :
    exp.disabled = true ∧ mergeEach defaults exports = .ok merged ∨
      exp.disabled = false ∧ ∃ first rest, mergeDefaults defaults exp.cfg = .ok first ∧
        mergeEach defaults exports = .ok rest ∧ merged = first :: rest := by
  unfold mergeEach at h
  split at h
  case isTrue hdisabled => exact .inl ⟨hdisabled, h⟩
  case isFalse hdisabled =>
    simp only [bind, Except.bind, pure, Except.pure] at h
    split at h <;> try contradiction
    rename_i first hfirst
    split at h <;> try contradiction
    rename_i rest hrest
    cases h
    exact .inr ⟨Bool.eq_false_of_not_eq_true hdisabled, first, rest, hfirst, hrest, rfl⟩

theorem mem_mergeEach
    (h : mergeEach defaults exports = .ok merged) :
    cfg ∈ merged ↔ ∃ exp ∈ exports, exp.disabled = false ∧ mergeDefaults defaults exp.cfg = .ok cfg := by
  induction exports generalizing merged with
  | nil =>
    cases h
    simp
  | cons exp exports ih =>
    obtain ⟨hdisabled, hrest⟩ | ⟨henabled, first, rest, hfirst, hrest, rfl⟩ := mergeEach_cons h
    · simp [ih hrest, hdisabled]
    · simp only [List.mem_cons, exists_eq_or_imp, ih hrest, hfirst, henabled, true_and, Except.ok.injEq]
      exact or_congr_left eq_comm

theorem mergeEach_all
    (h : mergeEach defaults exports = .ok merged) (hexp : exp ∈ exports)
    (henabled : exp.disabled = false) : ∃ cfg, mergeDefaults defaults exp.cfg = .ok cfg := by
  induction exports generalizing merged with
  | nil => exact absurd hexp List.not_mem_nil
  | cons first exports ih =>
    obtain ⟨hdisabled, hrest⟩ | ⟨-, cfg, rest, hfirst, hrest, -⟩ := mergeEach_cons h
    · rcases List.mem_cons.1 hexp with rfl | hexp
      · rw [henabled] at hdisabled
        contradiction
      · exact ih hrest hexp
    · rcases List.mem_cons.1 hexp with rfl | hexp
      · exact ⟨cfg, hfirst⟩
      · exact ih hrest hexp

theorem mergeEach_distinct (h : mergeEach defaults exports = .ok merged)
    (hdistinct : exports.Pairwise (·.cfg.fsid ≠ ·.cfg.fsid)) : merged.Pairwise (·.fsid ≠ ·.fsid) := by
  induction exports generalizing merged with
  | nil =>
    cases h
    exact .nil
  | cons exp exports ih =>
    obtain ⟨hother, hrestDistinct⟩ := List.pairwise_cons.1 hdistinct
    obtain ⟨-, hrest⟩ | ⟨-, first, rest, hfirst, hrest, rfl⟩ := mergeEach_cons h
    · exact ih hrest hrestDistinct
    · refine List.pairwise_cons.2 ⟨fun cfg hcfg => ?_, ih hrest hrestDistinct⟩
      obtain ⟨other, hmem, -, hmerge⟩ := (mem_mergeEach hrest).1 hcfg
      rw [mergeDefaults_fsid hfirst, mergeDefaults_fsid hmerge]
      exact hother other hmem

/-- What a host makes of a document: its enabled exports in order, each with the host's options. -/
structure MergedFrom (defaults : SortedMap Text Options) (catalog : Catalog) (merged : List ExportConfig) : Prop where
  mem : ∀ cfg, cfg ∈ merged ↔ ∃ exp ∈ catalog.exports, exp.disabled = false ∧ mergeDefaults defaults exp.cfg = .ok cfg
  all : ∀ exp ∈ catalog.exports, exp.disabled = false → ∃ cfg, mergeDefaults defaults exp.cfg = .ok cfg
  sorted : merged.Pairwise (·.fsid < ·.fsid)

theorem mergedFrom
    (h : mergeWithLocal catalog defaults = .ok merged) (hdistinct : catalog.Distinct) :
    MergedFrom defaults catalog merged := by
  simp only [mergeWithLocal, bind, Except.bind, pure, Except.pure] at h
  split at h <;> try contradiction
  rename_i each heach
  cases h
  refine ⟨fun cfg => ?_, fun exp => mergeEach_all heach, sorted_of_distinct _ (mergeEach_distinct heach hdistinct)⟩
  rw [List.mem_insertionSort, mem_mergeEach heach]

namespace MergedFrom

variable {defaults : SortedMap Text Options} {catalog : Catalog} {merged : List ExportConfig}

theorem distinct (h : MergedFrom defaults catalog merged) : merged.Pairwise (·.fsid ≠ ·.fsid) :=
  h.sorted.imp UInt32.ne_of_lt

theorem fsid_iff (h : MergedFrom defaults catalog merged) {fsid : UInt32} :
    (∃ cfg ∈ merged, cfg.fsid = fsid) ↔ ∃ exp ∈ catalog.exports, exp.disabled = false ∧ exp.cfg.fsid = fsid := by
  constructor
  · rintro ⟨cfg, hcfg, rfl⟩
    obtain ⟨exp, hexp, henabled, hmerge⟩ := (h.mem cfg).1 hcfg
    exact ⟨exp, hexp, henabled, (mergeDefaults_fsid hmerge).symm⟩
  · rintro ⟨exp, hexp, henabled, rfl⟩
    obtain ⟨cfg, hmerge⟩ := h.all exp hexp henabled
    exact ⟨cfg, (h.mem cfg).2 ⟨exp, hexp, henabled, hmerge⟩, mergeDefaults_fsid hmerge⟩

end MergedFrom

end LightNfs
