import Mathlib
import LightNfs.Core.CatalogText

/-!
# Time settings of the configuration file

`parse_config` reads every section; here its lines are accepted or refused as in the source, and of the values
only the times are kept: leases, grace, the lifetime of cached replies, the fence lease and the two limits in
seconds and milliseconds. Beside each stands the text it was read from.
-/

namespace LightNfs

open Text Toml

inductive TimeSetting where
  | lease | grace | drcTtl | fenceLease | connIdleTimeout | slowRequest
deriving DecidableEq

/-- `n = n * 10 + (c - '0')` over the leading digits, in 64 bits. -/
def digitsValue (s : Text) : UInt64 :=
  (s.takeWhile Char.isDigit).foldl (fun n c => n * 10 + UInt64.ofNat (c.toNat - '0'.toNat)) 0

/-- `duration_ms_value`, which `drc_ttl` repeats. -/
def durationMsValue (value : Text) : Except Errno UInt64 := do
  let s ← stringValue value
  let suffix := s.dropWhile Char.isDigit
  if s.takeWhile Char.isDigit = [] then throw .inval
  else if suffix = lit "s" ∨ suffix = [] then return digitsValue s * 1000
  else if suffix = lit "ms" then return digitsValue s
  else throw .inval

def secondsOf (s : Text) : Except Errno UInt64 :=
  let suffix := s.dropWhile Char.isDigit
  if s.takeWhile Char.isDigit = [] ∨ ¬(suffix = [] ∨ suffix = lit "s") ∨ digitsValue s = 0 ∨ digitsValue s > 3600 then
    .error .inval
  else .ok (digitsValue s).toUInt32.toUInt64

def TimeSetting.read (value : Text) : TimeSetting → Except Errno UInt64
  | .lease => do secondsOf (← stringValue value)
  | .grace => do
    let s ← stringValue value
    if s = lit "auto" then return 0 else secondsOf s
  | .drcTtl => durationMsValue value
  | .fenceLease => do
    let ms ← durationMsValue value
    if ms < 500 ∨ ms > 60000 then throw .inval else return ms.toUInt32.toUInt64
  | .connIdleTimeout => do
    let n ← uintValue value
    if n > 86400 then throw .inval else return n.toUInt32.toUInt64
  | .slowRequest => do
    let n ← uintValue value
    if n > 3600000 then throw .inval else return n.toUInt32.toUInt64

/-! ### The file -/

inductive ValueKind where
  | bool
  | text
  | texts
  | oneOf (values : List String)
  | number (least most : Nat)
  | size (least most : Nat)
  | time (setting : TimeSetting)

inductive ConfigSection where
  | none | server | limits | protocol | tls | cluster | backendDefaults
deriving DecidableEq

def ConfigSection.keys : ConfigSection → List (String × ValueKind)
  | .none | .backendDefaults => []
  | .server =>
    [("reactors", .number 0 0x7FFFFFFF), ("offload_threads", .number 0 0x7FFFFFFF),
      ("offload_heavy_threads", .number 0 0x7FFFFFFF), ("offload_queue_cap", .number 1 0xFFFFFFFF),
      ("ring", .oneOf ["auto", "uring", "epoll"]), ("ring_sqpoll", .bool), ("bind", .text),
      ("state_shards", .number 1 4096), ("port", .number 0 65535), ("mount_port", .number 0 65535), ("rpcbind", .bool),
      ("builtin_portmap", .bool), ("state_dir", .text), ("max_connections", .number 0 0x7FFFFFFF),
      ("per_peer_limit", .number 1 0x100000), ("conn_idle_timeout", .time .connIdleTimeout), ("ctl_socket", .text),
      ("metrics_port", .number 0 65535), ("metrics_bind", .text), ("metrics_allow", .texts), ("server_owner", .text),
      ("server_scope", .text), ("max_request_size", .size 0 0xFFFFFFFF),
      ("log_level", .oneOf ["debug", "info", "warn", "error"]), ("slow_request_ms", .time .slowRequest),
      ("error_ring", .number 1 65536), ("log_file", .text), ("log_rotate_size", .size 0x10000 0xFFFFFFFFFFFFFFFF),
      ("log_rotate_keep", .number 1 1000)]
  | .limits =>
    [("inflight_per_conn", .number 0 0x7FFFFFFF), ("client_read_bps", .size 0 0xFFFFFFFFFFFFFFFF),
      ("client_write_bps", .size 0 0xFFFFFFFFFFFFFFFF), ("client_iops", .number 0 0xFFFFFFFF)]
  | .protocol =>
    [("v3", .bool), ("v4", .bool), ("delegations", .bool), ("lease", .time .lease), ("grace", .time .grace),
      ("courtesy_multiplier", .number 1 1000), ("drc_ttl", .time .drcTtl), ("drc_mem", .size 0 0xFFFFFFFFFFFFFFFF)]
  | .tls => [("mode", .text), ("cert", .text), ("key", .text), ("ca", .text), ("client_cert", .bool)]
  | .cluster =>
    [("enabled", .bool), ("id", .text), ("shared_dir", .text), ("node", .text), ("role", .text), ("takeover", .text),
      ("takeover_hook", .text), ("mode", .text), ("node_address", .text), ("exports_source", .text),
      ("catalog_refresh", .text), ("fence_lease", .time .fenceLease), ("unsafe_skip_backend_checks", .bool)]

/-- Sections in which a key that is not known is passed over. -/
def ConfigSection.lenient (s : ConfigSection) : Bool := s == .server || s == .limits

structure ConfigReader where
  inSection : ConfigSection := .none
  block : Option ExportBlock := none
  times : TimeSetting → UInt64 := fun
    | .lease => 90 | .grace => 0 | .drcTtl => 120000 | .fenceLease => 3000 | .connIdleTimeout => 0 | .slowRequest => 1000
  written : TimeSetting → Option Text := fun _ => none

def inRange (least most : Nat) (n : UInt64) : Except Errno Unit :=
  if n.toNat < least ∨ n.toNat > most then .error .inval else .ok ()

namespace ConfigReader

variable (reader : ConfigReader)

def set (value : Text) : ValueKind → Except Errno ConfigReader
  | .bool => do let _ ← boolValue value; return reader
  | .text => do let _ ← stringValue value; return reader
  | .texts => do let _ ← stringArray value; return reader
  | .oneOf values => do
    let s ← stringValue value
    if s ∈ values.map lit then return reader else throw .inval
  | .number least most => do inRange least most (← uintValue value); return reader
  | .size least most => do inRange least most (← sizeValue value); return reader
  | .time setting => do
    let n ← setting.read value
    return { reader with
      times := Function.update reader.times setting n
      written := Function.update reader.written setting (some value) }

def header (line : Text) : Except Errno ConfigSection :=
  if line = lit "[server]" then .ok .server
  else if line = lit "[limits]" then .ok .limits
  else if line = lit "[protocol]" then .ok .protocol
  else if line = lit "[tls]" then .ok .tls
  else if line = lit "[cluster]" then .ok .cluster
  else if (lit "[backend_defaults.").isPrefixOf line && line.length > (lit "[backend_defaults.]").length then
    .ok .backendDefaults
  else .error .inval

def setKey (key value : Text) : Except Errno ConfigReader :=
  if reader.inSection = .backendDefaults then
    if perNodeBackendKey key then do let _ ← backendValue value; return reader else .error .inval
  else
    match reader.inSection.keys.find? fun known => lit known.1 == key with
    | some known => reader.set value known.2
    | none => if reader.inSection.lenient then .ok reader else .error .inval

def outside (line : Text) : Except Errno ConfigReader :=
  if line = lit "[[export]]" then .ok { reader with block := some {}, inSection := .none }
  else if line.head? = some '[' && line.getLast? == some ']' then do
    return { reader with inSection := ← header line }
  else
    match splitKey line with
    | none => .error .inval
    | some (key, value) => reader.setKey key value

/-- A line of an `[[export]]` block; here no export is disabled. -/
def blockLine (block : ExportBlock) (line : Text) : Except Errno (Option ExportBlock) :=
  if !block.backendTable && line.head? != some '[' && (splitKey line).any (fun kv => kv.1 == lit "disabled") then
    .error .inval
  else block.line line

def clean (line : Text) : Except Errno ConfigReader :=
  if line = [] then .ok reader
  else
    match reader.block with
    | none => reader.outside line
    | some block =>
      match blockLine block line with
      | .error error => .error error
      | .ok (some block) => .ok { reader with block := some block }
      | .ok none => outside { reader with block := none } line

def line (raw : Text) : Except Errno ConfigReader :=
  reader.clean (Toml.trim (stripComment raw))

end ConfigReader

/-- The number a text begins with. -/
def numberOf (s : Text) : Nat := Nat.ofDigitChars 10 (s.takeWhile Char.isDigit) 0

/-- The time a quoted text says, in the unit of its setting. -/
def TimeSetting.quoted (s : Text) : TimeSetting → Nat
  | .grace => if s = lit "auto" then 0 else numberOf s
  | .drcTtl | .fenceLease => if s.dropWhile Char.isDigit = lit "ms" then numberOf s else numberOf s * 1000
  | _ => numberOf s

variable {n : UInt64} {value : Text}

namespace ConfigReader

/-- Each time is the default or was read from the text beside it. -/
def Reads (reader : ConfigReader) : Prop := ∀ setting,
  (reader.written setting = none → reader.times setting = ({} : ConfigReader).times setting) ∧
    ∀ value, reader.written setting = some value → setting.read value = .ok (reader.times setting)

variable {reader next : ConfigReader}

/-- A reader with the same times. -/
theorem Reads.same (h : Reads reader) (htimes : next.times = reader.times)
    (hwritten : next.written = reader.written) : Reads next := by
  intro setting
  rw [htimes, hwritten]
  exact h setting

theorem Reads.set (h : Reads reader) {value : Text} {kind : ValueKind}
    (hstep : reader.set value kind = .ok next) : Reads next := by
  cases kind with
  | time setting =>
    simp only [ConfigReader.set, bind, Except.bind, pure, Except.pure] at hstep
    cases read : setting.read value with
    | error e => rw [read] at hstep; cases hstep
    | ok n =>
      rw [read] at hstep
      cases hstep
      intro other
      by_cases eq : other = setting
      · subst eq
        simp only [Function.update_self]
        refine ⟨fun none_ => ?_, fun v some_ => ?_⟩
        · cases none_
        · cases some_
          exact read
      · simp only [Function.update_of_ne eq]
        exact h other
  | bool | text | texts | oneOf | number | size =>
    all_goals
      simp only [ConfigReader.set, bind, Except.bind, pure, Except.pure, throw, throwThe, MonadExceptOf.throw] at hstep
      split at hstep
      · cases hstep
      · first
          | (cases hstep; exact h)
          | (split at hstep
             · cases hstep
               try exact h
             · cases hstep
               try exact h)

theorem Reads.setKey (h : Reads reader) {key value : Text}
    (hstep : reader.setKey key value = .ok next) : Reads next := by
  unfold ConfigReader.setKey at hstep
  split at hstep
  · split at hstep
    · simp only [bind, Except.bind, pure, Except.pure] at hstep
      split at hstep
      · cases hstep
      · cases hstep
        exact h
    · cases hstep
  · split at hstep
    · exact h.set hstep
    · split at hstep
      · cases hstep
        exact h
      · cases hstep

theorem Reads.outside (h : Reads reader) {line : Text}
    (hstep : reader.outside line = .ok next) : Reads next := by
  unfold ConfigReader.outside at hstep
  split at hstep
  · cases hstep
    exact h.same rfl rfl
  · split at hstep
    · simp only [bind, Except.bind, pure, Except.pure] at hstep
      split at hstep
      · cases hstep
      · cases hstep
        exact h.same rfl rfl
    · split at hstep
      · cases hstep
      · exact h.setKey hstep

theorem Reads.line (h : Reads reader) {raw : Text}
    (hstep : reader.line raw = .ok next) : Reads next := by
  unfold ConfigReader.line ConfigReader.clean at hstep
  split at hstep
  · cases hstep
    exact h
  · split at hstep
    · exact h.outside hstep
    · split at hstep
      · cases hstep
      · cases hstep
        exact h.same rfl rfl
      · refine Reads.outside ?_ hstep
        exact h.same rfl rfl

theorem Reads.lines {raws : List Text} : ∀ {reader next : ConfigReader}, Reads reader →
    raws.foldlM ConfigReader.line reader = .ok next → Reads next := by
  induction raws with
  | nil =>
    intro reader next h step
    cases step
    exact h
  | cons raw raws ih =>
    intro reader next h step
    rw [List.foldlM_cons] at step
    cases first : reader.line raw with
    | error e => rw [first] at step; cases step
    | ok between =>
      rw [first] at step
      exact ih (h.line first) step

end ConfigReader

end LightNfs
