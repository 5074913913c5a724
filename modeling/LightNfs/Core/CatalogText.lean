import LightNfs.Core.Catalog

/-!
# The text of the catalog

`serialize_catalog`, `parse_catalog` and `peek_catalog_version`. Every value is written so that it is read back; the
names of backend options are written as they are.
-/

namespace LightNfs

open Text Toml

/-! ### Writing -/

inductive ExportKey where
  | path | fsid | backend | nodes | clients | readonly | securePorts | strictReaddirCookies | squash | anonUid
  | anonGid | readBps | writeBps | iops | disabled
deriving DecidableEq

namespace ExportKey

/-- In the order of the canonical text. -/
def all : List ExportKey :=
  [path, fsid, backend, nodes, clients, readonly, securePorts, strictReaddirCookies, squash, anonUid, anonGid, readBps,
    writeBps, iops, disabled]

def text : ExportKey → Text
  | path => lit "path"
  | fsid => lit "fsid"
  | backend => lit "backend"
  | nodes => lit "nodes"
  | clients => lit "clients"
  | readonly => lit "readonly"
  | securePorts => lit "secure_ports"
  | strictReaddirCookies => lit "strict_readdir_cookies"
  | squash => lit "squash"
  | anonUid => lit "anon_uid"
  | anonGid => lit "anon_gid"
  | readBps => lit "read_bps"
  | writeBps => lit "write_bps"
  | iops => lit "iops"
  | disabled => lit "disabled"

end ExportKey

def Squash.text : Squash → Text
  | .none => lit "none"
  | .root => lit "root"
  | .all => lit "all"

def CatalogExport.valueText (exp : CatalogExport) : ExportKey → Text
  | .path => quote exp.cfg.path
  | .fsid => decimal exp.cfg.fsid.toNat
  | .backend => quote exp.cfg.backend
  | .nodes => quoteArray exp.cfg.nodes
  | .clients => quoteArray exp.cfg.clients
  | .readonly => boolText exp.cfg.readonly
  | .securePorts => boolText exp.cfg.securePorts
  | .strictReaddirCookies => boolText exp.cfg.strictReaddirCookies
  | .squash => quote exp.cfg.squash.text
  | .anonUid => decimal exp.cfg.anonUid.toNat
  | .anonGid => decimal exp.cfg.anonGid.toNat
  | .readBps => decimal exp.cfg.readBps.toNat
  | .writeBps => decimal exp.cfg.writeBps.toNat
  | .iops => decimal exp.cfg.iops.toNat
  | .disabled => boolText exp.disabled

/-- `[export.<backend>]` and the options below it. -/
def optionLines (cfg : ExportConfig) : List Text :=
  match (clusterBackendKeys cfg.options).entries with
  | [] => []
  | options => (lit "[export." ++ cfg.backend ++ lit "]") ::
      options.map fun option => keyLine option.1 (backendValueText option.2)

def exportLines (exp : CatalogExport) : List Text :=
  [] :: lit "[[export]]" :: ExportKey.all.map (fun key => keyLine key.text (exp.valueText key)) ++ optionLines exp.cfg

def headerLines (info : CatalogMeta) : List Text :=
  [lit "[catalog]", keyLine (lit "version") (decimal info.version.toNat),
    keyLine (lit "updated_at") (quote info.updatedAt), keyLine (lit "updated_by") (quote info.updatedBy),
    keyLine (lit "comment") (quote info.comment)]

def serializeCatalog (catalog : Catalog) : Text :=
  unlines (headerLines catalog.info ++ (sortByFsid catalog.exports).flatMap exportLines)

/-! ### Reading -/

def Squash.ofText (t : Text) : Except Errno Squash :=
  if t = lit "none" then .ok .none else if t = lit "root" then .ok .root else if t = lit "all" then .ok .all
  else .error .inval

/-- The value of a key, as `ExportBlockParser::line` takes it. -/
def CatalogExport.set (exp : CatalogExport) (value : Text) : ExportKey → Except Errno CatalogExport
  | .path => do return { exp with cfg := { exp.cfg with path := Toml.normalizePath (← stringValue value) } }
  | .fsid => do return { exp with cfg := { exp.cfg with fsid := ← u32Value value } }
  | .backend => do return { exp with cfg := { exp.cfg with backend := ← stringValue value } }
  | .nodes => do return { exp with cfg := { exp.cfg with nodes := ← stringArray value } }
  | .clients => do return { exp with cfg := { exp.cfg with clients := ← stringArray value } }
  | .readonly => do return { exp with cfg := { exp.cfg with readonly := ← boolValue value } }
  | .securePorts => do return { exp with cfg := { exp.cfg with securePorts := ← boolValue value } }
  | .strictReaddirCookies => do return { exp with cfg := { exp.cfg with strictReaddirCookies := ← boolValue value } }
  | .squash => do return { exp with cfg := { exp.cfg with squash := ← Squash.ofText (← stringValue value) } }
  | .anonUid => do return { exp with cfg := { exp.cfg with anonUid := ← u32Value value } }
  | .anonGid => do return { exp with cfg := { exp.cfg with anonGid := ← u32Value value } }
  | .readBps => do return { exp with cfg := { exp.cfg with readBps := ← sizeValue value } }
  | .writeBps => do return { exp with cfg := { exp.cfg with writeBps := ← sizeValue value } }
  | .iops => do return { exp with cfg := { exp.cfg with iops := ← u32Value value } }
  | .disabled => do return { exp with disabled := ← boolValue value }

/-- `ExportBlockParser`: the export that is filled, and whether its options have begun. -/
structure ExportBlock where
  exp : CatalogExport := {}
  backendTable : Bool := false
deriving DecidableEq

/-- A key of the export or, below `[export.<backend>]`, an option. -/
def ExportBlock.setKey (block : ExportBlock) (key value : Text) : Except Errno ExportBlock :=
  if block.backendTable then do
    let read ← backendValue value
    return { block with exp := { block.exp with cfg := { block.exp.cfg with
      options := block.exp.cfg.options.put key read } } }
  else
    match ExportKey.all.find? (·.text = key) with
    | some key => do return { block with exp := ← block.exp.set value key }
    | none => .error .inval

/-- `ExportBlockParser::line`; nothing when the line ends the block. -/
def ExportBlock.line (block : ExportBlock) (line : Text) : Except Errno (Option ExportBlock) :=
  if line.head? = some '[' then
    if (lit "[export.").isPrefixOf line && line.getLast? == some ']' then .ok (some { block with backendTable := true })
    else .ok none
  else
    match splitKey line with
    | none => .error .inval
    | some (key, value) => do return some (← block.setKey key value)

/-- What `parse_catalog` has read: the finished exports, the one that is filled, and the header. -/
structure CatalogReader where
  info : CatalogMeta := {}
  exports : List CatalogExport := []
  block : Option ExportBlock := none
  header : Bool := false
  version : Bool := false
  inHeader : Bool := false

namespace CatalogReader

variable (reader : CatalogReader)

/-- The exports up to now, the one that is filled included. -/
def allExports : List CatalogExport := reader.exports ++ (reader.block.map (·.exp)).toList

def close : CatalogReader := { reader with exports := reader.allExports, block := none }

def headerKey (key value : Text) : Except Errno CatalogReader :=
  if key = lit "version" then do
    return { reader with info := { reader.info with version := ← uintValue value }, version := true }
  else if key = lit "updated_at" then do
    return { reader with info := { reader.info with updatedAt := ← stringValue value } }
  else if key = lit "updated_by" then do
    return { reader with info := { reader.info with updatedBy := ← stringValue value } }
  else if key = lit "comment" then do
    return { reader with info := { reader.info with comment := ← stringValue value } }
  else .error .inval

def outside (line : Text) : Except Errno CatalogReader :=
  if line = lit "[[export]]" then .ok { reader.close with block := some {}, inHeader := false }
  else if line.head? = some '[' && line.getLast? == some ']' then
    if line ≠ lit "[catalog]" ∨ reader.header then .error .inval
    else .ok { reader with header := true, inHeader := true }
  else if !reader.inHeader then .error .inval
  else
    match splitKey line with
    | none => .error .inval
    | some (key, value) => reader.headerKey key value

/-- A line without its comment and the blanks around it. -/
def clean (line : Text) : Except Errno CatalogReader :=
  if line = [] then .ok reader
  else
    match reader.block with
    | none => reader.outside line
    | some block =>
      match block.line line with
      | .error error => .error error
      | .ok (some block) => .ok { reader with block := some block }
      | .ok none => reader.close.outside line

def line (raw : Text) : Except Errno CatalogReader := reader.clean (Toml.trim (stripComment raw))

def finish : Except Errno Catalog :=
  if reader.header && reader.version then .ok ⟨reader.info, sortByFsid (reader.allExports.map stripPerNodeKeys)⟩
  else .error .inval

end CatalogReader

def parseCatalog (text : Text) : Except Errno Catalog := do
  let reader ← (lines text).foldlM CatalogReader.line {}
  reader.finish

/-- The loop of `peek_catalog_version` over the lines that are left. -/
def peekLines (inHeader : Bool) : List Text → Except Errno UInt64
  | [] => .error .inval
  | raw :: rest =>
    let line := Toml.trim (stripComment raw)
    if line = [] then peekLines inHeader rest
    else if line.head? = some '[' then peekLines (line == lit "[catalog]") rest
    else
      match cut '=' line with
      | (key, some value) => if inHeader && Toml.trim key == lit "version" then uintValue value else peekLines inHeader rest
      | (_, none) => peekLines inHeader rest

def peekCatalogVersion (text : Text) : Except Errno UInt64 := peekLines false (lines text)

variable {reader next : CatalogReader}

/-- What a line without comment and blanks does to the section, and the version it gives there. -/
def headerStep (inHeader : Bool) (line : Text) : Bool × Option Text :=
  if line = [] then (inHeader, none)
  else if line.head? = some '[' then (line == lit "[catalog]", none)
  else
    match cut '=' line with
    | (key, some value) => (inHeader, if inHeader && Toml.trim key == lit "version" then some value else none)
    | (_, none) => (inHeader, none)

/-- The values of the `version` keys below `[catalog]`, in their order. -/
def versionValues (inHeader : Bool) : List Text → List Text
  | [] => []
  | raw :: rest =>
    (headerStep inHeader (Toml.trim (stripComment raw))).2.toList ++
      versionValues (headerStep inHeader (Toml.trim (stripComment raw))).1 rest

theorem peekLines_eq (inHeader : Bool) (ls : List Text) :
    peekLines inHeader ls =
      match (versionValues inHeader ls).head? with
      | some value => uintValue value
      | none => .error .inval := by
  induction ls generalizing inHeader with
  | nil => rfl
  | cons raw rest ih =>
    simp only [peekLines, versionValues, headerStep]
    split
    · simp [ih]
    · split
      · simp [ih]
      · split
        · split <;> simp [ih]
        · simp [ih]

/-- What a line does to the reader: the section is the one that peeking sees, a block is not in the header, and a
version is read as peeking finds it. -/
structure Reads (reader : CatalogReader) (found : Bool × Option Text) (next : CatalogReader) : Prop where
  inHeader : next.inHeader = found.1
  block : next.block.isSome = true → next.inHeader = false
  seen : next.version = (reader.version || found.2.isSome)
  version : match found.2 with
    | some value => uintValue value = .ok next.info.version
    | none => next.info.version = reader.info.version

theorem uintValue_trim (value : Text) : uintValue (Toml.trim value) = uintValue value := by
  simp only [uintValue, trim_trim]

theorem reads_headerKey {key value : Text} (hblock : reader.block = none)
    (hheader : reader.inHeader = true) (h : reader.headerKey key (Toml.trim value) = .ok next) :
    Reads reader (true, if key == lit "version" then some value else none) next := by
  unfold CatalogReader.headerKey at h
  by_cases hversion : key = lit "version"
  · rw [if_pos hversion, uintValue_trim] at h
    cases hread : uintValue value with
    | error => simp [hread, bind, Except.bind] at h
    | ok version =>
      simp only [hread, bind, Except.bind, pure, Except.pure, Except.ok.injEq] at h
      subst h
      simp only [hversion, beq_self_eq_true, if_true]
      exact ⟨hheader, by simp [hblock], by simp, hread⟩
  · rw [if_neg hversion] at h
    have hkey : (key == lit "version") = false := by simpa using hversion
    simp only [hkey, Bool.false_eq_true, if_false]
    simp only [bind, Except.bind, pure, Except.pure] at h
    repeat' split at h
    all_goals cases h
    all_goals exact ⟨hheader, by simp [hblock], by simp, rfl⟩

theorem headerKey_bracket (reader : CatalogReader) {key : Text} (hkey : key.head? = some '[') (value : Text) :
    reader.headerKey key value = .error .inval := by
  have hother : ∀ name ∈ [lit "version", lit "updated_at", lit "updated_by", lit "comment"], key ≠ name := by
    have hheads : ∀ name ∈ [lit "version", lit "updated_at", lit "updated_by", lit "comment"],
        name.head? ≠ some '[' := by
      simp [lit_def]
    rintro name hname rfl
    exact hheads _ hname hkey
  simp only [List.forall_mem_cons] at hother
  obtain ⟨hversion, hat, hby, hcomment, -⟩ := hother
  simp only [CatalogReader.headerKey, hversion, hat, hby, hcomment, if_false]

theorem reads_outside {line : Text} (hline : line ≠ []) (hblock : reader.block = none)
    (h : reader.outside line = .ok next) : Reads reader (headerStep reader.inHeader line) next := by
  unfold CatalogReader.outside at h
  rw [headerStep, if_neg hline]
  split at h
  case isTrue hexport =>
    cases h
    have hhead : line.head? = some '[' := by rw [hexport]; simp [lit_def]
    have hother : (line == lit "[catalog]") = false := by rw [hexport]; simp [lit_def]
    rw [if_pos hhead, hother]
    exact ⟨rfl, fun _ => rfl, by simp [CatalogReader.close], rfl⟩
  case isFalse =>
    split at h
    case isTrue hsection =>
      split at h
      · cases h
      · rename_i hcatalog
        cases h
        simp only [not_or, not_not] at hcatalog
        simp only [Bool.and_eq_true, decide_eq_true_eq] at hsection
        have hhead := hsection.1
        rw [if_pos hhead, hcatalog.1, beq_self_eq_true]
        exact ⟨rfl, by simp [hblock], by simp, rfl⟩
    case isFalse hsection =>
      split at h
      · cases h
      · rename_i hheader
        have hin : reader.inHeader = true := by simpa using hheader
        cases hcut : cut '=' line with
        | mk key rest =>
          cases rest with
          | none => simp [splitKey, hcut] at h
          | some value =>
            simp only [splitKey, hcut] at h
            by_cases hhead : line.head? = some '['
            · -- A bracket that is not closed would have to begin a key.
              have hkey : (Toml.trim key).head? = some '[' := by
                have hjoin : line = key ++ '=' :: value := by simpa [hcut] using cut_rejoin '=' line
                cases key with
                | nil => simp [hjoin] at hhead
                | cons c key =>
                  obtain rfl : c = '[' := by simpa [hjoin] using hhead
                  rw [← List.nil_append ('[' :: key), trim_around (by decide)]
                  rfl
              rw [headerKey_bracket reader hkey] at h
              cases h
            · rw [if_neg hhead, hin]
              exact reads_headerKey hblock hin h

theorem reads_line (hblock : reader.block.isSome = true → reader.inHeader = false)
    {raw : Text} (h : reader.line raw = .ok next) :
    Reads reader (headerStep reader.inHeader (Toml.trim (stripComment raw))) next := by
  unfold CatalogReader.line at h
  generalize Toml.trim (stripComment raw) = line at h ⊢
  unfold CatalogReader.clean at h
  split at h
  case isTrue hempty =>
    cases h
    rw [headerStep, if_pos hempty]
    exact ⟨rfl, hblock, by simp, rfl⟩
  case isFalse hline =>
    cases hopen : reader.block with
    | none =>
      rw [hopen] at h
      exact reads_outside hline hopen h
    | some block =>
      rw [hopen] at h hblock
      have hout := hblock rfl
      -- Below an export no version is taken, whatever the line is.
      have hnone : (headerStep reader.inHeader line).2 = none := by
        rw [hout, headerStep, if_neg hline]
        split
        · rfl
        · split <;> rfl
      cases hstep : block.line line with
      | error => simp [hstep] at h
      | ok ended =>
        cases ended with
        | none =>
          simp only [hstep] at h
          have hreads := reads_outside hline rfl h
          exact ⟨hreads.inHeader, hreads.block, hreads.seen, hreads.version⟩
        | some block' =>
          simp only [hstep, Except.ok.injEq] at h
          subst h
          have hsection : (headerStep reader.inHeader line).1 = false := by
            rw [hout, headerStep, if_neg hline]
            split
            case isTrue hhead =>
              unfold ExportBlock.line at hstep
              rw [if_pos hhead] at hstep
              split at hstep
              · rename_i htable
                refine beq_eq_false_iff_ne.2 fun hcatalog => ?_
                have hprefix : (lit "[export.").isPrefixOf (lit "[catalog]") = false := by decide +kernel
                simp [hcatalog, hprefix] at htable
              · cases hstep
            case isFalse => split <;> rfl
          exact ⟨hout.trans hsection.symm, fun _ => hout, by simp [hnone], by rw [hnone]⟩

theorem reads_lines {ls : List Text} {last : CatalogReader}
    (hblock : reader.block.isSome = true → reader.inHeader = false)
    (h : ls.foldlM CatalogReader.line reader = .ok last) :
    last.version = (reader.version || !(versionValues reader.inHeader ls).isEmpty) ∧
      match (versionValues reader.inHeader ls).getLast? with
      | some value => uintValue value = .ok last.info.version
      | none => last.info.version = reader.info.version := by
  induction ls generalizing reader with
  | nil =>
    cases h
    simp [versionValues]
  | cons raw ls ih =>
    rw [List.foldlM_cons] at h
    cases hline : reader.line raw with
    | error => simp [hline, bind, Except.bind] at h
    | ok next =>
      simp only [hline, bind, Except.bind] at h
      have hreads := reads_line hblock hline
      obtain ⟨hseen, hlast⟩ := ih hreads.block h
      rw [hreads.inHeader] at hseen hlast
      have hversion := hreads.version
      rw [versionValues]
      cases hfound : (headerStep reader.inHeader (Toml.trim (stripComment raw))).2 with
      | none =>
        rw [hfound] at hversion
        refine ⟨by simp [hseen, hreads.seen, hfound], ?_⟩
        simp only [Option.toList_none, List.nil_append]
        split at hlast
        · exact hlast
        · exact hlast.trans hversion
      | some value =>
        rw [hfound] at hversion
        refine ⟨by simp [hseen, hreads.seen, hfound], ?_⟩
        rw [Option.toList_some, List.getLast?_append]
        split at hlast
        · rename_i later hlater
          simpa [hlater] using hlast
        · rename_i hnone
          simp only [hnone, Option.none_or, List.getLast?_singleton]
          rw [hlast]
          exact hversion

/-- Of a text that parses, `peek_catalog_version` tells the version that was parsed if and only if the first and the
last `version` in its header have the same value. -/
theorem peek_agrees_iff {text : Text} {catalog : Catalog} (h : parseCatalog text = .ok catalog) :
    peekCatalogVersion text = .ok catalog.info.version ↔
      (versionValues false (lines text)).head?.map uintValue =
        (versionValues false (lines text)).getLast?.map uintValue := by
  unfold parseCatalog at h
  cases hrun : (lines text).foldlM CatalogReader.line {} with
  | error => simp [hrun, bind, Except.bind] at h
  | ok last =>
    simp only [hrun, bind, Except.bind, CatalogReader.finish] at h
    split at h
    case isFalse => cases h
    case isTrue hcomplete =>
      cases h
      obtain ⟨hseen, hlast⟩ := reads_lines (by simp) hrun
      rw [peekCatalogVersion, peekLines_eq]
      have hsome : versionValues false (lines text) ≠ [] := by
        intro hempty
        have hversion : last.version = true := (Bool.and_eq_true .. ▸ hcomplete).2
        simp [hversion, hempty] at hseen
      rw [List.head?_eq_some_head hsome]
      rw [List.getLast?_eq_some_getLast hsome] at hlast ⊢
      simp only at hlast
      simp [hlast]

/-- The version is given twice, and the export's `version` is not looked at. -/
def twiceVersioned : Text :=
  unlines [lit "# of the second gateway", lit "[catalog]", lit "version = 7", lit "version = 7 # again",
    lit "[[export]]", lit "path = \"/a\"", lit "fsid = 1", lit "[export.local]", lit "version = 9"]

theorem peek_agrees_twice : peekCatalogVersion twiceVersioned = .ok 7 := by
  have hversion : (parseCatalog twiceVersioned).map (·.info.version) = .ok 7 := by decide +kernel
  cases h : parseCatalog twiceVersioned with
  | error error =>
    rw [h] at hversion
    cases hversion
  | ok catalog =>
    obtain hseven : catalog.info.version = 7 := by simpa [h, Except.map] using hversion
    rw [← hseven]
    exact (peek_agrees_iff h).2 (by decide +kernel)

/-- With two versions, peeking takes the first and parsing the last. -/
theorem peek_disagrees :
    peekCatalogVersion (unlines [lit "[catalog]", lit "version = 1", lit "version = 2"]) = .ok 1 ∧
      (parseCatalog (unlines [lit "[catalog]", lit "version = 1", lit "version = 2"])).map (·.info.version) = .ok 2 := by
  decide +kernel

end LightNfs
