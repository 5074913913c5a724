import LightNfs.Core.CatalogText

/-!
# Reading the catalog back

What `serialize_catalog` writes is parsed to the same document as long as the names of the backend options survive
the comment scan and the splitting into lines, keys and values.
-/

namespace LightNfs

open Text Toml

/-! ### Keys -/

/-- A name that stands unquoted in front of `=` as it is. -/
structure KeySyntax (key : Text) : Prop where
  oneLine : '\n' ∉ key
  noEquals : '=' ∉ key
  trimmed : Toml.trim key = key
  noBracket : key.head? ≠ some '['
  signs : SignsQuoted (false, false) key

/-- An option that is read back: its name is a key, and its value has no number sign where the name has left a quote
open. -/
structure OptionReadable (key value : Text) : Prop extends KeySyntax key where
  inside : quoteOpen key = true → '#' ∉ value

/-- A name of letters and underscores. -/
def isWord (key : Text) : Bool := !key.isEmpty && key.all fun c => c.isAlpha || c == '_'

variable {reader : CatalogReader} {exp : CatalogExport} {block : ExportBlock} {exports : List CatalogExport}
  {α : Type}
variable {key value : Text} {read : CatalogExport} {l : List α}

theorem notMem_of_isWord (h : isWord key = true) {c : Char} (hc : (c.isAlpha || c == '_') = false) :
    c ∉ key := by
  intro hmem
  simp only [isWord, Bool.and_eq_true, List.all_eq_true] at h
  exact absurd (h.2 c hmem) (by simp [hc])

theorem isSpace_of_isAlpha {c : Char} (hc : (c.isAlpha || c == '_') = true) : isSpace c = false := by
  apply isSpace_of_lt
  simp only [Char.isAlpha, Char.isUpper, Char.isLower, Bool.or_eq_true, Bool.and_eq_true, decide_eq_true_eq, beq_iff_eq]
    at hc
  rcases hc with (⟨hc, -⟩ | ⟨hc, -⟩) | rfl
  · exact Nat.lt_of_lt_of_le (by decide) (UInt32.le_iff_toNat_le.1 hc)
  · exact Nat.lt_of_lt_of_le (by decide) (UInt32.le_iff_toNat_le.1 hc)
  · decide

theorem solid_of_isWord (h : isWord key = true) : Solid key := by
  simp only [isWord, Bool.and_eq_true, List.all_eq_true] at h
  exact solid_of_forall fun c hc => isSpace_of_isAlpha (h.2 c hc)

theorem keySyntax_of_isWord (h : isWord key = true) : KeySyntax key where
  oneLine := notMem_of_isWord h (by decide)
  noEquals := notMem_of_isWord h (by decide)
  trimmed := (solid_of_isWord h).trim_eq
  noBracket hhead := notMem_of_isWord h (by decide) (List.mem_of_head? hhead)
  signs := signsQuoted_of_notMem (notMem_of_isWord h (by decide))

theorem quoteOpen_of_isWord (h : isWord key = true) : quoteOpen key = false :=
  scan_of_notMem (notMem_of_isWord h (by decide)) _

theorem ExportKey.isWord_text (key : ExportKey) : isWord key.text = true := by
  cases key <;> decide +kernel

theorem ExportKey.find_text (key : ExportKey) : ExportKey.all.find? (·.text = key.text) = some key := by
  cases key <;> decide +kernel

/-- A value that is written where no quote is open and is taken as it stands. -/
structure ValueIntact (value : Text) : Prop where
  solid : Solid value
  signs : SignsQuoted (false, false) value
  oneLine : '\n' ∉ value

/-! ### One line -/

theorem splitKey_line (hkey : KeySyntax key) (value : Text) :
    splitKey (Toml.trim (stripComment (keyLine key value))) =
        some (key, Toml.trim (stripFrom (quoteOpen key, false) value)) ∧
      (Toml.trim (stripComment (keyLine key value))).head? = some (key.headD '=') := by
  rw [stripComment_keyLine hkey.signs, splitKey_keyLine hkey.noEquals, hkey.trimmed, head?_trim_keyLine hkey.trimmed]
  exact ⟨rfl, rfl⟩

theorem KeySyntax.headD_ne (hkey : KeySyntax key) : key.headD '=' ≠ '[' := by
  have hhead := hkey.noBracket
  cases key with
  | nil => decide
  | cons c key => simpa using hhead

theorem line_key (hblock : reader.block = some block)
    (hkey : KeySyntax key) (value : Text) :
    reader.line (keyLine key value) =
      (block.setKey key (Toml.trim (stripFrom (quoteOpen key, false) value))).map
        fun block => { reader with block := some block } := by
  obtain ⟨hsplit, hhead⟩ := splitKey_line hkey value
  rw [CatalogReader.line]
  generalize Toml.trim (stripComment (keyLine key value)) = line at *
  have hne : line ≠ [] := by
    rintro rfl
    exact absurd hhead (by simp)
  have hbracket : ¬line.head? = some '[' := by
    rw [hhead]
    simpa using hkey.headD_ne
  simp only [CatalogReader.clean, if_neg hne, hblock, ExportBlock.line, if_neg hbracket, hsplit]
  cases block.setKey key (Toml.trim (stripFrom (quoteOpen key, false) value)) <;> rfl

theorem line_word (hblock : reader.block = some block)
    (hkey : isWord key = true) (hvalue : ValueIntact value) :
    reader.line (keyLine key value) = (block.setKey key value).map fun block => { reader with block := some block } := by
  rw [line_key hblock (keySyntax_of_isWord hkey), quoteOpen_of_isWord hkey, stripFrom_eq_self hvalue.signs,
    hvalue.solid.trim_eq]

/-! ### Values -/

theorem notMem_newline_escape (v : Text) : '\n' ∉ escape v := by
  intro hmem
  obtain ⟨c, -, hc⟩ := List.mem_flatMap.1 hmem
  rcases escapeChar_cases c with ⟨-, h⟩ | ⟨-, h⟩ | ⟨-, h⟩ | ⟨-, h⟩ | ⟨-, -, h⟩
  case inr.inr.inr.inr =>
    obtain rfl : '\n' = c := by simpa [h] using hc
    exact absurd h (by decide)
  all_goals rw [h] at hc; exact absurd hc (by decide)

theorem notMem_newline_quote (v : Text) : '\n' ∉ quote v := by
  simp [quote, notMem_newline_escape v]

theorem intact_quote (v : Text) : ValueIntact (quote v) :=
  ⟨solid_quote v, signsQuoted_quote v, notMem_newline_quote v⟩

theorem intact_decimal (n : Nat) : ValueIntact (decimal n) :=
  ⟨solid_decimal n, signsQuoted_of_notMem (notMem_decimal (by decide)), notMem_decimal (by decide)⟩

theorem intact_boolText (b : Bool) : ValueIntact (boolText b) := by
  refine ⟨solid_boolText b, signsQuoted_of_notMem ?_, ?_⟩ <;> (cases b <;> decide +kernel)

theorem notMem_newline_itemsText (values : List Text) : '\n' ∉ itemsText values := by
  match values with
  | [] => exact List.not_mem_nil
  | [v] => simpa [itemsText] using notMem_newline_quote v
  | v :: w :: values =>
    rw [itemsText_cons]
    simp [notMem_newline_quote v, notMem_newline_itemsText (w :: values)]

theorem intact_quoteArray {values : List Text} (h : ItemsClosed values) : ValueIntact (quoteArray values) := by
  refine ⟨solid_quoteArray values, signsQuoted_quoteArray h, ?_⟩
  have hsplit : quoteArray values = '[' :: itemsText values ++ [']'] := rfl
  simp [hsplit, notMem_newline_itemsText]

/-- What the text of an export needs to be read back, its options apart. -/
structure FieldsReadable (exp : CatalogExport) : Prop where
  path : Toml.normalizePath exp.cfg.path = exp.cfg.path
  nodes : ItemsClosed exp.cfg.nodes
  clients : ItemsClosed exp.cfg.clients

theorem FieldsReadable.intact (h : FieldsReadable exp) (key : ExportKey) :
    ValueIntact (exp.valueText key) := by
  cases key
  case path | backend | squash => exact intact_quote _
  case nodes => exact intact_quoteArray h.nodes
  case clients => exact intact_quoteArray h.clients
  case readonly | securePorts | strictReaddirCookies | disabled => exact intact_boolText _
  all_goals exact intact_decimal _

def CatalogExport.copy (exp : CatalogExport) (source : CatalogExport) : ExportKey → CatalogExport
  | .path => { exp with cfg := { exp.cfg with path := source.cfg.path } }
  | .fsid => { exp with cfg := { exp.cfg with fsid := source.cfg.fsid } }
  | .backend => { exp with cfg := { exp.cfg with backend := source.cfg.backend } }
  | .nodes => { exp with cfg := { exp.cfg with nodes := source.cfg.nodes } }
  | .clients => { exp with cfg := { exp.cfg with clients := source.cfg.clients } }
  | .readonly => { exp with cfg := { exp.cfg with readonly := source.cfg.readonly } }
  | .securePorts => { exp with cfg := { exp.cfg with securePorts := source.cfg.securePorts } }
  | .strictReaddirCookies => { exp with cfg := { exp.cfg with strictReaddirCookies := source.cfg.strictReaddirCookies } }
  | .squash => { exp with cfg := { exp.cfg with squash := source.cfg.squash } }
  | .anonUid => { exp with cfg := { exp.cfg with anonUid := source.cfg.anonUid } }
  | .anonGid => { exp with cfg := { exp.cfg with anonGid := source.cfg.anonGid } }
  | .readBps => { exp with cfg := { exp.cfg with readBps := source.cfg.readBps } }
  | .writeBps => { exp with cfg := { exp.cfg with writeBps := source.cfg.writeBps } }
  | .iops => { exp with cfg := { exp.cfg with iops := source.cfg.iops } }
  | .disabled => { exp with disabled := source.disabled }

theorem squash_ofText (squash : Squash) : Squash.ofText squash.text = .ok squash := by
  cases squash <;> decide +kernel

theorem set_valueText (exp : CatalogExport) {source : CatalogExport} (h : FieldsReadable source) (key : ExportKey) :
    exp.set (source.valueText key) key = .ok (exp.copy source key) := by
  cases key <;>
    simp only [CatalogExport.set, CatalogExport.valueText, CatalogExport.copy, bind, Except.bind, pure, Except.pure,
      stringValue_quote, u32Value_toNat, sizeValue_toNat, boolValue_boolText, stringArray_quoteArray h.nodes,
      stringArray_quoteArray h.clients, squash_ofText, h.path]

/-- The export without its options. -/
def CatalogExport.plain (exp : CatalogExport) : CatalogExport := { exp with cfg := { exp.cfg with options := .empty } }

theorem copy_all (exp : CatalogExport) :
    ExportKey.all.foldl (fun read key => read.copy exp key) {} = exp.plain := by
  simp only [ExportKey.all, List.foldl_cons, List.foldl_nil, CatalogExport.copy, CatalogExport.plain]

/-! ### Blocks -/

def runLines (reader : CatalogReader) (ls : List Text) : Except Errno CatalogReader := ls.foldlM CatalogReader.line reader

theorem runLines_append (reader : CatalogReader) (a b : List Text) :
    runLines reader (a ++ b) = (runLines reader a).bind fun reader => runLines reader b := by
  simp only [runLines, List.foldlM_append]
  rfl

theorem runLines_cons (reader : CatalogReader) (l : Text) (ls : List Text) :
    runLines reader (l :: ls) = (reader.line l).bind fun reader => runLines reader ls := rfl

theorem run_keys (h : FieldsReadable exp) (keys : List ExportKey) (hblock : reader.block = some ⟨read, false⟩) :
    runLines reader (keys.map fun key => keyLine key.text (exp.valueText key)) =
      .ok { reader with block := some ⟨keys.foldl (fun read key => read.copy exp key) read, false⟩ } := by
  induction keys generalizing reader read with
  | nil =>
    rw [List.foldl_nil, ← hblock]
    rfl
  | cons key keys ih =>
    rw [List.map_cons, runLines_cons, line_word hblock key.isWord_text (h.intact key)]
    simp only [ExportBlock.setKey, Bool.false_eq_true, if_false, key.find_text, bind, Except.bind, set_valueText read h,
      pure, Except.pure, Except.map]
    exact ih rfl

def readOption (key value : Text) : Except Errno Text :=
  backendValue (Toml.trim (stripFrom (quoteOpen key, false) (backendValueText value)))

def readOptions (options : Options) (entries : List (Text × Text)) : Except Errno Options :=
  entries.foldlM (fun options option => do return options.put option.1 (← readOption option.1 option.2)) options

theorem run_options {entries : List (Text × Text)} (hkeys : ∀ option ∈ entries, KeySyntax option.1)
    (hblock : reader.block = some ⟨exp, true⟩) :
    runLines reader (entries.map fun option => keyLine option.1 (backendValueText option.2)) =
      (readOptions exp.cfg.options entries).map fun options =>
        { reader with block := some ⟨{ exp with cfg := { exp.cfg with options } }, true⟩ } := by
  induction entries generalizing reader exp with
  | nil =>
    have hsame : reader = { reader with block := some ⟨exp, true⟩ } := by rw [← hblock]
    exact congrArg Except.ok hsame
  | cons option entries ih =>
    rw [List.map_cons, runLines_cons, line_key hblock (hkeys option List.mem_cons_self)]
    simp only [ExportBlock.setKey, if_true, readOptions, List.foldlM_cons]
    change (Except.bind (Except.map _ ((readOption option.1 option.2).bind _)) _) = _
    cases hread : readOption option.1 option.2 with
    | error => rfl
    | ok value =>
      let next : CatalogExport := { exp with cfg := { exp.cfg with options := exp.cfg.options.put option.1 value } }
      have hrest : ∀ o ∈ entries, KeySyntax o.1 := fun o ho => hkeys o (List.mem_cons_of_mem option ho)
      exact @ih { reader with block := some ⟨next, true⟩ } next hrest rfl

/-! ### Exports -/

@[simp] theorem allExports_close (reader : CatalogReader) : reader.close.allExports = reader.allExports := by
  simp [CatalogReader.close, CatalogReader.allExports]

theorem line_empty (reader : CatalogReader) : reader.line [] = .ok reader := rfl

theorem line_export (reader : CatalogReader) :
    reader.line (lit "[[export]]") = .ok { reader.close with block := some {}, inHeader := false } := by
  have hclean : Toml.trim (stripComment (lit "[[export]]")) = lit "[[export]]" := by rw [lit_def]; decide
  have hne : lit "[[export]]" ≠ [] := by simp [lit_def]
  have hends (block : ExportBlock) : block.line (lit "[[export]]") = .ok none := by
    have hbracket : (lit "[[export]]").head? = some '[' := by simp [lit_def]
    have hother : ¬((lit "[export.").isPrefixOf (lit "[[export]]") && (lit "[[export]]").getLast? == some ']') = true := by
      simp [lit_def]
    rw [ExportBlock.line, if_pos hbracket, if_neg hother]
  rw [CatalogReader.line, hclean, CatalogReader.clean, if_neg hne]
  cases hblock : reader.block with
  | none =>
    simp only [CatalogReader.outside, if_true]
  | some block =>
    simp only [hends, CatalogReader.outside, if_true]
    simp [CatalogReader.close, CatalogReader.allExports]

def tableLine (backend : Text) : Text := lit "[export." ++ backend ++ lit "]"

theorem tableLine_builtin : ∀ backend ∈ builtinBackends,
    Toml.trim (stripComment (tableLine backend)) = tableLine backend ∧ tableLine backend ≠ [] ∧
      (tableLine backend).head? = some '[' ∧
      ((lit "[export.").isPrefixOf (tableLine backend) && (tableLine backend).getLast? == some ']') = true ∧
      '\n' ∉ tableLine backend := by
  decide +kernel

theorem line_table (hblock : reader.block = some ⟨exp, false⟩)
    {backend : Text} (hbackend : backend ∈ builtinBackends) :
    reader.line (tableLine backend) = .ok { reader with block := some ⟨exp, true⟩ } := by
  obtain ⟨hclean, hne, hhead, htable, -⟩ := tableLine_builtin backend hbackend
  rw [CatalogReader.line, hclean, CatalogReader.clean, if_neg hne]
  simp only [hblock, ExportBlock.line, if_pos hhead, if_pos htable]

/-- What the text of an export needs, but for the values of its options. -/
structure ExportWritten (exp : CatalogExport) : Prop extends FieldsReadable exp where
  backend : exp.cfg.backend ∈ builtinBackends
  options : clusterBackendKeys exp.cfg.options = exp.cfg.options
  keys : ∀ option ∈ exp.cfg.options.entries, KeySyntax option.1

def CatalogExport.withOptions (exp : CatalogExport) (options : Options) : CatalogExport :=
  { exp with cfg := { exp.cfg with options } }

theorem run_exportLines (h : ExportWritten exp) (reader : CatalogReader) :
    runLines reader (exportLines exp) =
      (readOptions .empty exp.cfg.options.entries).map fun options =>
        { reader.close with
          block := some ⟨exp.withOptions options, !exp.cfg.options.entries.isEmpty⟩, inHeader := false } := by
  have hlines : exportLines exp = [] :: lit "[[export]]" ::
      (ExportKey.all.map (fun key => keyLine key.text (exp.valueText key)) ++ optionLines exp.cfg) := rfl
  rw [hlines, runLines_cons, line_empty, Except.bind, runLines_cons, line_export, Except.bind, runLines_append,
    run_keys h.toFieldsReadable _ rfl, Except.bind, copy_all, optionLines, h.options]
  cases hentries : exp.cfg.options.entries with
  | nil => rfl
  | cons option entries =>
    have hkeys := hentries ▸ h.keys
    change runLines _ (tableLine exp.cfg.backend :: _) = _
    rw [runLines_cons, line_table rfl h.backend, Except.bind, run_options hkeys rfl]
    rfl

def readExport (exp : CatalogExport) : Except Errno CatalogExport :=
  (readOptions .empty exp.cfg.options.entries).map exp.withOptions

/-- What `finish` takes from a reader. -/
def CatalogReader.view (reader : CatalogReader) : CatalogMeta × List CatalogExport × Bool × Bool :=
  (reader.info, reader.allExports, reader.header, reader.version)

theorem run_exports (h : ∀ exp ∈ exports, ExportWritten exp) (reader : CatalogReader) :
    (runLines reader (exports.flatMap exportLines)).map CatalogReader.view =
      (exports.mapM readExport).map fun read =>
        (reader.info, reader.allExports ++ read, reader.header, reader.version) := by
  induction exports generalizing reader with
  | nil => simp [runLines, CatalogReader.view, pure, Except.pure, Except.map]
  | cons exp exports ih =>
    have hrest : ∀ e ∈ exports, ExportWritten e := fun e he => h e (List.mem_cons_of_mem exp he)
    rw [List.flatMap_cons, runLines_append, run_exportLines (h exp List.mem_cons_self), List.mapM_cons]
    cases hread : readOptions .empty exp.cfg.options.entries with
    | error => simp [readExport, hread, Except.map, Except.bind, bind]
    | ok options =>
      let next : CatalogReader := { reader.close with
        block := some ⟨exp.withOptions options, !exp.cfg.options.entries.isEmpty⟩, inHeader := false }
      have hall : next.allExports = reader.allExports ++ [exp.withOptions options] := by
        simp [next, CatalogReader.allExports, CatalogReader.close]
      have hfirst : readExport exp = .ok (exp.withOptions options) := by simp [readExport, hread, Except.map]
      change (runLines next _).map _ = _
      rw [ih hrest next, hall, hfirst]
      simp only [bind, Except.bind]
      cases exports.mapM readExport <;>
        simp [Except.map, pure, Except.pure, next, CatalogReader.close]

/-! ### The document -/

theorem line_header (hblock : reader.block = none) (hin : reader.inHeader = true)
    (hkey : isWord key = true) (hvalue : ValueIntact value) :
    reader.line (keyLine key value) = reader.headerKey key value := by
  obtain ⟨hsplit, hhead⟩ := splitKey_line (keySyntax_of_isWord hkey) value
  rw [quoteOpen_of_isWord hkey, stripFrom_eq_self hvalue.signs, hvalue.solid.trim_eq] at hsplit
  rw [CatalogReader.line]
  generalize Toml.trim (stripComment (keyLine key value)) = line at *
  have hne : line ≠ [] := by
    rintro rfl
    exact absurd hhead (by simp)
  have hbracket : ¬line.head? = some '[' := by
    rw [hhead]
    simpa using (keySyntax_of_isWord hkey).headD_ne
  have hexport : line ≠ lit "[[export]]" := by
    rintro rfl
    exact hbracket (by simp [lit_def])
  simp [CatalogReader.clean, hne, hblock, CatalogReader.outside, hexport, hbracket, hin, hsplit]

theorem run_headerLines (info : CatalogMeta) :
    runLines {} (headerLines info) = .ok { info, header := true, version := true, inHeader := true } := by
  have hcatalog : CatalogReader.line {} (lit "[catalog]") = .ok { header := true, inHeader := true } := by
    rw [CatalogReader.line, show Toml.trim (stripComment (lit "[catalog]")) = lit "[catalog]" by rw [lit_def]; decide,
      CatalogReader.clean, if_neg (by simp [lit_def])]
    simp only [CatalogReader.outside]
    rw [if_neg (by simp [lit_def]), if_pos (by simp [lit_def]), if_neg (by simp)]
  have hversion := intact_decimal info.version.toNat
  rw [headerLines, runLines_cons, hcatalog, Except.bind]
  rw [runLines_cons, line_header rfl rfl (by simp [isWord, lit_def]) hversion, CatalogReader.headerKey, if_pos rfl,
    uintValue_toNat]
  simp only [bind, Except.bind, pure, Except.pure]
  rw [runLines_cons, line_header rfl rfl (by simp [isWord, lit_def]) (intact_quote _), CatalogReader.headerKey,
    if_neg (by simp [lit_def]), if_pos rfl, stringValue_quote]
  simp only [bind, Except.bind, pure, Except.pure]
  rw [runLines_cons, line_header rfl rfl (by simp [isWord, lit_def]) (intact_quote _), CatalogReader.headerKey,
    if_neg (by simp [lit_def]), if_neg (by simp [lit_def]), if_pos rfl, stringValue_quote]
  simp only [bind, Except.bind, pure, Except.pure]
  rw [runLines_cons, line_header rfl rfl (by simp [isWord, lit_def]) (intact_quote _), CatalogReader.headerKey,
    if_neg (by simp [lit_def]), if_neg (by simp [lit_def]), if_neg (by simp [lit_def]), if_pos rfl, stringValue_quote]
  rfl

theorem notMem_newline_keyLine (hkey : '\n' ∉ key) (hvalue : '\n' ∉ value) :
    '\n' ∉ keyLine key value := by
  simp [keyLine_eq, hkey, hvalue]

theorem notMem_newline_backendValueText (v : Text) : '\n' ∉ backendValueText v := by
  rcases backendValueText_cases v with ⟨htext, hbool⟩ | ⟨htext, -, n, -, rfl⟩ | htext
  · rw [htext]
    exact notMem_trueFalse hbool (.inl (by decide))
  · rw [htext]
    exact notMem_decimal (by decide)
  · rw [htext]
    exact notMem_newline_quote v

theorem oneLine_exportLines (h : ExportWritten exp) {l : Text} (hl : l ∈ exportLines exp) :
    '\n' ∉ l := by
  simp only [exportLines, List.cons_append, List.mem_cons, List.mem_append, List.mem_map] at hl
  rcases hl with rfl | rfl | ⟨key, -, rfl⟩ | hl
  · exact List.not_mem_nil
  · simp [lit_def]
  · exact notMem_newline_keyLine (keySyntax_of_isWord key.isWord_text).oneLine (h.toFieldsReadable.intact key).oneLine
  · rw [optionLines, h.options] at hl
    split at hl
    case h_1 => exact absurd hl List.not_mem_nil
    case h_2 =>
      rcases List.mem_cons.1 hl with rfl | hl
      · exact (tableLine_builtin _ h.backend).2.2.2.2
      · obtain ⟨option, hoption, rfl⟩ := List.mem_map.1 hl
        exact notMem_newline_keyLine (h.keys option hoption).oneLine (notMem_newline_backendValueText _)

theorem oneLine_headerLines {info : CatalogMeta} {l : Text} (hl : l ∈ headerLines info) : '\n' ∉ l := by
  simp only [headerLines, List.mem_cons, List.not_mem_nil, or_false] at hl
  rcases hl with rfl | rfl | rfl | rfl | rfl
  · simp [lit_def]
  · exact notMem_newline_keyLine (by simp [lit_def]) (intact_decimal _).oneLine
  all_goals exact notMem_newline_keyLine (by simp [lit_def]) (notMem_newline_quote _)

theorem sortByFsid_eq_self (h : exports.Pairwise (·.cfg.fsid ≤ ·.cfg.fsid)) :
    sortByFsid exports = exports :=
  h.insertionSort_eq

theorem parse_serialize {catalog : Catalog} (hsorted : catalog.exports.Pairwise (·.cfg.fsid ≤ ·.cfg.fsid))
    (h : ∀ exp ∈ catalog.exports, ExportWritten exp) :
    parseCatalog (serializeCatalog catalog) =
      (catalog.exports.mapM readExport).map fun read => ⟨catalog.info, sortByFsid (read.map stripPerNodeKeys)⟩ := by
  have honeLine : ∀ l ∈ headerLines catalog.info ++ catalog.exports.flatMap exportLines, '\n' ∉ l := by
    intro l hl
    rcases List.mem_append.1 hl with hl | hl
    · exact oneLine_headerLines hl
    · obtain ⟨exp, hexp, hl⟩ := List.mem_flatMap.1 hl
      exact oneLine_exportLines (h exp hexp) hl
  have hlines : lines (serializeCatalog catalog) = headerLines catalog.info ++ catalog.exports.flatMap exportLines := by
    have hsplit := lines_unlines_append honeLine []
    rw [List.append_nil, lines, List.append_nil] at hsplit
    rw [serializeCatalog, sortByFsid_eq_self hsorted, hsplit]
  have hview (reader : CatalogReader) (read : List CatalogExport)
      (hreader : reader.view = (catalog.info, read, true, true)) :
      reader.finish = .ok ⟨catalog.info, sortByFsid (read.map stripPerNodeKeys)⟩ := by
    simp only [CatalogReader.view, Prod.mk.injEq] at hreader
    obtain ⟨hinfo, hread, hheader, hversion⟩ := hreader
    simp [CatalogReader.finish, hinfo, hread, hheader, hversion]
  have hrun := run_exports h { info := catalog.info, header := true, version := true, inHeader := true }
  change (runLines {} (lines (serializeCatalog catalog))).bind CatalogReader.finish = _
  rw [hlines, runLines_append, run_headerLines, Except.bind]
  cases hresult : runLines _ (catalog.exports.flatMap exportLines) with
  | error error =>
    rw [hresult] at hrun
    cases hread : catalog.exports.mapM readExport with
    | error => simpa [hread, Except.map, Except.bind] using hrun
    | ok read => simp [hread, Except.map] at hrun
  | ok reader =>
    rw [hresult] at hrun
    cases hread : catalog.exports.mapM readExport with
    | error => simp [hread, Except.map] at hrun
    | ok read =>
      simp only [hread, Except.map, Except.ok.injEq] at hrun
      exact hview reader read hrun

/-! ### Options -/

theorem mapM_eq_self {f : α → Except Errno α} : l.mapM f = .ok l ↔ ∀ a ∈ l, f a = .ok a := by
  induction l with
  | nil => simp [pure, Except.pure]
  | cons a l ih =>
    rw [List.mapM_cons, List.forall_mem_cons, ← ih]
    simp only [bind, Except.bind, pure, Except.pure]
    cases f a <;> cases l.mapM f <;> simp

theorem forall₂_of_mapM {β : Type} {f : α → Except Errno β} {m : List β} (h : l.mapM f = .ok m) :
    List.Forall₂ (fun a b => f a = .ok b) l m := by
  induction l generalizing m with
  | nil =>
    cases h
    exact .nil
  | cons a l ih =>
    rw [List.mapM_cons] at h
    simp only [bind, Except.bind, pure, Except.pure] at h
    split at h <;> try contradiction
    rename_i b hb
    split at h <;> try contradiction
    rename_i rest hrest
    cases h
    exact .cons hb (ih hrest)

def readEntry (option : Text × Text) : Except Errno (Text × Text) :=
  (readOption option.1 option.2).map fun value => (option.1, value)

theorem entries_readOptions {entries : List (Text × Text)} (hentries : entries.Pairwise (·.1 < ·.1)) {options : Options}
    (hbefore : ∀ old ∈ options.entries, ∀ new ∈ entries, old.1 < new.1) :
    (readOptions options entries).map (·.entries) = (entries.mapM readEntry).map (options.entries ++ ·) := by
  induction entries generalizing options with
  | nil => simp [readOptions, Except.map, pure, Except.pure]
  | cons option entries ih =>
    obtain ⟨hfirst, hrest⟩ := List.pairwise_cons.1 hentries
    rw [readOptions, List.foldlM_cons, List.mapM_cons, readEntry]
    simp only [bind, Except.bind, pure, Except.pure]
    cases readOption option.1 option.2 with
    | error => rfl
    | ok value =>
      have hput : (options.put option.1 value).entries = options.entries ++ [(option.1, value)] :=
        SortedMap.insertEntry_last (fun old hold => hbefore old hold option List.mem_cons_self) value
      have hnext := @ih hrest (options.put option.1 value) ?_
      · simp only [Except.map]
        change (readOptions (options.put option.1 value) entries).map (·.entries) = _
        rw [hnext, hput]
        cases entries.mapM readEntry <;> simp [Except.map]
      · intro old hold new hnew
        rw [hput, List.mem_append, List.mem_singleton] at hold
        rcases hold with hold | rfl
        · exact hbefore old hold new (List.mem_cons_of_mem option hnew)
        · exact hfirst new hnew

theorem readOptions_eq_self {options : Options} :
    readOptions .empty options.entries = .ok options ↔
      ∀ option ∈ options.entries, readOption option.1 option.2 = .ok option.2 := by
  have hentries := @entries_readOptions options.entries options.sorted .empty nofun
  have hself : readOptions .empty options.entries = .ok options ↔ options.entries.mapM readEntry = .ok options.entries := by
    cases hread : readOptions .empty options.entries <;> cases hmap : options.entries.mapM readEntry <;>
      simp_all [Except.map, SortedMap.empty, SortedMap.ext_iff]
  rw [hself, mapM_eq_self]
  refine forall₂_congr fun option _ => ?_
  rw [readEntry]
  cases readOption option.1 option.2 <;> simp [Except.map, Prod.ext_iff]

theorem readOption_iff :
    readOption key value = .ok value ↔ (quoteOpen key = true → '#' ∉ value) := by
  constructor
  · intro hread hopen hsign
    rw [readOption, hopen] at hread
    exact backendValue_cut hsign hread
  · intro hinside
    rw [readOption, stripFrom_eq_self (signsQuoted_backendValueText hinside), (solid_backendValueText value).trim_eq,
      backendValue_text]

/-! ### Names that come out of a text -/

theorem keySyntax_of_line {raw line : Text} (hraw : '\n' ∉ raw) (hline : line = Toml.trim (stripComment raw))
    (hbracket : line.head? ≠ some '[') (hsplit : splitKey line = some (key, value)) : KeySyntax key := by
  obtain ⟨before, after, hclean, hblank⟩ := trim_append (stripComment raw)
  rw [← hline] at hclean
  -- The name is what stands before the first `=`, without the blanks behind it.
  obtain ⟨rest, hcut⟩ : ∃ rest, line = (cut '=' line).1 ++ rest := ⟨_, cut_rejoin '=' line⟩
  obtain rfl : Toml.trim (cut '=' line).1 = key := by
    unfold splitKey at hsplit
    split at hsplit
    case h_1 => contradiction
    case h_2 front value' heq =>
      rw [heq]
      exact (Prod.mk.inj (Option.some.inj hsplit)).1
  have hsolid : ∀ c, (cut '=' line).1.head? = some c → isSpace c = false := by
    intro c hc
    refine (solid_trim (stripComment raw)).head c ?_
    rw [← hline, hcut, List.head?_append, hc, Option.some_or]
  obtain ⟨tail, htail⟩ : Toml.trim (cut '=' line).1 <+: (cut '=' line).1 := by
    rw [Toml.trim, dropWhile_eq_self hsolid]
    exact List.rdropWhile_prefix ..
  have hwhole : line = Toml.trim (cut '=' line).1 ++ (tail ++ rest) := by rw [← List.append_assoc, htail, ← hcut]
  have hequals : '=' ∉ Toml.trim (cut '=' line).1 := fun hmem => notMem_cut '=' line (mem_of_mem_trim hmem)
  have htrimmed := trim_trim (cut '=' line).1
  generalize Toml.trim (cut '=' line).1 = key at *
  refine ⟨fun hmem => ?_, hequals, htrimmed, fun hhead => ?_, ?_⟩
  · have hmem : '\n' ∈ line := hwhole ▸ List.mem_append_left _ hmem
    exact hraw ((stripFrom_starts _ raw).mem (mem_of_mem_trim (hline ▸ hmem)))
  · exact hbracket (by rw [hwhole, List.head?_append, hhead, Option.some_or])
  · rintro a b rfl
    have hsigns := signsQuoted_stripFrom (false, false) raw (before ++ a) (b ++ (tail ++ rest) ++ after)
    have hscan := hsigns (by rw [← stripComment, hclean, hwhole]; simp)
    rwa [scan_append, scan_spaces hblank] at hscan

/-- Every option name up to now stands unquoted as it is. -/
def KeysRead (exports : List CatalogExport) : Prop :=
  ∀ exp ∈ exports, ∀ option ∈ exp.cfg.options.entries, KeySyntax option.1

theorem options_set {key : ExportKey} (h : exp.set value key = .ok read) :
    read.cfg.options = exp.cfg.options := by
  cases key <;> simp only [CatalogExport.set, bind, Except.bind, pure, Except.pure] at h <;> (repeat' split at h) <;>
    first | contradiction | (cases h; rfl)

theorem keysRead_setKey {read : ExportBlock} (hkey : KeySyntax key)
    (hblock : KeysRead [block.exp]) (h : block.setKey key value = .ok read) : KeysRead [read.exp] := by
  have hold := hblock block.exp List.mem_cons_self
  rintro exp hexp option hoption
  obtain rfl := List.mem_singleton.1 hexp
  unfold ExportBlock.setKey at h
  split at h
  · simp only [bind, Except.bind, pure, Except.pure] at h
    split at h <;> try contradiction
    cases h
    rcases SortedMap.mem_insertEntry hoption with rfl | hoption
    · exact hkey
    · exact hold option hoption
  · split at h <;> try contradiction
    simp only [bind, Except.bind, pure, Except.pure] at h
    split at h <;> try contradiction
    rename_i hset
    cases h
    exact hold option (options_set hset ▸ hoption)

theorem keysRead_append {a b : List CatalogExport} : KeysRead (a ++ b) ↔ KeysRead a ∧ KeysRead b := by
  simp only [KeysRead, List.mem_append]
  exact ⟨fun h => ⟨fun e he => h e (.inl he), fun e he => h e (.inr he)⟩, fun h e he => he.elim (h.1 e) (h.2 e)⟩

theorem allExports_headerKey {read : CatalogReader}
    (h : reader.headerKey key value = .ok read) : read.allExports = reader.allExports := by
  simp only [CatalogReader.headerKey, bind, Except.bind, pure, Except.pure] at h
  repeat' split at h
  all_goals first | contradiction | (cases h; rfl)

theorem keysRead_outside {read : CatalogReader} {line : Text} (hkeys : KeysRead reader.allExports)
    (h : reader.outside line = .ok read) : KeysRead read.allExports := by
  unfold CatalogReader.outside at h
  split at h
  case isTrue =>
    cases h
    have hall : ({ reader.close with block := some {}, inHeader := false } : CatalogReader).allExports =
        reader.allExports ++ [({ } : CatalogExport)] := rfl
    rw [hall, keysRead_append]
    refine ⟨hkeys, fun exp hexp option hoption => ?_⟩
    obtain rfl := List.mem_singleton.1 hexp
    exact absurd hoption List.not_mem_nil
  case isFalse =>
    split at h
    · split at h <;> try contradiction
      cases h
      exact hkeys
    · split at h <;> try contradiction
      split at h <;> try contradiction
      rw [allExports_headerKey h]
      exact hkeys

theorem keysRead_line {read : CatalogReader} {raw : Text} (hraw : '\n' ∉ raw) (hkeys : KeysRead reader.allExports)
    (h : reader.line raw = .ok read) : KeysRead read.allExports := by
  rw [CatalogReader.line] at h
  generalize hline : Toml.trim (stripComment raw) = line at h
  unfold CatalogReader.clean at h
  split at h
  case isTrue =>
    cases h
    exact hkeys
  case isFalse =>
    cases hblock : reader.block with
    | none =>
      rw [hblock] at h
      exact keysRead_outside hkeys h
    | some block =>
      have hall : reader.allExports = reader.exports ++ [block.exp] := by simp [CatalogReader.allExports, hblock]
      rw [hall, keysRead_append] at hkeys
      rw [hblock] at h
      dsimp only at h
      split at h
      case h_1 => contradiction
      case h_2 next hnext =>
        cases h
        have hall : ({ reader with block := some next } : CatalogReader).allExports = reader.exports ++ [next.exp] := rfl
        rw [hall, keysRead_append]
        refine ⟨hkeys.1, ?_⟩
        unfold ExportBlock.line at hnext
        split at hnext
        case isTrue =>
          split at hnext
          · cases hnext
            exact hkeys.2
          · exact absurd hnext (by simp)
        case isFalse hbracket =>
          split at hnext <;> try contradiction
          rename_i key value hsplit
          simp only [bind, Except.bind, pure, Except.pure] at hnext
          split at hnext <;> try contradiction
          rename_i hset
          cases hnext
          exact keysRead_setKey (keySyntax_of_line hraw hline.symm hbracket hsplit) hkeys.2 hset
      case h_3 =>
        refine keysRead_outside ?_ h
        rw [allExports_close, hall, keysRead_append]
        exact hkeys

theorem keysRead_run {ls : List Text} (hls : ∀ raw ∈ ls, '\n' ∉ raw) {read : CatalogReader}
    (hkeys : KeysRead reader.allExports) (h : runLines reader ls = .ok read) : KeysRead read.allExports := by
  induction ls generalizing reader with
  | nil =>
    cases h
    exact hkeys
  | cons raw ls ih =>
    rw [runLines_cons] at h
    cases hline : reader.line raw with
    | error => simp [hline, Except.bind] at h
    | ok next =>
      rw [hline] at h
      exact ih (fun l hl => hls l (List.mem_cons_of_mem raw hl)) (keysRead_line (hls raw List.mem_cons_self) hkeys hline) h

theorem keysRead_parse {text : Text} {catalog : Catalog} (h : parseCatalog text = .ok catalog) :
    KeysRead catalog.exports := by
  change (runLines {} (lines text)).bind CatalogReader.finish = _ at h
  cases hrun : runLines {} (lines text) with
  | error => simp [hrun, Except.bind] at h
  | ok reader =>
    rw [hrun] at h
    simp only [Except.bind, CatalogReader.finish] at h
    split at h <;> try contradiction
    cases h
    have hkeys := keysRead_run (fun raw hraw => notMem_lines hraw) (fun _ he => absurd he List.not_mem_nil) hrun
    intro exp hexp option hoption
    rw [sortByFsid, List.mem_insertionSort] at hexp
    obtain ⟨read, hread, rfl⟩ := List.mem_map.1 hexp
    exact hkeys read hread option (List.mem_of_mem_filter hoption)

/-! ### Valid documents -/

theorem validNodes {earlier nodes : List Text} (h : badNode earlier nodes = none) :
    ∀ node ∈ nodes, validClusterNodeName node = true := by
  induction nodes generalizing earlier with
  | nil => exact nofun
  | cons node nodes ih =>
    unfold badNode at h
    split at h
    case isTrue => contradiction
    case isFalse hok =>
      intro n hn
      rcases List.mem_cons.1 hn with rfl | hn
      · simp only [Bool.or_eq_true, Bool.not_eq_true', not_or, Bool.not_eq_false] at hok
        exact hok.1
      · exact ih h n hn

theorem itemsClosed_nodes {nodes : List Text} (h : badNode [] nodes = none) : ItemsClosed nodes := by
  intro node hnode hlast
  have hvalid := validNodes h node hnode
  simp only [validClusterNodeName, Bool.and_eq_true, List.all_eq_true] at hvalid
  exact absurd (hvalid.2 '\\' (List.mem_of_getLast? hlast)) (by decide)

theorem getLast?_prefixValue {most : UInt64} {n : UInt8}
    (h : Cidr.prefixValue most (some value) = .ok n) : value.getLast? ≠ some '\\' := by
  intro hlast
  obtain ⟨front, rfl⟩ : ∃ front, value = front ++ ['\\'] := List.getLast?_eq_some_iff.1 hlast
  simp only [Cidr.prefixValue, bind, Except.bind] at h
  split at h <;> try contradiction
  rename_i hread
  have hdigit := isDigit_of_uintValue hread '\\' (by rw [trim_around (by decide)]; simp)
  exact absurd hdigit (by decide)

theorem itemsClosed_clients {platform : Platform} {clients : List Text}
    (hparse : ∀ client ∈ clients, ∃ cidr, Cidr.parse platform client = .ok cidr)
    (hnul : ∀ client ∈ clients, '\x00' ∉ client) : ItemsClosed clients := by
  intro client hclient hlast
  obtain ⟨cidr, hcidr⟩ := hparse client hclient
  have hclientText := cut_rejoin '/' client
  have hhost : cStr (cut '/' client).1 = (cut '/' client).1 := by
    refine List.takeWhile_eq_self_iff.2 fun c hc => ?_
    have hmem : c ∈ client := by
      rw [hclientText]
      exact List.mem_append_left _ hc
    have hne : c ≠ '\x00' := by
      rintro rfl
      exact hnul client hclient hmem
    simpa using hne
  obtain ⟨⟨family, address, haddress⟩, hprefix⟩ : (∃ family address, platform.inetPton family (cut '/' client).1 =
      some address) ∧ ∀ rest, (cut '/' client).2 = some rest → ∃ most n, Cidr.prefixValue most (some rest) = .ok n := by
    simp only [Cidr.parse, hhost, bind, Except.bind] at hcidr
    split at hcidr
    case h_1 address haddress =>
      split at hcidr <;> try contradiction
      rename_i n hn
      exact ⟨⟨_, address, haddress⟩, fun rest hrest => ⟨_, n, hrest ▸ hn⟩⟩
    case h_2 =>
      split at hcidr
      case h_1 address haddress =>
        split at hcidr <;> try contradiction
        rename_i n hn
        exact ⟨⟨_, address, haddress⟩, fun rest hrest => ⟨_, n, hrest ▸ hn⟩⟩
      case h_2 => contradiction
  cases hrest : (cut '/' client).2 with
  | none =>
    rw [hrest, List.append_nil] at hclientText
    have hmem : '\\' ∈ (cut '/' client).1 := hclientText ▸ List.mem_of_getLast? hlast
    exact absurd (platform.inetPton_chars family _ address haddress '\\' hmem) (by decide)
  | some rest =>
    obtain ⟨most, n, hn⟩ := hprefix rest hrest
    rw [hrest] at hclientText
    rw [hclientText, List.getLast?_append_of_ne_nil _ (by simp)] at hlast
    by_cases hne : rest = []
    · rw [hne] at hlast
      exact absurd hlast (by decide)
    · rw [List.getLast?_cons_of_ne_nil hne] at hlast
      exact getLast?_prefixValue hn hlast

theorem exportWritten_of_valid {platform : Platform} (hvalid : ExportValid platform exp.cfg)
    (hnul : ∀ client ∈ exp.cfg.clients, '\x00' ∉ client)
    (hkeys : ∀ option ∈ exp.cfg.options.entries, KeySyntax option.1) : ExportWritten exp where
  path := hvalid.path_normal
  nodes := itemsClosed_nodes hvalid.nodes_valid
  clients := itemsClosed_clients hvalid.clients_parse hnul
  backend := platform.backends_builtin hvalid.backend_known
  options := SortedMap.filterKeys_eq_self fun option hoption => by simp [hvalid.no_per_node option hoption]
  keys := hkeys

theorem readExport_ok (h : readExport exp = .ok read) :
    ∃ options, readOptions .empty exp.cfg.options.entries = .ok options ∧ read = exp.withOptions options := by
  unfold readExport at h
  cases hread : readOptions .empty exp.cfg.options.entries with
  | error => simp [hread, Except.map] at h
  | ok options => exact ⟨options, rfl, by simpa [hread, Except.map, eq_comm] using h⟩

theorem length_readOptions {entries : List (Text × Text)} (hentries : entries.Pairwise (·.1 < ·.1)) {options : Options}
    (h : readOptions .empty entries = .ok options) : options.entries.length = entries.length := by
  have hread := @entries_readOptions entries hentries .empty nofun
  cases hmap : entries.mapM readEntry with
  | error => simp [h, hmap, Except.map] at hread
  | ok read =>
    rw [h, hmap] at hread
    have hsame : options.entries = read := Except.ok.inj hread
    rw [hsame, (forall₂_of_mapM hmap).length_eq]

theorem readOptions_of_strip (h : readExport exp = .ok read)
    (hself : stripPerNodeKeys read = exp) : readOptions .empty exp.cfg.options.entries = .ok exp.cfg.options := by
  obtain ⟨options, hread, rfl⟩ := readExport_ok h
  have hfilter : (clusterBackendKeys options).entries = exp.cfg.options.entries :=
    congrArg (fun e : CatalogExport => e.cfg.options.entries) hself
  have hsub : exp.cfg.options.entries.Sublist options.entries := hfilter ▸ List.filter_sublist
  have hentries := hsub.eq_of_length (length_readOptions exp.cfg.options.sorted hread).symm
  rw [hread]
  exact congrArg Except.ok (SortedMap.ext hentries.symm)

theorem exists_of_forall₂ {β : Type} {R : α → β → Prop} {f : β → α} {m : List β}
    (h : List.Forall₂ R l m) (hmap : m.map f = l) : ∀ a ∈ l, ∃ b, R a b ∧ f b = a := by
  induction h with
  | nil => exact nofun
  | cons hab _ ih =>
    obtain ⟨hhead, htail⟩ := List.cons.inj hmap
    intro a ha
    rcases List.mem_cons.1 ha with rfl | ha
    · exact ⟨_, hab, hhead⟩
    · exact ih htail a ha

theorem fsids_of_forall₂ {read : List CatalogExport}
    (h : List.Forall₂ (fun exp e => readExport exp = .ok e) exports read) :
    (read.map stripPerNodeKeys).map (·.cfg.fsid) = exports.map (·.cfg.fsid) := by
  induction h with
  | nil => rfl
  | cons hread _ ih =>
    obtain ⟨options, -, rfl⟩ := readExport_ok hread
    rw [List.map_cons, List.map_cons, List.map_cons, ih]
    rfl

/-- A valid document with its exports in order is parsed back from its text exactly when all its options are readable.
Command lines hold no NUL. -/
theorem catalog_text_roundtrip_iff {platform : Platform} {activeActive : Bool} {catalog : Catalog}
    (hvalid : validateCatalog platform activeActive catalog = .ok ())
    (hsorted : catalog.exports.Pairwise (·.cfg.fsid ≤ ·.cfg.fsid))
    (hnul : ∀ exp ∈ catalog.exports, ∀ client ∈ exp.cfg.clients, '\x00' ∉ client) :
    parseCatalog (serializeCatalog catalog) = .ok catalog ↔
      ∀ exp ∈ catalog.exports, ∀ option ∈ exp.cfg.options.entries, OptionReadable option.1 option.2 := by
  have hexports := (catalogValid hvalid).1
  have hwritten (hkeys : KeysRead catalog.exports) : ∀ exp ∈ catalog.exports, ExportWritten exp := fun exp hexp =>
    exportWritten_of_valid (hexports exp hexp) (hnul exp hexp) (hkeys exp hexp)
  constructor
  · intro hparse
    have hkeys := keysRead_parse hparse
    rw [parse_serialize hsorted (hwritten hkeys)] at hparse
    cases hread : catalog.exports.mapM readExport with
    | error => simp [hread, Except.map] at hparse
    | ok read =>
      have hall := forall₂_of_mapM hread
      have hstill : (read.map stripPerNodeKeys).Pairwise (·.cfg.fsid ≤ ·.cfg.fsid) := by
        rw [← List.pairwise_map (f := fun e : CatalogExport => e.cfg.fsid), fsids_of_forall₂ hall]
        exact List.pairwise_map.2 hsorted
      have hsame : read.map stripPerNodeKeys = catalog.exports := by
        have hcatalog : (⟨catalog.info, sortByFsid (read.map stripPerNodeKeys)⟩ : Catalog) = catalog := by
          simpa [hread, Except.map] using hparse
        rw [sortByFsid_eq_self hstill] at hcatalog
        exact congrArg Catalog.exports hcatalog
      intro exp hexp option hoption
      obtain ⟨e, he, hself⟩ := exists_of_forall₂ hall hsame exp hexp
      have hoptions := readOptions_eq_self.1 (readOptions_of_strip he hself) option hoption
      exact ⟨hkeys exp hexp option hoption, readOption_iff.1 hoptions⟩
  · intro hreadable
    have hkeys : KeysRead catalog.exports := fun exp hexp option hoption =>
      (hreadable exp hexp option hoption).toKeySyntax
    have hread : catalog.exports.mapM readExport = .ok catalog.exports := by
      refine mapM_eq_self.2 fun exp hexp => ?_
      have hoptions := readOptions_eq_self.2 fun option hoption =>
        readOption_iff.2 (hreadable exp hexp option hoption).inside
      rw [readExport, hoptions]
      rfl
    have hstrip : catalog.exports.map stripPerNodeKeys = catalog.exports := by
      have hid : catalog.exports.map stripPerNodeKeys = catalog.exports.map id := by
        refine List.map_congr_left fun exp hexp => ?_
        simp [stripPerNodeKeys, (hwritten hkeys exp hexp).options]
      rw [hid, List.map_id]
    rw [parse_serialize hsorted (hwritten hkeys), hread]
    simp only [Except.map, hstrip, sortByFsid_eq_self hsorted]

/-- `export add --path /data --fsid 7 --backend cephfs --opt <name>=<value>`, committed as the first version. -/
def exportAdded (name value : Text) : Catalog where
  info := { version := 1, updatedAt := lit "2026-01-01T00:00:00Z", updatedBy := lit "gw1 uid=0", comment := lit "#1" }
  exports := [{ cfg := { path := lit "/data", fsid := 7, backend := lit "cephfs", options := .put .empty name value } }]

theorem catalog_text_roundtrip_quotes :
    validateCatalog plainPlatform false (exportAdded (lit "fs\"") (lit "a\"b\\")) = .ok () ∧
      parseCatalog (serializeCatalog (exportAdded (lit "fs\"") (lit "a\"b\\"))) =
        .ok (exportAdded (lit "fs\"") (lit "a\"b\\")) := by
  have hvalid : validateCatalog plainPlatform false (exportAdded (lit "fs\"") (lit "a\"b\\")) = .ok () := by
    decide +kernel
  have hreadable : OptionReadable (lit "fs\"") (lit "a\"b\\") :=
    ⟨⟨by rw [lit_def]; decide, by rw [lit_def]; decide, by rw [lit_def]; decide, by rw [lit_def]; decide,
      signsQuoted_of_notMem (by simp [lit_def])⟩, fun _ => by simp [lit_def]⟩
  refine ⟨hvalid, (catalog_text_roundtrip_iff hvalid (by decide +kernel) (by decide +kernel)).2 ?_⟩
  intro exp hexp option hoption
  obtain rfl := List.mem_singleton.1 hexp
  obtain rfl := List.mem_singleton.1 hoption
  exact hreadable

/-- `--opt 'a#b=1'` is accepted and written as `a#b = 1`, a line the parser cuts at the number sign. -/
theorem catalog_text_unreadable :
    validateCatalog plainPlatform false (exportAdded (lit "a#b") (lit "1")) = .ok () ∧
      (exportAdded (lit "a#b") (lit "1")).exports.Pairwise (·.cfg.fsid ≤ ·.cfg.fsid) ∧
      parseCatalog (serializeCatalog (exportAdded (lit "a#b") (lit "1"))) = .error .inval := by
  decide +kernel

end LightNfs
