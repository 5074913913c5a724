import Mathlib
import LightNfs.Basic
import LightNfs.Lib.Table
import LightNfs.Lib.Text

/-!
# The files of the shared store

`PosixClusterStore` keeps the state all gateways share as small text files below one directory, each replaced as a
whole. This module has the files' names, the texts of the records and the listings, which tell records from other
files by name.
-/

namespace LightNfs

open Text

/-- `EBUSY`. -/
abbrev Errno.busy : Errno := .other 16

/-- `EAGAIN`. -/
abbrev Errno.again : Errno := .other 11

/-! ### Names -/

def validClusterNodeName (name : Text) : Bool :=
  !name.isEmpty && name.length ≤ 64 && name.all fun c => c.isAlphanum || c == '_' || c == '.' || c == '-'

/-- A node name that the configuration accepts. -/
@[ext] structure NodeName where
  text : Text
  valid : validClusterNodeName text = true
deriving DecidableEq

/-- A path below the shared directory: a directory there, or none, and a name in it. -/
structure StorePath where
  dir : Text
  name : Text
deriving DecidableEq

abbrev Files := Table StorePath Text

/-- The names in a directory with their texts, in no particular order. -/
def Files.entriesIn (files : Files) (dir : Text) : List (Text × Text) :=
  (files.entries.filter fun e => e.1.dir = dir).map fun e => (e.1.name, e.2)

variable {α : Type} {files : List (Text × Text)} {node : Text}
variable {parse : Text × Text → Except Errno α} {recs : List α}

theorem Files.mem_entriesIn {files : Files} {dir name text : Text} :
    (name, text) ∈ files.entriesIn dir ↔ files.find ⟨dir, name⟩ = some text := by
  simp only [entriesIn, List.mem_map, List.mem_filter, decide_eq_true_eq, Prod.mk.injEq]
  constructor
  · rintro ⟨⟨⟨_, _⟩, _⟩, ⟨he, rfl⟩, rfl, rfl⟩
    exact Table.find_of_mem he
  · intro hfind
    exact ⟨⟨⟨dir, name⟩, text⟩, ⟨AList.mem_lookup_iff.1 hfind, rfl⟩, rfl, rfl⟩

theorem Files.nodup_entriesIn (files : Files) (dir : Text) : (files.entriesIn dir).Nodup := by
  have hentries : files.entries.Nodup := files.nodupKeys.nodup
  refine List.Nodup.map_on ?_ (hentries.filter _)
  rintro ⟨⟨_, _⟩, _⟩ he ⟨⟨_, _⟩, _⟩ he' heq
  simp only [List.mem_filter, decide_eq_true_eq] at he he'
  obtain ⟨-, rfl⟩ := he
  obtain ⟨-, rfl⟩ := he'
  cases heq
  rfl

/-! ### Numbers and lines -/

def parseU64 (text : Text) : Except Errno UInt64 :=
  match leadingNat text with
  | some n => if n < 2 ^ 64 then .ok (UInt64.ofNat n) else .error .inval
  | none => .error .inval

/-- Blanks and line ends are cut off behind, blanks only in front. -/
def trim (text : Text) : Text := (text.rdropWhile fun c => c == '\n' || c == ' ').dropWhile (· == ' ')

@[simp] theorem parseU64_decimal {n : Nat} (hn : n < 2 ^ 64) : parseU64 (decimal n) = .ok (UInt64.ofNat n) := by
  simp only [parseU64, leadingNat_decimal, if_pos hn]

theorem trim_line {line : Text} (hhead : line.head? ≠ some ' ')
    (hlast : ∀ c, line.getLast? = some c → c ≠ '\n' ∧ c ≠ ' ') : trim (line ++ ['\n']) = line := by
  let blank : Char → Bool := fun c => c == '\n' || c == ' '
  have hcut : (line ++ ['\n']).rdropWhile blank = line := by
    rw [List.rdropWhile_concat_pos _ _ _ (by decide)]
    rcases List.eq_nil_or_concat line with rfl | ⟨front, c, rfl⟩
    · rfl
    · have hc := hlast c (by simp)
      rw [List.concat_eq_append, List.rdropWhile_concat_neg _ _ _ (by simp [blank, hc])]
  change ((line ++ ['\n']).rdropWhile blank).dropWhile _ = _
  rw [hcut]
  cases line with
  | nil => rfl
  | cons c rest => exact List.dropWhile_cons_of_neg (by simpa using hhead)

theorem getLast?_decimal {front : Text} {n : Nat} {c : Char} (h : (front ++ decimal n).getLast? = some c) :
    c ≠ '\n' ∧ c ≠ ' ' := by
  rw [List.getLast?_append_of_ne_nil _ (decimal_ne_nil n)] at h
  have hdigit := isDigit_of_mem_decimal (List.mem_of_getLast? h)
  constructor <;> (rintro rfl; exact absurd hdigit (by decide))

/-- The last `n` hexadecimal digits of a number. -/
def hexDigits : Nat → Nat → Text
  | 0, _ => []
  | n + 1, x => hexDigits n (x / 16) ++ [Nat.digitChar (x % 16)]

/-- `%016llx`. -/
def hex16 (x : UInt64) : Text := hexDigits 16 x.toNat

/-! ### Fence records -/

/-- `NodeFences::Hold`: an export and the epoch its fence was taken with. -/
structure Hold where
  fsid : UInt32
  epoch : UInt64
deriving DecidableEq

/-- `NodeFences`: what one node holds under its lease. -/
structure NodeFences where
  node : Text
  expires : Int64 := 0
  holds : List Hold := []
deriving DecidableEq

variable {records : List NodeFences}

def fencePath (node : Text) : StorePath := ⟨[], lit "fence." ++ node⟩

def Hold.text (hold : Hold) : Text := decimal hold.fsid.toNat ++ ':' :: decimal hold.epoch.toNat

/-- The exports of a record, as its text lists them. -/
def holdsText : List Hold → Text
  | [] => []
  | holds => ' ' :: [','].intercalate (holds.map Hold.text)

/-- What `write_node_fences` writes. -/
def NodeFences.text (rec : NodeFences) : Text := decimalInt rec.expires.toInt ++ holdsText rec.holds ++ ['\n']

def parseHold (item : Text) : Except Errno Hold :=
  match cut ':' item with
  | (_, none) => .error .inval
  | (number, some rest) => do
    let fsid ← parseU64 number
    if fsid = 0 ∨ fsid > 0xFFFFFFFF then throw .inval
    let epoch ← parseU64 rest
    return ⟨fsid.toUInt32, epoch⟩

/-- The loop over the items; `fuel` bounds its rounds. -/
def parseHolds : Nat → Text → Except Errno (List Hold)
  | _, [] => .ok []
  | 0, _ :: _ => .error .inval
  | fuel + 1, list => do
    let hold ← parseHold (cut ',' list).1
    match (cut ',' list).2 with
    | none => return [hold]
    | some rest => return hold :: (← parseHolds fuel rest)

variable (hold : Hold) (holds : List Hold)

def sortHolds : List Hold := holds.insertionSort (·.fsid ≤ ·.fsid)

def parseNodeFences (node text : Text) : Except Errno NodeFences := do
  let line := cut ' ' (trim text)
  let expires ← parseU64 line.1
  match line.2 with
  | none => return ⟨node, expires.toInt64, []⟩
  | some list => return ⟨node, expires.toInt64, sortHolds (← parseHolds list.length list)⟩

/-! ### What is written is read back -/

theorem toInt64_ofNat_toNat {x : Int64} (hx : 0 ≤ x.toInt) : (UInt64.ofNat x.toInt.toNat).toInt64 = x := by
  apply Int64.toInt_inj.1
  have hlt := x.toInt_lt
  rw [UInt64.toInt64_ofNat', Int64.toInt_ofNat_of_lt (by omega), Int.toNat_of_nonneg hx]

theorem notMem_holdText {c : Char} (hc : c.isDigit = false) (hcolon : c ≠ ':') (hold : Hold) : c ∉ hold.text := by
  simp [Hold.text, notMem_decimal hc, hcolon]

theorem parseHold_text :
    parseHold hold.text = if hold.fsid = 0 then .error .inval else .ok hold := by
  have hfsid := hold.fsid.toNat_lt
  have hepoch := hold.epoch.toNat_lt
  have hcut : cut ':' hold.text = (decimal hold.fsid.toNat, some (decimal hold.epoch.toNat)) :=
    cut_append (notMem_decimal (by decide)) _
  simp only [parseHold, hcut]
  rw [parseU64_decimal (by omega), parseU64_decimal (by omega)]
  have hzero : hold.fsid.toUInt64 = 0 ↔ hold.fsid = 0 := by
    rw [← UInt64.toNat_inj, ← UInt32.toNat_inj]
    rfl
  have hsmall : hold.fsid.toUInt64 ≤ 0xFFFFFFFF := by
    rw [UInt64.le_iff_toNat_le]
    exact Nat.le_of_lt_succ hfsid
  by_cases h : hold.fsid = 0
  · simp [h, bind, Except.bind, throw, throwThe, MonadExceptOf.throw]
  · simp [h, hzero, hsmall, bind, Except.bind, pure, Except.pure]

theorem Hold.text_ne_nil : hold.text ≠ [] := by simp [Hold.text]

theorem parseHolds_succ {fuel : Nat} {list : Text} (hlist : list ≠ []) :
    parseHolds (fuel + 1) list = do
      let hold ← parseHold (cut ',' list).1
      match (cut ',' list).2 with
      | none => return [hold]
      | some rest => return hold :: (← parseHolds fuel rest) := by
  cases list with
  | nil => exact absurd rfl hlist
  | cons => rfl

theorem parseHolds_text {holds : List Hold} {fuel : Nat} (hfuel : holds.length < fuel) :
    parseHolds fuel ([','].intercalate ((hold :: holds).map Hold.text)) =
      if ∃ h ∈ hold :: holds, h.fsid = 0 then .error .inval else .ok (hold :: holds) := by
  induction holds generalizing hold fuel with
  | nil =>
    obtain ⟨fuel, rfl⟩ : ∃ k, fuel = k + 1 := ⟨fuel - 1, by simp at hfuel; omega⟩
    rw [List.map_cons, List.map_nil, List.intercalate_singleton, parseHolds_succ hold.text_ne_nil,
      cut_of_notMem (notMem_holdText (by decide) (by decide) hold), parseHold_text]
    split <;> simp_all [bind, Except.bind, pure, Except.pure]
  | cons next holds ih =>
    obtain ⟨fuel, rfl⟩ : ∃ k, fuel = k + 1 := ⟨fuel - 1, by simp at hfuel; omega⟩
    rw [List.map_cons, List.map_cons, List.intercalate_cons_cons, List.append_assoc, ← List.map_cons,
      List.singleton_append, parseHolds_succ (by simp), cut_append (notMem_holdText (by decide) (by decide) hold),
      parseHold_text]
    have hrest : parseHolds fuel ([','].intercalate ((next :: holds).map Hold.text)) = _ :=
      ih next (by simpa using hfuel)
    simp only [hrest]
    by_cases hzero : hold.fsid = 0
    · simp [hzero, bind, Except.bind]
    · have hexists : (∃ h ∈ hold :: next :: holds, h.fsid = 0) ↔ ∃ h ∈ next :: holds, h.fsid = 0 := by
        simp [hzero]
      simp only [hexists, if_neg hzero]
      by_cases hothers : ∃ h ∈ next :: holds, h.fsid = 0
      · rw [if_pos hothers, if_pos hothers]
        rfl
      · rw [if_neg hothers, if_neg hothers]
        rfl

theorem length_holdsText :
    holds.length < ([','].intercalate ((hold :: holds).map Hold.text)).length := by
  induction holds generalizing hold with
  | nil => simpa using List.length_pos_of_ne_nil hold.text_ne_nil
  | cons next holds ih =>
    have hrest := ih next
    rw [List.map_cons, List.map_cons, List.intercalate_cons_cons, ← List.map_cons]
    simp only [List.length_append, List.length_cons]
    omega

theorem holdsText_ends :
    ∃ front n, [','].intercalate ((hold :: holds).map Hold.text) = front ++ decimal n := by
  induction holds generalizing hold with
  | nil => exact ⟨decimal hold.fsid.toNat ++ [':'], hold.epoch.toNat, by simp [Hold.text]⟩
  | cons next holds ih =>
    obtain ⟨front, n, hends⟩ := ih next
    refine ⟨hold.text ++ [','] ++ front, n, ?_⟩
    rw [List.map_cons, List.map_cons, List.intercalate_cons_cons, ← List.map_cons, hends, ← List.append_assoc]

theorem NodeFences.trim_text (rec : NodeFences) :
    trim rec.text = decimalInt rec.expires.toInt ++ holdsText rec.holds := by
  obtain ⟨front, n, hends⟩ :
      ∃ front n, decimalInt rec.expires.toInt ++ holdsText rec.holds = front ++ decimal n := by
    match rec.holds with
    | [] =>
      simp only [holdsText, List.append_nil, decimalInt]
      split
      · exact ⟨['-'], _, rfl⟩
      · exact ⟨[], _, rfl⟩
    | hold :: holds =>
      obtain ⟨front, n, hends⟩ := holdsText_ends hold holds
      exact ⟨decimalInt rec.expires.toInt ++ ' ' :: front, n, by simp [holdsText, ← hends]⟩
  rw [NodeFences.text, trim_line _ fun c hc => getLast?_decimal (hends ▸ hc)]
  intro hhead
  rw [List.head?_append_of_ne_nil _ (decimalInt_ne_nil _)] at hhead
  exact notMem_decimalInt (by decide) (by decide) (List.mem_of_head? hhead)

theorem parseNodeFences_text {rec : NodeFences} (hsorted : rec.holds.Pairwise (·.fsid ≤ ·.fsid)) (node : Text) :
    parseNodeFences node rec.text =
      if rec.expires.toInt < 0 ∨ ∃ h ∈ rec.holds, h.fsid = 0 then .error .inval else .ok { rec with node } := by
  have hnoblank : ' ' ∉ decimalInt rec.expires.toInt := notMem_decimalInt (by decide) (by decide)
  rw [parseNodeFences, rec.trim_text]
  by_cases hneg : rec.expires.toInt < 0
  · have hhead : parseU64 (decimalInt rec.expires.toInt) = .error .inval := by
      rw [parseU64, leadingNat_eq_none]
      simp [decimalInt, hneg]
    cases hholds : rec.holds with
    | nil => simp [holdsText, cut_of_notMem hnoblank, hhead, hneg, bind, Except.bind]
    | cons hold holds => simp [holdsText, cut_append hnoblank, hhead, hneg, bind, Except.bind]
  · have hlt := rec.expires.toInt_lt
    obtain ⟨expires, hhead, hexpires⟩ :
        ∃ expires, parseU64 (decimalInt rec.expires.toInt) = .ok expires ∧ expires.toInt64 = rec.expires := by
      refine ⟨_, ?_, toInt64_ofNat_toNat (not_lt.1 hneg)⟩
      rw [decimalInt, if_neg hneg, parseU64_decimal (by omega)]
    cases hholds : rec.holds with
    | nil => simp [holdsText, cut_of_notMem hnoblank, hhead, hneg, bind, Except.bind, pure, Except.pure, hexpires]
    | cons hold holds =>
      have hparse := parseHolds_text hold (length_holdsText hold holds)
      have hsort : sortHolds (hold :: holds) = hold :: holds := (hholds ▸ hsorted).insertionSort_eq
      simp only [holdsText, cut_append hnoblank, hhead, hparse, hneg, bind, Except.bind, pure, Except.pure, hexpires,
        false_or]
      by_cases hzero : ∃ h ∈ hold :: holds, h.fsid = 0
      · simp only [if_pos hzero]
      · simp only [if_neg hzero, hsort]

/-- `find_hold`. -/
def NodeFences.names (rec : NodeFences) (fsid : UInt32) : Bool := rec.holds.any (·.fsid == fsid)

/-- Parses every file of a listing; the first that does not parse fails the listing. -/
def parseEach {α : Type} (parse : Text × Text → Except Errno α) : List (Text × Text) → Except Errno (List α)
  | [] => .ok []
  | file :: files => do return (← parse file) :: (← parseEach parse files)

theorem parseEach_cons {file : Text × Text} :
    parseEach parse (file :: files) = .ok recs ↔
      ∃ rec rest, parse file = .ok rec ∧ parseEach parse files = .ok rest ∧ recs = rec :: rest := by
  simp only [parseEach, bind, Except.bind, pure, Except.pure]
  cases parse file <;> cases parseEach parse files <;> simp [eq_comm]

theorem mem_parseEach
    (h : parseEach parse files = .ok recs) (rec : α) : rec ∈ recs ↔ ∃ file ∈ files, parse file = .ok rec := by
  induction files generalizing recs with
  | nil =>
    cases h
    simp
  | cons file files ih =>
    obtain ⟨first, rest, hfirst, hrest, rfl⟩ := parseEach_cons.1 h
    simp [ih hrest, hfirst, eq_comm]

theorem parses_of_parseEach (h : parseEach parse files = .ok recs) {file : Text × Text} (hfile : file ∈ files) :
    ∃ rec, parse file = .ok rec := by
  induction files generalizing recs with
  | nil => exact absurd hfile List.not_mem_nil
  | cons first files ih =>
    obtain ⟨rec, rest, hfirst, hrest, rfl⟩ := parseEach_cons.1 h
    rcases List.mem_cons.1 hfile with rfl | hfile
    · exact ⟨rec, hfirst⟩
    · exact ih hrest hfile

theorem parseEach_perm {files' : List (Text × Text)}
    (h : files.Perm files') (hrecs : parseEach parse files = .ok recs) :
    ∃ recs', parseEach parse files' = .ok recs' ∧ recs.Perm recs' := by
  induction h generalizing recs with
  | nil => exact ⟨recs, hrecs, .refl _⟩
  | cons file _ ih =>
    obtain ⟨rec, rest, hrec, hrest, rfl⟩ := parseEach_cons.1 hrecs
    obtain ⟨rest', hrest', hperm⟩ := ih hrest
    exact ⟨rec :: rest', parseEach_cons.2 ⟨rec, rest', hrec, hrest', rfl⟩, hperm.cons rec⟩
  | swap file file' files =>
    obtain ⟨rec', _, hrec', hfiles, rfl⟩ := parseEach_cons.1 hrecs
    obtain ⟨rec, rest, hrec, hrest, rfl⟩ := parseEach_cons.1 hfiles
    exact ⟨rec :: rec' :: rest,
      parseEach_cons.2 ⟨rec, _, hrec, parseEach_cons.2 ⟨rec', rest, hrec', hrest, rfl⟩, rfl⟩, .swap ..⟩
  | trans _ _ ih ih' =>
    obtain ⟨recs', hrecs', hperm⟩ := ih hrecs
    obtain ⟨recs'', hrecs'', hperm'⟩ := ih' hrecs'
    exact ⟨recs'', hrecs'', hperm.trans hperm'⟩

theorem parseEach_map {β : Type} {file : β → Text × Text} {rec : β → α}
    {items : List β} (h : ∀ item ∈ items, parse (file item) = .ok (rec item)) :
    parseEach parse (items.map file) = .ok (items.map rec) := by
  induction items with
  | nil => rfl
  | cons item items ih =>
    refine parseEach_cons.2 ⟨rec item, items.map rec, h item List.mem_cons_self, ih fun i hi => ?_, rfl⟩
    exact h i (List.mem_cons_of_mem _ hi)

theorem parseEach_of_perm {β : Type} (parse : Text × Text → Except Errno α)
    {items : List β} {file : β → Text × Text} (rec : β → α) (hperm : files.Perm (items.map file))
    (h : ∀ item ∈ items, parse (file item) = .ok (rec item)) :
    ∃ recs, parseEach parse files = .ok recs ∧ recs.Perm (items.map rec) := by
  obtain ⟨recs, hrecs, hsame⟩ := parseEach_perm hperm.symm (parseEach_map h)
  exact ⟨recs, hrecs, hsame.symm⟩

/-- The name of a file that is being written. -/
def isTemp (name : Text) : Bool := decide (lit ".tmp." <:+: name)

theorem notMem_hexDigits (n x : Nat) : '.' ∉ hexDigits n x := by
  induction n generalizing x with
  | zero => exact List.not_mem_nil
  | succ n ih =>
    have hdigit : ∀ d < 16, '.' ≠ Nat.digitChar d := by decide
    rw [hexDigits, List.mem_append, List.mem_singleton, not_or]
    exact ⟨ih _, hdigit _ (Nat.mod_lt _ (by decide))⟩

theorem isTemp_hex16 (x : UInt64) : isTemp (hex16 x) = false := by
  rw [isTemp, decide_eq_false_iff_not]
  intro htemp
  exact notMem_hexDigits 16 x.toNat (htemp.mem (by simp [lit_def]))

/-- The names `list_fences` takes for records. -/
def fenceListed (name : Text) : Bool :=
  (lit "fence.").isPrefixOf name && !(lit ".lock").isSuffixOf name && !isTemp name

def listFences (files : Files) : Except Errno (List NodeFences) := do
  let recs ← parseEach (fun file => parseNodeFences (file.1.drop 6) file.2)
    ((files.entriesIn []).filter fun file => fenceListed file.1)
  return recs.insertionSort (·.node ≤ ·.node)

theorem parseNodeFences_node {text : Text} {rec : NodeFences} (h : parseNodeFences node text = .ok rec) :
    rec.node = node := by
  simp only [parseNodeFences, bind, Except.bind] at h
  split at h <;> try contradiction
  split at h
  · cases h
    rfl
  · split at h <;> try contradiction
    cases h
    rfl

@[simp] theorem drop_fencePath (node : Text) : (fencePath node).name.drop 6 = node :=
  List.drop_left' (by simp [lit_def] : (lit "fence.").length = 6)

theorem fenceListed_iff {name : Text} (h : fenceListed name = true) : name = lit "fence." ++ name.drop 6 := by
  simp only [fenceListed, Bool.and_eq_true, List.isPrefixOf_iff_prefix] at h
  obtain ⟨rest, rfl⟩ := h.1.1
  rw [List.drop_left' (by simp [lit_def] : (lit "fence.").length = 6)]

/-- The node's record is one of those `list_fences` looks at. -/
def FenceVisible (node : Text) : Prop := fenceListed (fencePath node).name = true

instance (node : Text) : Decidable (FenceVisible node) := inferInstanceAs (Decidable (_ = true))

theorem listFences_ok {files : Files} (h : listFences files = .ok records) :
    ∃ recs, parseEach (fun file => parseNodeFences (file.1.drop 6) file.2)
      ((files.entriesIn []).filter fun file => fenceListed file.1) = .ok recs ∧
      records = recs.insertionSort (·.node ≤ ·.node) := by
  simp only [listFences, bind, Except.bind] at h
  split at h <;> try contradiction
  rename_i recs hrecs
  cases h
  exact ⟨recs, hrecs, rfl⟩

theorem mem_listFences {files : Files} (h : listFences files = .ok records)
    (rec : NodeFences) :
    rec ∈ records ↔ FenceVisible rec.node ∧
      ∃ text, files.find (fencePath rec.node) = some text ∧ parseNodeFences rec.node text = .ok rec := by
  obtain ⟨recs, hrecs, rfl⟩ := listFences_ok h
  rw [List.mem_insertionSort, mem_parseEach hrecs]
  constructor
  · rintro ⟨⟨name, text⟩, hfile, hparse⟩
    rw [List.mem_filter, Files.mem_entriesIn] at hfile
    have hname := fenceListed_iff hfile.2
    have hnode : rec.node = name.drop 6 := parseNodeFences_node hparse
    have hpath : fencePath rec.node = ⟨[], name⟩ := by rw [fencePath, hnode, ← hname]
    refine ⟨?_, text, hpath ▸ hfile.1, hnode ▸ hparse⟩
    rw [FenceVisible, hpath]
    exact hfile.2
  · rintro ⟨hvisible, text, hfind, hparse⟩
    refine ⟨((fencePath rec.node).name, text), List.mem_filter.2 ⟨Files.mem_entriesIn.2 hfind, hvisible⟩, ?_⟩
    rw [drop_fencePath]
    exact hparse

theorem parses_of_listFences {files : Files} (h : listFences files = .ok records)
    {text : Text} (hvisible : FenceVisible node) (hfind : files.find (fencePath node) = some text) :
    ∃ rec, parseNodeFences node text = .ok rec := by
  obtain ⟨recs, hrecs, -⟩ := listFences_ok h
  have hfile : ((fencePath node).name, text) ∈ (files.entriesIn []).filter fun file => fenceListed file.1 :=
    List.mem_filter.2 ⟨Files.mem_entriesIn.2 hfind, hvisible⟩
  have hparses := parses_of_parseEach hrecs hfile
  rwa [drop_fencePath] at hparses

/-! ### Addresses and applied catalogs -/

def nodesDir : Text := lit "nodes"

/-- `nodes/<node>`; the two dot names are the directory itself and the shared directory. -/
def addressPath (node : Text) : StorePath :=
  if node = ['.'] then ⟨[], nodesDir⟩ else if node = ['.', '.'] then ⟨[], []⟩ else ⟨nodesDir, node⟩

/-- A directory is not replaced by a file. -/
def putNodeAddress (files : Files) (node address : Text) : Except Errno Files :=
  if (addressPath node).dir = nodesDir then .ok (files.put (addressPath node) (address ++ ['\n'])) else .error .isdir

def listNodes (files : Files) : List (Text × Text) :=
  (((files.entriesIn nodesDir).filter fun file => !isTemp file.1).map fun file =>
    (file.1, trim file.2)).insertionSort (·.1 ≤ ·.1)

/-- What a gateway says of its last apply. -/
structure CatalogApplied where
  node : Text
  version : UInt64
  digest : Text
  appliedAt : Int64
  status : Text
deriving DecidableEq

/-- The names the catalog's own files need. -/
def validAppliedNode (node : Text) : Bool :=
  !node.isEmpty && node != lit "toml" && node != lit "lock" && node != lit "history" &&
    !node.contains '/' && !node.contains ' '

def appliedPath (node : Text) : StorePath := ⟨[], lit "catalog." ++ node⟩

def CatalogApplied.text (applied : CatalogApplied) : Text :=
  decimal applied.version.toNat ++ ' ' :: applied.digest ++ ' ' :: decimalInt applied.appliedAt.toInt ++
    ' ' :: applied.status ++ ['\n']

/-- The checks of `put_catalog_applied` on what is recorded. -/
def CatalogApplied.accepted (applied : CatalogApplied) : Bool :=
  !applied.digest.isEmpty && !applied.digest.contains ' ' && !applied.status.isEmpty && !applied.status.contains '\n'

def putCatalogApplied (files : Files) (applied : CatalogApplied) : Except Errno Files :=
  if validAppliedNode applied.node && applied.accepted then .ok (files.put (appliedPath applied.node) applied.text)
  else .error .inval

/-- The status is the rest of the line. -/
def parseCatalogApplied (node text : Text) : Except Errno CatalogApplied :=
  let (version, rest) := cut ' ' (trim text)
  match rest.map (cut ' ') with
  | some (digest, some rest) =>
    match cut ' ' rest with
    | (appliedAt, some status) => do
      let version ← parseU64 version
      let appliedAt ← parseU64 appliedAt
      if status = [] then throw .inval
      return ⟨node, version, digest, appliedAt.toInt64, status⟩
    | _ => .error .inval
  | _ => .error .inval

@[simp] theorem drop_appliedPath (node : Text) : (appliedPath node).name.drop 8 = node :=
  List.drop_left' (by simp [lit_def] : (lit "catalog.").length = 8)

theorem parseCatalogApplied_text {applied : CatalogApplied} (haccepted : applied.accepted = true)
    (htime : 0 ≤ applied.appliedAt.toInt) (hstatus : applied.status.getLast? ≠ some ' ') (node : Text) :
    parseCatalogApplied node applied.text = .ok { applied with node } := by
  simp only [CatalogApplied.accepted, Bool.and_eq_true, Bool.not_eq_true', List.isEmpty_eq_false_iff,
    List.contains_eq_mem, decide_eq_false_iff_not] at haccepted
  obtain ⟨⟨⟨-, hdigest⟩, hne⟩, hline⟩ := haccepted
  have hnoblank : ' ' ∉ decimal applied.version.toNat := notMem_decimal (by decide)
  have htrim : trim applied.text = decimal applied.version.toNat ++ ' ' :: (applied.digest ++ ' ' ::
      (decimalInt applied.appliedAt.toInt ++ ' ' :: applied.status)) := by
    rw [CatalogApplied.text, trim_line]
    · simp
    · simp only [List.append_assoc, List.head?_append_of_ne_nil _ (decimal_ne_nil _)]
      exact fun hhead => hnoblank (List.mem_of_head? hhead)
    · intro c hc
      rw [List.getLast?_append_of_ne_nil _ (by simp), List.getLast?_cons_of_ne_nil hne] at hc
      refine ⟨fun heq => hline (heq ▸ List.mem_of_getLast? hc), fun heq => hstatus (heq ▸ hc)⟩
  have hversion := applied.version.toNat_lt
  have hlt := applied.appliedAt.toInt_lt
  have htimeText : parseU64 (decimalInt applied.appliedAt.toInt) =
      .ok (UInt64.ofNat applied.appliedAt.toInt.toNat) := by
    rw [decimalInt, if_neg (not_lt.2 htime), parseU64_decimal (by omega)]
  have hnoblankTime : ' ' ∉ decimalInt applied.appliedAt.toInt := notMem_decimalInt (by decide) (by decide)
  have htime64 := toInt64_ofNat_toNat htime
  rw [parseCatalogApplied, htrim, cut_append hnoblank]
  simp only [Option.map_some, cut_append hdigest, cut_append hnoblankTime]
  rw [parseU64_decimal (by omega), htimeText]
  simp only [bind, Except.bind, if_neg hne, htime64]
  simp [pure, Except.pure]

theorem parseCatalogApplied_node {text : Text} {applied : CatalogApplied}
    (h : parseCatalogApplied node text = .ok applied) : applied.node = node := by
  simp only [parseCatalogApplied, bind, Except.bind, pure, Except.pure, throw, throwThe, MonadExceptOf.throw] at h
  repeat' split at h
  all_goals first | contradiction | (cases h; rfl)

def appliedListed (name : Text) : Bool :=
  (lit "catalog.").isPrefixOf name && !isTemp name && validAppliedNode (name.drop 8)

def listCatalogApplied (files : Files) : Except Errno (List CatalogApplied) := do
  let recs ← parseEach (fun file => parseCatalogApplied (file.1.drop 8) file.2)
    ((files.entriesIn []).filter fun file => appliedListed file.1)
  return recs.insertionSort (·.node ≤ ·.node)

end LightNfs
