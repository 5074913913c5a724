import LightNfs.Core.CatalogText
import LightNfs.Lib.System

/-!
# Commits to the catalog

A command of any gateway reads the catalog, changes what it read and writes the result with the version it read; the
store takes the text only if that version is still the current one, and keeps the text it replaces. A writer that
was overtaken starts over. The section under `catalog.lock` is one step here.
-/

namespace LightNfs

open Text

/-! ### Files -/

def catalogPath : StorePath := ⟨[], lit "catalog.toml"⟩

def historyDir : Text := lit "catalog.history"

def historyPath (version : UInt64) : StorePath := ⟨historyDir, decimal version.toNat ++ lit ".toml"⟩

def kCatalogHistoryKeep : Nat := 32

structure CatalogDoc where
  version : UInt64
  text : Text
deriving DecidableEq

def readCatalog (files : Files) : Except Errno (Option CatalogDoc) :=
  match files.find catalogPath with
  | none => .ok none
  | some text => do return some ⟨← peekCatalogVersion text, text⟩

/-- The version a file of the history is named after. -/
def historyVersion (name : Text) : Option UInt64 :=
  if (lit ".toml").isSuffixOf name && !isTemp name then
    let stem := name.take (name.length - 5)
    match parseU64 stem with
    | .ok version => if decimal version.toNat = stem then some version else none
    | .error _ => none
  else none

def listCatalogHistory (files : Files) : List UInt64 :=
  ((files.entriesIn historyDir).filterMap fun file => historyVersion file.1).insertionSort (· ≤ ·)

/-- What the file system refuses in a write: the call before it reads the catalog, the copy of the replaced text, the
new text, the listing of the history, and the removal of old versions. -/
structure CatalogFaults where
  before : Option Errno := none
  history : Option Errno := none
  catalog : Option Errno := none
  listing : Bool := false
  unlink : UInt64 → Bool := fun _ => false

/-- The versions beyond the newest `kCatalogHistoryKeep`. -/
def outdated (versions : List UInt64) : List UInt64 := versions.take (versions.length - kCatalogHistoryKeep)

variable (faults : CatalogFaults)

def pruneHistory (files : Files) : Files :=
  if faults.listing then files
  else ((outdated (listCatalogHistory files)).filter fun version => !faults.unlink version).foldl
    (fun files version => files.remove (historyPath version)) files

/-- The version of the catalog, 0 when there is none. -/
def docVersion (doc : Option CatalogDoc) : UInt64 := (doc.map (·.version)).getD 0

def keepReplaced (files : Files) : Option CatalogDoc → Files
  | none => files
  | some doc => files.put (historyPath doc.version) doc.text

/-- The section under the lock, once the version was found to be the expected one. -/
def replaceCatalog (files : Files) (current : Option CatalogDoc) (version : UInt64)
    (text : Text) : Except Errno UInt64 × Files :=
  match current.bind fun _ => faults.history with
  | some error => (.error error, files)
  | none =>
    match faults.catalog with
    | some error => (.error error, keepReplaced files current)
    | none => (.ok version, pruneHistory faults ((keepReplaced files current).put catalogPath text))

def writeCatalog (files : Files) (expected : UInt64) (text : Text) :
    Except Errno UInt64 × Files :=
  match peekCatalogVersion text with
  | .error error => (.error error, files)
  | .ok version =>
    if version ≠ expected + 1 then (.error .inval, files)
    else
      match faults.before with
      | some error => (.error error, files)
      | none =>
        match readCatalog files with
        | .error error => (.error error, files)
        | .ok current =>
          if docVersion current ≠ expected then (.error .again, files)
          else replaceCatalog faults files current version text

/-! ### Commands -/

/-- What a command of a gateway wants to do to the catalog, and how it signs it. -/
structure CommitCommand where
  mutate : Option Catalog → Except Errno Catalog
  activeActive : Bool
  author : Text
  comment : Text

def kCatalogCommitRetries : Nat := 3

/-- What `commit` makes of a document it has read: the version it expects and the text to write. -/
def prepare (platform : Platform) (command : CommitCommand) (stamp : Text) (base : Option CatalogDoc) :
    Except Errno (UInt64 × Text) := do
  let current ← base.mapM fun doc => parseCatalog doc.text
  let next ← command.mutate current
  match validateCatalog platform command.activeActive next with
  | .error refusal => .error refusal.error
  | .ok _ =>
    let was := (current.map (·.info.version)).getD 0
    if (diffCatalog (current.getD {}) next).rejected ≠ [] then .error .inval
    else
      .ok (was, serializeCatalog { next with info := ⟨was + 1, stamp, command.author, command.comment⟩ })

inductive CommitPhase where
  | done (result : Except Errno UInt64)
  | reading (command : CommitCommand) (attempt : Nat)
  | writing (command : CommitCommand) (attempt : Nat) (stamp : Text) (base : Option CatalogDoc) (was : UInt64)
      (text : Text)

/-- A version that was written, and the document it was made from. -/
structure CatalogCommit where
  doc : CatalogDoc
  base : Option CatalogDoc
  command : CommitCommand
  stamp : Text

/-- The shared files, the commands under way and, for the record, the versions written. -/
structure CatalogStore where
  files : Files
  phases : Nat → CommitPhase := fun _ => .done (.ok 0)
  log : List CatalogCommit := []

inductive CatalogEvent where
  | start (who : Nat) (command : CommitCommand)
  | read (who : Nat) (stamp : Text) (fault : Option Errno)
  | write (who : Nat) (faults : CatalogFaults)

namespace CatalogStore

variable (platform : Platform)

def setPhase (store : CatalogStore) (who : Nat) (phase : CommitPhase) : CatalogStore :=
  { store with phases := Function.update store.phases who phase }

def readPhase (store : CatalogStore) (command : CommitCommand) (attempt : Nat) (stamp : Text) (fault : Option Errno) :
    CommitPhase :=
  match fault with
  | some error => .done (.error error)
  | none =>
    match readCatalog store.files with
    | .error error => .done (.error error)
    | .ok base =>
      match prepare platform command stamp base with
      | .error error => .done (.error error)
      | .ok (was, text) => .writing command attempt stamp base was text

/-- What follows a write: a writer that was overtaken reads again, up to the last attempt. -/
def writePhase (command : CommitCommand) (attempt : Nat) : Except Errno UInt64 → CommitPhase
  | .ok version => .done (.ok version)
  | .error error =>
    if error ≠ .again ∨ attempt + 1 ≥ kCatalogCommitRetries then .done (.error error)
    else .reading command (attempt + 1)

def step (store : CatalogStore) : CatalogEvent → CatalogStore
  | .start who command =>
    match store.phases who with
    | .done _ => store.setPhase who (.reading command 0)
    | _ => store
  | .read who stamp fault =>
    match store.phases who with
    | .reading command attempt => store.setPhase who (store.readPhase platform command attempt stamp fault)
    | _ => store
  | .write who faults =>
    match store.phases who with
    | .writing command attempt stamp base was text =>
      let (result, files) := writeCatalog faults store.files was text
      let commit := match result with
        | .ok version => [⟨⟨version, text⟩, base, command, stamp⟩]
        | .error _ => []
      { store.setPhase who (writePhase command attempt result) with files, log := store.log ++ commit }
    | _ => store

end CatalogStore

variable {files : Files} {v was : UInt64} {platform : Platform} {first : Option CatalogDoc} {command : CommitCommand}
  {stamp : Text}
variable {text : Text} {path : StorePath} {base : Option CatalogDoc} {commits : List CatalogCommit}

theorem historyPath_injective {w : UInt64} (h : historyPath v = historyPath w) : v = w := by
  have hname : decimal v.toNat ++ lit ".toml" = decimal w.toNat ++ lit ".toml" := congrArg StorePath.name h
  exact UInt64.toNat_inj.1 (decimal_injective (List.append_cancel_right hname))

theorem historyPath_ne_catalogPath (v : UInt64) : historyPath v ≠ catalogPath := by
  intro h
  exact absurd (congrArg StorePath.dir h) (show ¬historyDir = [] by decide +kernel)

theorem historyVersion_iff {name : Text} : historyVersion name = some v ↔ name = (historyPath v).name := by
  have hlen : (lit ".toml").length = 5 := by simp [lit_def]
  constructor
  · intro h
    unfold historyVersion at h
    split at h <;> try contradiction
    rename_i hname
    simp only [Bool.and_eq_true, List.isSuffixOf_iff_suffix] at hname
    obtain ⟨stem, rfl⟩ := hname.1
    have hstem : (stem ++ lit ".toml").take ((stem ++ lit ".toml").length - 5) = stem := by
      rw [List.length_append, hlen, Nat.add_sub_cancel, List.take_left']
      rfl
    simp only [hstem] at h
    split at h <;> try contradiction
    split at h <;> try contradiction
    rename_i hsame
    cases h
    rw [historyPath, hsame]
  · rintro rfl
    have htemp : isTemp (historyPath v).name = false := by
      have hpattern : lit ".tmp." = '.' :: lit "tmp." := by simp [lit_def]
      rw [isTemp, decide_eq_false_iff_not, hpattern]
      intro hinfix
      exact absurd ((cons_infix_append_iff (notMem_decimal (by decide))).1 hinfix) (by decide +kernel)
    have hsuffix : (lit ".toml").isSuffixOf (historyPath v).name = true :=
      List.isSuffixOf_iff_suffix.2 (List.suffix_append _ _)
    have hstem : (historyPath v).name.take ((historyPath v).name.length - 5) = decimal v.toNat := by
      rw [historyPath, List.length_append, hlen, Nat.add_sub_cancel, List.take_left']
      rfl
    simp only [historyVersion, htemp, hsuffix, hstem, parseU64_decimal v.toNat_lt, UInt64.ofNat_toNat]
    simp

theorem mem_listCatalogHistory :
    v ∈ listCatalogHistory files ↔ ∃ text, files.find (historyPath v) = some text := by
  simp only [listCatalogHistory, List.mem_insertionSort, List.mem_filterMap, historyVersion_iff]
  constructor
  · rintro ⟨⟨name, text⟩, hfile, rfl⟩
    exact ⟨text, Files.mem_entriesIn.1 hfile⟩
  · rintro ⟨text, hfind⟩
    exact ⟨((historyPath v).name, text), Files.mem_entriesIn.2 hfind, rfl⟩

theorem sorted_listCatalogHistory (files : Files) : (listCatalogHistory files).Pairwise (·.toNat < ·.toNat) := by
  have : Std.Total (fun a b : UInt64 => a ≤ b) := ⟨UInt64.le_total⟩
  have : IsTrans UInt64 (fun a b => a ≤ b) := ⟨fun _ _ _ => UInt64.le_trans⟩
  have hsorted : (listCatalogHistory files).Pairwise (· ≤ ·) := List.pairwise_insertionSort ..
  have hnodup : (listCatalogHistory files).Nodup := by
    have hnames : ((files.entriesIn historyDir).map Prod.fst).Nodup := by
      refine List.Nodup.map_on ?_ (files.nodup_entriesIn historyDir)
      rintro ⟨name, text⟩ hfile ⟨_, text'⟩ hfile' rfl
      have htexts := (Files.mem_entriesIn.1 hfile).symm.trans (Files.mem_entriesIn.1 hfile')
      rw [Option.some.inj htexts]
    have hversions := hnames.filterMap (f := historyVersion) fun a b v ha hb =>
      (historyVersion_iff.1 ha).trans (historyVersion_iff.1 hb).symm
    rw [List.filterMap_map] at hversions
    exact (List.perm_insertionSort ..).nodup_iff.2 hversions
  refine (hsorted.and hnodup).imp fun {a b} h => ?_
  exact Nat.lt_of_le_of_ne (UInt64.le_iff_toNat_le.1 h.1) fun heq => h.2 (UInt64.toNat_inj.1 heq)

theorem growing_getElem {l : List UInt64} (h : l.Pairwise (·.toNat < ·.toNat)) {i j : Nat} (hij : i ≤ j)
    (hi : i < l.length) (hj : j < l.length) : l[i].toNat + (j - i) ≤ l[j].toNat := by
  induction j, hij using Nat.le_induction with
  | base => simp
  | succ j hij ih =>
    have hnext : l[j].toNat < l[j + 1].toNat := List.pairwise_iff_getElem.1 h j (j + 1) _ hj (Nat.lt_succ_self j)
    have hprev := ih (by omega)
    omega

theorem outdated_le {versions : List UInt64} (h : versions.Pairwise (·.toNat < ·.toNat)) {most : Nat}
    (hmost : ∀ v ∈ versions, v.toNat ≤ most) (hv : v ∈ outdated versions) :
    v.toNat + kCatalogHistoryKeep ≤ most := by
  obtain ⟨i, hi, rfl⟩ := List.mem_take_iff_getElem.1 hv
  have hlast : versions.length - 1 < versions.length := by omega
  have hgrow := growing_getElem h (by omega : i ≤ versions.length - 1) (by omega) hlast
  have hbound := hmost _ (List.getElem_mem hlast)
  omega

theorem find_removeAll (versions : List UInt64) (files : Files) (path : StorePath) :
    (versions.foldl (fun files version => files.remove (historyPath version)) files).find path =
      if ∃ v ∈ versions, path = historyPath v then none else files.find path := by
  induction versions generalizing files with
  | nil => simp
  | cons v versions ih =>
    rw [List.foldl_cons, ih, Table.find_remove]
    by_cases hrest : ∃ w ∈ versions, path = historyPath w
    · simp [hrest]
    · by_cases hfirst : path = historyPath v <;> simp [hrest, hfirst]

theorem find_pruneHistory {most : Nat}
    (hmost : ∀ v ∈ listCatalogHistory files, v.toNat ≤ most)
    (hpath : ∀ v, path = historyPath v → most < v.toNat + kCatalogHistoryKeep) :
    (pruneHistory faults files).find path = files.find path := by
  unfold pruneHistory
  split
  · rfl
  · rw [find_removeAll, if_neg]
    rintro ⟨v, hv, hpathv⟩
    have hold := outdated_le (sorted_listCatalogHistory files) hmost (List.mem_of_mem_filter hv)
    have hnew := hpath v hpathv
    omega

theorem mem_pruneHistory {faults : CatalogFaults}
    (h : v ∈ listCatalogHistory (pruneHistory faults files)) : v ∈ listCatalogHistory files := by
  rw [mem_listCatalogHistory] at h ⊢
  unfold pruneHistory at h
  split at h
  · exact h
  · rw [find_removeAll] at h
    split at h
    · simp at h
    · exact h

theorem mem_history_put
    (h : v ∈ listCatalogHistory (files.put path text)) : path = historyPath v ∨ v ∈ listCatalogHistory files := by
  rw [mem_listCatalogHistory] at h ⊢
  simp only [Table.find_put] at h
  split at h
  case isTrue heq => exact .inl heq.symm
  case isFalse => exact .inr h

/-! ### One write -/

theorem writeCatalog_cases (files : Files) (expected : UInt64) (text : Text) :
    (∃ error, writeCatalog faults files expected text = (.error error, files)) ∨
      (∃ current, readCatalog files = .ok current ∧ docVersion current = expected ∧
        ((∃ error, writeCatalog faults files expected text = (.error error, keepReplaced files current)) ∨
          (peekCatalogVersion text = .ok (expected + 1) ∧ writeCatalog faults files expected text =
            (.ok (expected + 1), pruneHistory faults ((keepReplaced files current).put catalogPath text))))) := by
  unfold writeCatalog
  split
  case h_1 error _ => exact .inl ⟨error, rfl⟩
  case h_2 version hversion =>
    split
    case isTrue => exact .inl ⟨_, rfl⟩
    case isFalse hnext =>
      obtain rfl := not_not.1 hnext
      split
      case h_1 error _ => exact .inl ⟨error, rfl⟩
      case h_2 =>
        split
        case h_1 error _ => exact .inl ⟨error, rfl⟩
        case h_2 current hcurrent =>
          split
          case isTrue => exact .inl ⟨_, rfl⟩
          case isFalse hsame =>
            unfold replaceCatalog
            split
            case h_1 error _ => exact .inl ⟨error, rfl⟩
            case h_2 =>
              refine .inr ⟨current, hcurrent, not_not.1 hsame, ?_⟩
              split
              case h_1 error _ => exact .inl ⟨error, rfl⟩
              case h_2 => exact .inr ⟨hversion, rfl⟩

/-! ### Serial commits -/

/-- The version a document itself names, as a command reads it. -/
def namedVersion (base : Option CatalogDoc) : UInt64 :=
  match base with
  | none => 0
  | some doc =>
    match parseCatalog doc.text with
    | .ok catalog => catalog.info.version
    | .error _ => 0

theorem prepare_was (h : prepare platform command stamp base = .ok (was, text)) :
    was = namedVersion base := by
  unfold prepare at h
  cases base with
  | none =>
    simp only [Option.mapM_none, bind, Except.bind, pure, Except.pure] at h
    repeat' split at h
    all_goals first | contradiction | (cases h; rfl)
  | some doc =>
    simp only [Option.mapM_some, namedVersion, bind, Except.bind] at h ⊢
    cases hparse : parseCatalog doc.text with
    | error => simp [hparse, Functor.map, Except.map] at h
    | ok catalog =>
      simp only [hparse, Functor.map, Except.map] at h
      repeat' split at h
      all_goals first | contradiction | (cases h; rfl)

/-- Each version is one above the one before it and was made from its text. -/
def Serial (platform : Platform) : Option CatalogDoc → List CatalogCommit → Prop
  | _, [] => True
  | previous, commit :: commits =>
    commit.base = previous ∧ commit.doc.version.toNat = (docVersion previous).toNat + 1 ∧
      (∃ was, prepare platform commit.command commit.stamp commit.base = .ok (was, commit.doc.text)) ∧
      Serial platform (some commit.doc) commits

/-- The document after some commits. -/
def lastDoc (first : Option CatalogDoc) (commits : List CatalogCommit) : Option CatalogDoc :=
  commits.foldl (fun _ commit => some commit.doc) first

def replacedDocs : Option CatalogDoc → List CatalogCommit → List CatalogDoc
  | _, [] => []
  | previous, commit :: commits => previous.toList ++ replacedDocs (some commit.doc) commits

theorem serial_append
    {commit : CatalogCommit} (h : Serial platform first commits) (hbase : commit.base = lastDoc first commits)
    (hversion : commit.doc.version.toNat = (docVersion (lastDoc first commits)).toNat + 1)
    (hmade : ∃ was, prepare platform commit.command commit.stamp commit.base = .ok (was, commit.doc.text)) :
    Serial platform first (commits ++ [commit]) := by
  induction commits generalizing first with
  | nil => exact ⟨hbase, hversion, hmade, trivial⟩
  | cons earlier commits ih => exact ⟨h.1, h.2.1, h.2.2.1, ih h.2.2.2 hbase hversion⟩

theorem lastDoc_append (first : Option CatalogDoc) (commits : List CatalogCommit) (commit : CatalogCommit) :
    lastDoc first (commits ++ [commit]) = some commit.doc := by
  simp [lastDoc]

theorem replacedDocs_append (first : Option CatalogDoc) (commits : List CatalogCommit) (commit : CatalogCommit) :
    replacedDocs first (commits ++ [commit]) = replacedDocs first commits ++ (lastDoc first commits).toList := by
  induction commits generalizing first with
  | nil => simp [replacedDocs, lastDoc]
  | cons earlier commits ih =>
    simp only [List.cons_append, replacedDocs, ih, List.append_assoc]
    rfl

theorem version_le_lastDoc
    (h : Serial platform first commits) : (docVersion first).toNat ≤ (docVersion (lastDoc first commits)).toNat := by
  induction commits generalizing first with
  | nil => exact le_rfl
  | cons commit commits ih =>
    have hrest := ih h.2.2.2
    have hfirst := h.2.1
    have hstep : (docVersion (some commit.doc)).toNat = commit.doc.version.toNat := rfl
    have hlast : lastDoc first (commit :: commits) = lastDoc (some commit.doc) commits := rfl
    rw [hlast]
    omega

theorem replaced_lt
    (h : Serial platform first commits) {doc : CatalogDoc} (hdoc : doc ∈ replacedDocs first commits) :
    doc.version.toNat < (docVersion (lastDoc first commits)).toNat := by
  induction commits generalizing first with
  | nil => exact absurd hdoc List.not_mem_nil
  | cons commit commits ih =>
    have hlast : lastDoc first (commit :: commits) = lastDoc (some commit.doc) commits := rfl
    rw [hlast]
    rcases List.mem_append.1 hdoc with hdoc | hdoc
    · obtain rfl : first = some doc := by simpa [eq_comm] using hdoc
      have hrest := version_le_lastDoc h.2.2.2
      have hfirst := h.2.1
      have hstep : (docVersion (some commit.doc)).toNat = commit.doc.version.toNat := rfl
      have hself : (docVersion (some doc)).toNat = doc.version.toNat := rfl
      omega
    · exact ih h.2.2.2 hdoc

/-! ### Runs -/

def storedVersion (files : Files) : UInt64 :=
  match readCatalog files with
  | .ok doc => docVersion doc
  | .error _ => 0

/-- There is a version after the stored one. -/
def VersionRoom (store : CatalogStore) (_ : CatalogEvent) : Prop := storedVersion store.files ≠ 0xFFFFFFFFFFFFFFFF

instance (store : CatalogStore) (event : CatalogEvent) : Decidable (VersionRoom store event) :=
  inferInstanceAs (Decidable (_ ≠ _))

/-- The commits up to now are serial, the files hold what they wrote, and every writer has read the current document
or one that is behind it. -/
structure CommitsSound (platform : Platform) (first : Option CatalogDoc) (store : CatalogStore) : Prop where
  serial : Serial platform first store.log
  current : readCatalog store.files = .ok (lastDoc first store.log)
  behind : ∀ v ∈ listCatalogHistory store.files, v.toNat ≤ (docVersion (lastDoc first store.log)).toNat
  kept : ∀ doc ∈ replacedDocs first store.log,
    (docVersion (lastDoc first store.log)).toNat ≤ doc.version.toNat + kCatalogHistoryKeep →
      store.files.find (historyPath doc.version) = some doc.text
  phases : ∀ who command attempt stamp base was text,
    store.phases who = .writing command attempt stamp base was text →
      prepare platform command stamp base = .ok (was, text) ∧
        (base = lastDoc first store.log ∨
          (docVersion base).toNat < (docVersion (lastDoc first store.log)).toNat ∧ was = docVersion base)

theorem readCatalog_congr {files' : Files} (h : files'.find catalogPath = files.find catalogPath) :
    readCatalog files' = readCatalog files := by
  unfold readCatalog
  rw [h]

theorem find_keepReplaced {current : Option CatalogDoc}
    (h : ∀ doc, current = some doc → path ≠ historyPath doc.version) :
    (keepReplaced files current).find path = files.find path := by
  cases current with
  | none => rfl
  | some doc => rw [keepReplaced, Table.find_put, if_neg (h doc rfl)]

theorem mem_keepReplaced {current : Option CatalogDoc}
    (h : v ∈ listCatalogHistory (keepReplaced files current)) :
    v = docVersion current ∨ v ∈ listCatalogHistory files := by
  cases current with
  | none => exact .inr h
  | some doc => exact (mem_history_put h).imp_left fun heq => (historyPath_injective heq).symm

theorem find_replaced {doc : CatalogDoc} :
    (keepReplaced files (some doc)).find (historyPath doc.version) = some doc.text := by
  rw [keepReplaced, Table.find_put, if_pos rfl]

namespace CommitsSound

variable {platform : Platform} {first : Option CatalogDoc} {store : CatalogStore}

theorem setPhase (h : CommitsSound platform first store) {who : Nat} {phase : CommitPhase}
    (hphase : ∀ command attempt stamp base was text, phase = .writing command attempt stamp base was text →
      prepare platform command stamp base = .ok (was, text) ∧ base = lastDoc first store.log) :
    CommitsSound platform first (store.setPhase who phase) where
  serial := h.serial
  current := h.current
  behind := h.behind
  kept := h.kept
  phases who' command attempt stamp base was text hwriting := by
    simp only [CatalogStore.setPhase, Function.update_apply] at hwriting
    split at hwriting
    · exact (hphase command attempt stamp base was text hwriting).imp_right .inl
    · exact h.phases who' command attempt stamp base was text hwriting

theorem keep (h : CommitsSound platform first store) :
    CommitsSound platform first { store with files := keepReplaced store.files (lastDoc first store.log) } where
  serial := h.serial
  current := by
    rw [readCatalog_congr (find_keepReplaced fun doc _ => (historyPath_ne_catalogPath doc.version).symm), h.current]
  behind v hv := by
    rcases mem_keepReplaced hv with rfl | hv
    · exact le_rfl
    · exact h.behind v hv
  kept doc hdoc hnew := by
    have hold := replaced_lt h.serial hdoc
    rw [find_keepReplaced, h.kept doc hdoc hnew]
    rintro current hcurrent heq
    rw [hcurrent] at hold
    have hsame := congrArg UInt64.toNat (historyPath_injective heq)
    exact absurd hold (by simp [docVersion, hsame])
  phases := h.phases

theorem replace (h : CommitsSound platform first store) {was : UInt64} {commit : CatalogCommit}
    (hbase : commit.base = lastDoc first store.log) (hwas : docVersion (lastDoc first store.log) = was)
    (hmade : prepare platform commit.command commit.stamp commit.base = .ok (was, commit.doc.text))
    (hversion : commit.doc.version = was + 1) (hpeek : peekCatalogVersion commit.doc.text = .ok (was + 1))
    (hroom : was ≠ 0xFFFFFFFFFFFFFFFF) (faults : CatalogFaults) :
    CommitsSound platform first
      { store with
        files := pruneHistory faults ((keepReplaced store.files commit.base).put catalogPath commit.doc.text)
        log := store.log ++ [commit] } := by
  have hnext : commit.doc.version.toNat = (docVersion (lastDoc first store.log)).toNat + 1 := by
    rw [hversion, hwas]
    have hlt := was.toNat_lt
    have hne : was.toNat ≠ 2 ^ 64 - 1 := fun heq => hroom (UInt64.toNat_inj.1 heq)
    rw [UInt64.toNat_add]
    exact Nat.mod_eq_of_lt (by simp; omega)
  have hlast : (docVersion (lastDoc first (store.log ++ [commit]))).toNat =
      (docVersion (lastDoc first store.log)).toNat + 1 := by
    rw [lastDoc_append]
    exact hnext
  -- Everything in the history is older than the new version.
  have hmost : ∀ v ∈ listCatalogHistory ((keepReplaced store.files commit.base).put catalogPath commit.doc.text),
      v.toNat ≤ (docVersion (lastDoc first store.log)).toNat := by
    intro v hv
    rcases mem_history_put hv with heq | hv
    · exact absurd heq.symm (historyPath_ne_catalogPath v)
    · rw [hbase] at hv
      exact h.keep.behind v hv
  have hfind {path : StorePath} (hpath : ∀ v, path = historyPath v →
      (docVersion (lastDoc first store.log)).toNat < v.toNat + kCatalogHistoryKeep) :=
    find_pruneHistory faults hmost hpath
  refine ⟨serial_append h.serial hbase hnext ⟨was, hmade⟩, ?_, fun v hv => ?_, fun doc hdoc hnew => ?_, ?_⟩
  · have hcatalog := hfind fun v heq => absurd heq.symm (historyPath_ne_catalogPath v)
    rw [Table.find_put, if_pos rfl] at hcatalog
    simp only [readCatalog, hcatalog, hpeek, lastDoc_append, ← hversion]
    rfl
  · have hle := hmost v (mem_pruneHistory hv)
    rw [hlast]
    omega
  · rw [hlast] at hnew
    rw [hfind, Table.find_put, if_neg (historyPath_ne_catalogPath _)]
    · rw [replacedDocs_append] at hdoc
      rcases List.mem_append.1 hdoc with hdoc | hdoc
      · rw [hbase]
        exact h.keep.kept doc hdoc (by show (docVersion (lastDoc first store.log)).toNat ≤ _; omega)
      · rw [hbase, show lastDoc first store.log = some doc by simpa using hdoc]
        exact find_replaced
    · intro v heq
      obtain rfl := historyPath_injective heq
      omega
  · intro who command attempt stamp base was' text hwriting
    obtain ⟨hprepare, hold⟩ := h.phases who command attempt stamp base was' text hwriting
    refine ⟨hprepare, .inr ?_⟩
    rw [hlast]
    rcases hold with rfl | ⟨hlt, hwas'⟩
    · -- Whoever else has read the replaced document expects its version too.
      have hsame : was' = was := by rw [prepare_was hprepare, prepare_was hmade, hbase]
      exact ⟨by omega, hsame.trans hwas.symm⟩
    · exact ⟨by omega, hwas'⟩

theorem step (h : CommitsSound platform first store) {event : CatalogEvent} (hroom : VersionRoom store event) :
    CommitsSound platform first (store.step platform event) := by
  cases event with
  | start who command =>
    simp only [CatalogStore.step]
    split
    · exact h.setPhase nofun
    · exact h
  | read who stamp fault =>
    simp only [CatalogStore.step]
    split
    case h_1 command attempt _ =>
      refine h.setPhase fun command' attempt' stamp' base was text hwriting => ?_
      unfold CatalogStore.readPhase at hwriting
      split at hwriting <;> try contradiction
      rw [h.current] at hwriting
      dsimp only at hwriting
      split at hwriting <;> try contradiction
      rename_i hprepare
      cases hwriting
      exact ⟨hprepare, rfl⟩
    case h_2 => exact h
  | write who faults =>
    simp only [CatalogStore.step]
    split
    case h_2 => exact h
    case h_1 command attempt stamp base was text hphase =>
      have hidle (result : Except Errno UInt64) : ∀ command' attempt' stamp' base' was' text',
          CatalogStore.writePhase command attempt result ≠ .writing command' attempt' stamp' base' was' text' := by
        intro _ _ _ _ _ _
        cases result with
        | ok => simp [CatalogStore.writePhase]
        | error =>
          rw [CatalogStore.writePhase]
          split <;> simp
      have hquiet {store' : CatalogStore} (h' : CommitsSound platform first store') (result : Except Errno UInt64) :
          CommitsSound platform first (store'.setPhase who (CatalogStore.writePhase command attempt result)) :=
        h'.setPhase fun _ _ _ _ _ _ hwriting => absurd hwriting (hidle result _ _ _ _ _ _)
      rcases writeCatalog_cases faults store.files was text with
        ⟨error, hwrite⟩ | ⟨current, hread, hsame, ⟨error, hwrite⟩ | ⟨hpeek, hwrite⟩⟩
      · rw [hwrite]
        simp only [List.append_nil]
        exact hquiet h _
      · obtain rfl : lastDoc first store.log = current := Except.ok.inj (h.current.symm.trans hread)
        rw [hwrite]
        simp only [List.append_nil]
        exact hquiet h.keep _
      · obtain rfl : lastDoc first store.log = current := Except.ok.inj (h.current.symm.trans hread)
        obtain ⟨hprepare, hbase⟩ := h.phases who command attempt stamp base was text hphase
        -- A writer that is behind would not have found the version it expects.
        obtain rfl : base = lastDoc first store.log := by
          rcases hbase with hbase | ⟨hlt, rfl⟩
          · exact hbase
          · exact absurd hlt (by rw [hsame]; exact lt_irrefl _)
        have hstored : was ≠ 0xFFFFFFFFFFFFFFFF := by
          have hversion := hroom
          rw [VersionRoom, storedVersion, h.current] at hversion
          exact hsame ▸ hversion
        let commit : CatalogCommit := ⟨⟨was + 1, text⟩, lastDoc first store.log, command, stamp⟩
        have hcommit : commit.base = lastDoc first store.log := rfl
        rw [hwrite]
        exact hquiet (h.replace hcommit hsame hprepare rfl hpeek hstored faults) _

end CommitsSound

/-- `export add --path <path> --fsid <fsid>`. -/
def addCommand (path : Text) (fsid : UInt32) : CommitCommand where
  mutate current := .ok { current.getD {} with exports := (current.getD {}).exports ++ [{ cfg := { path, fsid } }] }
  activeActive := false
  author := lit "gw1 uid=0"
  comment := []

end LightNfs
