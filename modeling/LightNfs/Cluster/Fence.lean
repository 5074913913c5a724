import LightNfs.Cluster.Files
import LightNfs.Lib.System

/-!
# Fences

In the active-active cluster a gateway serves an export while its `fence.<node>` record names it. An acquisition
reads every record, strips the export from those of other nodes and then adds it to its own, one file after the
other; any of these writes may fail and ends the call.
-/

namespace LightNfs

open Text

def kFenceSkewTolerance : Int64 := 500

structure FenceRecord where
  node : Text
  epoch : UInt64
  expires : Int64
deriving DecidableEq

namespace NodeFences

def expired (rec : NodeFences) (now : Int64) : Bool := now > rec.expires + kFenceSkewTolerance

def strip (rec : NodeFences) (fsid : UInt32) : NodeFences := { rec with holds := rec.holds.filter (·.fsid != fsid) }

def extend (rec : NodeFences) (fsid : UInt32) (epoch : UInt64) (expires : Int64) : NodeFences :=
  { rec with expires, holds := sortHolds ((rec.strip fsid).holds ++ [⟨fsid, epoch⟩]) }

end NodeFences

/-- A write that fails, by its place among the writes of a call. -/
structure WriteFault where
  index : Nat
  error : Errno

def putRecord (files : Files) (rec : NodeFences) : Files := files.put (fencePath rec.node) rec.text

/-- `write_node_fences` on one record after the other, up to the write that fails. -/
def writeRecords (fault : Option WriteFault) (files : Files) (recs : List NodeFences) : Except Errno Unit × Files :=
  match fault with
  | none => (.ok (), recs.foldl putRecord files)
  | some fault =>
    if fault.index < recs.length then (.error fault.error, (recs.take fault.index).foldl putRecord files)
    else (.ok (), recs.foldl putRecord files)

def readNodeFences (files : Files) (node : Text) : Except Errno (Option NodeFences) :=
  match files.find (fencePath node) with
  | none => .ok none
  | some text => (parseNodeFences node text).map some

def otherHolders (records : List NodeFences) (node : Text) (fsid : UInt32) : List NodeFences :=
  records.filter fun rec => rec.node != node && rec.names fsid

/-- Another node's record names the export and has not expired. -/
def fenceBusy (records : List NodeFences) (now : Int64) (node : Text) (fsid : UInt32) : Bool :=
  (otherHolders records node fsid).any fun rec => !rec.expired now

/-- The records an acquisition writes: the other holders' first, its own last. -/
def acquireWrites (records : List NodeFences) (fsid : UInt32) (node : Text) (epoch : UInt64) (expires : Int64) :
    List NodeFences :=
  (otherHolders records node fsid).map (·.strip fsid) ++
    [((records.find? (·.node == node)).getD { node }).extend fsid epoch expires]

def acquireFsFence (files : Files) (now : Int64) (fault : Option WriteFault) (fsid : UInt32) (node : Text)
    (epoch : UInt64) (ttl : Int64) (force : Bool) : Except Errno FenceRecord × Files :=
  match listFences files with
  | .error e => (.error e, files)
  | .ok records =>
    if !force && fenceBusy records now node fsid then (.error .busy, files)
    else
      ((writeRecords fault files (acquireWrites records fsid node epoch (now + ttl))).map
        (·.map fun _ => ⟨node, epoch, now + ttl⟩) id)

def renewFences (files : Files) (now : Int64) (fault : Option WriteFault) (node : Text) (ttl : Int64) :
    Except Errno Unit × Files :=
  match readNodeFences files node with
  | .error e => (.error e, files)
  | .ok current => writeRecords fault files [{ current.getD { node } with expires := now + ttl }]

def releaseFsFence (files : Files) (fault : Option WriteFault) (fsid : UInt32) (node : Text) :
    Except Errno Unit × Files :=
  match listFences files with
  | .error e => (.error e, files)
  | .ok records =>
    match records.find? (·.names fsid) with
    | none => (.ok (), files)
    | some rec => if rec.node ≠ node then (.error .perm, files) else writeRecords fault files [rec.strip fsid]

inductive FenceOp where
  | acquire (fsid : UInt32) (epoch : UInt64) (ttl : Int64) (force : Bool)
  | renew (ttl : Int64)
  | release (fsid : UInt32)

/-- An operation of a node, the time it is made at and the write of it that fails. -/
structure FenceCall where
  op : FenceOp
  node : NodeName
  now : Int64
  fault : Option WriteFault := none

def FenceCall.exec (call : FenceCall) (files : Files) : Files :=
  match call.op with
  | .acquire fsid epoch ttl force =>
    (acquireFsFence files call.now call.fault fsid call.node.text epoch ttl force).2
  | .renew ttl => (renewFences files call.now call.fault call.node.text ttl).2
  | .release fsid => (releaseFsFence files call.fault fsid call.node.text).2

/-- The nodes' calls on one store, one lock section after the other. -/
def fences : System Files FenceCall := ⟨fun files call => call.exec files⟩

variable {files : Files} {node : Text} {rec : NodeFences} {records : List NodeFences}
variable {fsid : UInt32}

@[simp] theorem fences_step (files : Files) (call : FenceCall) : fences.step files call = call.exec files := rfl

/-! ### What a record's text names -/

/-- The numbers before the colons in a record's text. -/
def fsidsOf (text : Text) : List Text :=
  match (cut ' ' (trim text)).2 with
  | none => []
  | some list => (list.splitOn ',').map fun item => (cut ':' item).1

/-- The export is among the holds of the node's record. -/
def Files.Holds (files : Files) (node : Text) (fsid : UInt32) : Prop :=
  decimal fsid.toNat ∈ ((files.find (fencePath node)).map fsidsOf).getD []

instance (files : Files) (node : Text) (fsid : UInt32) : Decidable (files.Holds node fsid) :=
  inferInstanceAs (Decidable (_ ∈ _))

theorem fsidsOf_text (rec : NodeFences) : fsidsOf rec.text = rec.holds.map fun hold => decimal hold.fsid.toNat := by
  have hnoblank : ' ' ∉ decimalInt rec.expires.toInt := notMem_decimalInt (by decide) (by decide)
  rw [fsidsOf, rec.trim_text]
  cases hholds : rec.holds with
  | nil => simp [holdsText, cut_of_notMem hnoblank]
  | cons hold holds =>
    have hsplit : ([','].intercalate ((hold :: holds).map Hold.text)).splitOn ',' = (hold :: holds).map Hold.text := by
      refine List.splitOn_intercalate _ ?_ (by simp)
      intro item hitem
      obtain ⟨h, -, rfl⟩ := List.mem_map.1 hitem
      exact notMem_holdText (by decide) (by decide) h
    have hitem : ∀ h : Hold, (cut ':' h.text).1 = decimal h.fsid.toNat := fun h => by
      rw [Hold.text, cut_append (notMem_decimal (by decide))]
    simp only [holdsText, cut_append hnoblank, hsplit, List.map_map, Function.comp_def, hitem]

theorem NodeFences.names_iff {rec : NodeFences} {fsid : UInt32} :
    rec.names fsid = true ↔ decimal fsid.toNat ∈ fsidsOf rec.text := by
  rw [fsidsOf_text, List.mem_map, NodeFences.names, List.any_eq_true]
  constructor
  · rintro ⟨h, hmem, heq⟩
    exact ⟨h, hmem, by rw [eq_of_beq heq]⟩
  · rintro ⟨h, hmem, heq⟩
    exact ⟨h, hmem, beq_of_eq (UInt32.toNat_inj.1 (decimal_injective heq))⟩

theorem fencePath_injective {m n : Text} (h : fencePath m = fencePath n) : m = n :=
  List.append_cancel_left (StorePath.mk.inj h).2

theorem holds_putRecord :
    (putRecord files rec).Holds node fsid ↔ if node = rec.node then rec.names fsid = true else files.Holds node fsid := by
  by_cases hnode : node = rec.node
  · subst hnode
    simp [Files.Holds, putRecord, NodeFences.names_iff]
  · have hpath : fencePath node ≠ fencePath rec.node := fun h => hnode (fencePath_injective h)
    simp [Files.Holds, putRecord, hnode, hpath]

@[simp] theorem NodeFences.names_strip (rec : NodeFences) (fsid f : UInt32) :
    (rec.strip fsid).names f = true ↔ rec.names f = true ∧ f ≠ fsid := by
  simp only [names, strip, List.any_eq_true, List.mem_filter, bne_iff_ne, ne_eq, beq_iff_eq]
  grind

@[simp] theorem NodeFences.names_extend (rec : NodeFences) (fsid f : UInt32) (epoch : UInt64) (expires : Int64) :
    (rec.extend fsid epoch expires).names f = true ↔ rec.names f = true ∨ f = fsid := by
  simp only [names, extend, strip, sortHolds, List.any_eq_true, List.mem_insertionSort, List.mem_append,
    List.mem_filter, List.mem_singleton, bne_iff_ne, ne_eq, beq_iff_eq]
  grind

/-! ### The writes of a call -/

theorem writeRecords_files (fault : Option WriteFault) (files : Files) (recs : List NodeFences) :
    ∃ k, (writeRecords fault files recs).2 = (recs.take k).foldl putRecord files := by
  unfold writeRecords
  split
  · exact ⟨recs.length, by rw [List.take_length]⟩
  · split
    · exact ⟨_, rfl⟩
    · exact ⟨recs.length, by rw [List.take_length]⟩

theorem acquireFsFence_files (files : Files) (now : Int64) (fault : Option WriteFault) (fsid : UInt32) (node : Text)
    (epoch : UInt64) (ttl : Int64) (force : Bool) :
    (acquireFsFence files now fault fsid node epoch ttl force).2 = files ∨
      ∃ records k, listFences files = .ok records ∧ (force = true ∨ fenceBusy records now node fsid = false) ∧
        (acquireFsFence files now fault fsid node epoch ttl force).2 =
          ((acquireWrites records fsid node epoch (now + ttl)).take k).foldl putRecord files := by
  unfold acquireFsFence
  split
  case h_1 => exact .inl rfl
  case h_2 records hrecords =>
    split
    case isTrue => exact .inl rfl
    case isFalse hfree =>
      obtain ⟨k, hk⟩ := writeRecords_files fault files (acquireWrites records fsid node epoch (now + ttl))
      exact .inr ⟨records, k, hrecords, by simpa [or_iff_not_imp_left] using hfree, hk⟩

theorem holds_strips {recs : List NodeFences}
    (hrecs : ∀ rec ∈ recs, ∀ f, f ≠ fsid → (rec.names f = true ↔ files.Holds rec.node f)) (m : Text) (f : UInt32) :
    ((recs.map (·.strip fsid)).foldl putRecord files).Holds m f ↔
      files.Holds m f ∧ (f = fsid → ∀ rec ∈ recs, rec.node ≠ m) := by
  induction recs generalizing files with
  | nil => simp
  | cons rec recs ih =>
    have hput : ∀ n g, (putRecord files (rec.strip fsid)).Holds n g ↔
        files.Holds n g ∧ (g = fsid → rec.node ≠ n) := by
      intro n g
      rw [holds_putRecord, NodeFences.names_strip]
      have hrec := hrecs rec List.mem_cons_self
      by_cases hn : n = rec.node
      · subst hn
        by_cases hg : g = fsid
        · simp [hg, NodeFences.strip]
        · simp [hg, NodeFences.strip, hrec g hg]
      · simp [NodeFences.strip, hn, Ne.symm hn]
    rw [List.map_cons, List.foldl_cons, ih]
    · rw [hput]
      grind
    · intro rec' hrec' g hg
      rw [hput, hrecs rec' (List.mem_cons_of_mem _ hrec') g hg]
      simp [hg]

/-! ### One record per export -/

/-- Every record is seen by the listing and is the text of a record with its exports in order. -/
structure FencesFiled (files : Files) : Prop where
  visible : ∀ {node text}, files.find (fencePath node) = some text → FenceVisible node
  records : ∀ {node text}, files.find (fencePath node) = some text →
    ∃ rec : NodeFences, rec.text = text ∧ rec.holds.Pairwise (·.fsid ≤ ·.fsid)

namespace FencesFiled

variable {files : Files} (h : FencesFiled files)
include h

theorem put {rec : NodeFences} (hvisible : FenceVisible rec.node) (hsorted : rec.holds.Pairwise (·.fsid ≤ ·.fsid)) :
    FencesFiled (putRecord files rec) := by
  refine ⟨fun {node text} hfind => ?_, fun {node text} hfind => ?_⟩ <;>
    rw [putRecord, Table.find_put] at hfind <;> split at hfind
  · rename_i hpath
    exact fencePath_injective hpath ▸ hvisible
  · exact h.visible hfind
  · exact ⟨rec, Option.some.inj hfind, hsorted⟩
  · exact h.records hfind

theorem foldl {recs : List NodeFences}
    (hrecs : ∀ rec ∈ recs, FenceVisible rec.node ∧ rec.holds.Pairwise (·.fsid ≤ ·.fsid)) :
    FencesFiled (recs.foldl putRecord files) := by
  induction recs generalizing files with
  | nil => exact h
  | cons rec recs ih =>
    have hrec := hrecs rec List.mem_cons_self
    exact ih (h.put hrec.1 hrec.2) fun rec' hrec' => hrecs rec' (List.mem_cons_of_mem _ hrec')

theorem parsed {node text : Text} {rec : NodeFences} (hfind : files.find (fencePath node) = some text)
    (hparse : parseNodeFences node text = .ok rec) :
    rec.holds.Pairwise (·.fsid ≤ ·.fsid) ∧ ∀ f, rec.names f = true ↔ files.Holds node f := by
  obtain ⟨rec₀, rfl, hsorted⟩ := h.records hfind
  rw [parseNodeFences_text hsorted] at hparse
  split at hparse <;> try contradiction
  cases hparse
  refine ⟨hsorted, fun f => ?_⟩
  rw [Files.Holds, hfind]
  exact @NodeFences.names_iff rec₀ f

variable {records : List NodeFences} (hlist : listFences files = .ok records)
include hlist

theorem of_mem {rec : NodeFences} (hrec : rec ∈ records) :
    FenceVisible rec.node ∧ rec.holds.Pairwise (·.fsid ≤ ·.fsid) ∧
      ∀ f, rec.names f = true ↔ files.Holds rec.node f := by
  obtain ⟨hvisible, text, hfind, hparse⟩ := (mem_listFences hlist rec).1 hrec
  exact ⟨hvisible, h.parsed hfind hparse⟩

theorem listed {node : Text} {fsid : UInt32} (hholds : files.Holds node fsid) :
    ∃ rec ∈ records, rec.node = node ∧ rec.names fsid = true := by
  cases hfind : files.find (fencePath node) with
  | none => simp [Files.Holds, hfind] at hholds
  | some text =>
    have hvisible := h.visible hfind
    obtain ⟨rec, hparse⟩ := parses_of_listFences hlist hvisible hfind
    have hnode := parseNodeFences_node hparse
    subst hnode
    exact ⟨rec, (mem_listFences hlist rec).2 ⟨hvisible, text, hfind, hparse⟩, rfl,
      ((h.parsed hfind hparse).2 fsid).2 hholds⟩

end FencesFiled

theorem mem_otherHolders :
    rec ∈ otherHolders records node fsid ↔ rec ∈ records ∧ rec.node ≠ node ∧ rec.names fsid = true := by
  simp [otherHolders]

/-- What an operation on an export may change: only who holds that export, and only its node may gain it, which
then is the only holder. -/
structure FenceMoved (node : Text) (fsid : UInt32) (files files' : Files) : Prop where
  other : ∀ m f, f ≠ fsid → (files'.Holds m f ↔ files.Holds m f)
  lost : ∀ m, m ≠ node → files'.Holds m fsid → files.Holds m fsid
  gained : files'.Holds node fsid → files.Holds node fsid ∨ ∀ m, m ≠ node → ¬ files'.Holds m fsid

theorem FenceMoved.refl (node : Text) (fsid : UInt32) (files : Files) : FenceMoved node fsid files files :=
  ⟨fun _ _ _ => Iff.rfl, fun _ _ h => h, .inl⟩

def FencesUnique (files : Files) : Prop := ∀ m n f, files.Holds m f → files.Holds n f → m = n

theorem one_holder_of_moved {H H' : Text → UInt32 → Prop}
    (h : ∀ m n f, H m f → H n f → m = n) (hother : ∀ m f, f ≠ fsid → (H' m f ↔ H m f))
    (hlost : ∀ m, m ≠ node → H' m fsid → H m fsid)
    (hgained : H' node fsid → H node fsid ∨ ∀ m, m ≠ node → ¬ H' m fsid) : ∀ m n f, H' m f → H' n f → m = n := by
  have hnode : ∀ m, H' m fsid → H' node fsid → m = node := by
    intro m hm hn
    by_contra hne
    rcases hgained hn with hheld | hnone
    · exact hne (h m node fsid (hlost m hne hm) hheld)
    · exact hnone m hne hm
  intro m n f hm hn
  by_cases hf : f = fsid
  · subst hf
    by_cases hmn : m = node
    · subst hmn
      exact (hnode n hn hm).symm
    · by_cases hnn : n = node
      · subst hnn
        exact hnode m hm hn
      · exact h m n f (hlost m hmn hm) (hlost n hnn hn)
  · exact h m n f ((hother m f hf).1 hm) ((hother n f hf).1 hn)

theorem FencesUnique.moved {files' : Files} (h : FencesUnique files)
    (hmoved : FenceMoved node fsid files files') : FencesUnique files' :=
  one_holder_of_moved h hmoved.other hmoved.lost hmoved.gained

theorem sorted_strip (h : rec.holds.Pairwise (·.fsid ≤ ·.fsid)) (fsid : UInt32) :
    (rec.strip fsid).holds.Pairwise (·.fsid ≤ ·.fsid) := h.sublist List.filter_sublist

theorem sorted_sortHolds (holds : List Hold) : (sortHolds holds).Pairwise (·.fsid ≤ ·.fsid) := by
  have : Std.Total fun a b : Hold => a.fsid ≤ b.fsid := ⟨fun a b => UInt32.le_total a.fsid b.fsid⟩
  have : IsTrans Hold fun a b => a.fsid ≤ b.fsid := ⟨fun _ _ _ => UInt32.le_trans⟩
  exact List.pairwise_insertionSort _ _

theorem sorted_extend (rec : NodeFences) (fsid : UInt32) (epoch : UInt64) (expires : Int64) :
    (rec.extend fsid epoch expires).holds.Pairwise (·.fsid ≤ ·.fsid) := sorted_sortHolds _

/-! ### What each operation does -/

theorem own_names (h : FencesFiled files)
    (hlist : listFences files = .ok records) (node : Text) :
    ((records.find? (·.node == node)).getD { node }).node = node ∧
      ∀ f, ((records.find? (·.node == node)).getD { node }).names f = true ↔ files.Holds node f := by
  cases hfind : records.find? (·.node == node) with
  | none =>
    refine ⟨rfl, fun f => ⟨fun hnames => by simp [NodeFences.names] at hnames, fun hholds => ?_⟩⟩
    obtain ⟨rec, hrec, hnode, -⟩ := h.listed hlist hholds
    exact absurd (beq_of_eq hnode) (List.find?_eq_none.1 hfind rec hrec)
  | some rec =>
    have hnode : rec.node = node := eq_of_beq (List.find?_some (p := fun rec : NodeFences => rec.node == node) hfind)
    refine ⟨hnode, fun f => ?_⟩
    rw [← hnode]
    exact (h.of_mem hlist (List.mem_of_find?_eq_some hfind)).2.2 f

section Acquire

variable {files : Files} (h : FencesFiled files) {records : List NodeFences} (hlist : listFences files = .ok records)
  (node : Text) (fsid : UInt32)
include h hlist

theorem holds_take_strips (k : Nat) (m : Text) (f : UInt32) :
    ((((otherHolders records node fsid).take k).map (·.strip fsid)).foldl putRecord files).Holds m f ↔
      files.Holds m f ∧ (f = fsid → ∀ rec ∈ (otherHolders records node fsid).take k, rec.node ≠ m) := by
  refine holds_strips (fun rec hrec f _ => ?_) m f
  exact (h.of_mem hlist (mem_otherHolders.1 (List.mem_of_mem_take hrec)).1).2.2 f

theorem filed_take_strips (k : Nat) :
    FencesFiled ((((otherHolders records node fsid).take k).map (·.strip fsid)).foldl putRecord files) := by
  refine h.foldl fun rec hrec => ?_
  obtain ⟨holder, hholder, rfl⟩ := List.mem_map.1 hrec
  have hmem := h.of_mem hlist (mem_otherHolders.1 (List.mem_of_mem_take hholder)).1
  exact ⟨hmem.1, sorted_strip hmem.2.1 fsid⟩

/-- The writes of an acquisition, up to any of them: the export is stripped from other holders, and it is added
when none is left. -/
theorem acquire_moved (hvisible : FenceVisible node) (epoch : UInt64) (expires : Int64) (k : Nat) :
    let files' := ((acquireWrites records fsid node epoch expires).take k).foldl putRecord files
    FencesFiled files' ∧ FenceMoved node fsid files files' ∧ ∀ m, m ≠ node → files.Holds m fsid →
      (∀ rec ∈ otherHolders records node fsid, rec.node ≠ m) → files'.Holds m fsid := by
  by_cases hk : k ≤ (otherHolders records node fsid).length
  · have htake : (acquireWrites records fsid node epoch expires).take k =
        ((otherHolders records node fsid).take k).map (·.strip fsid) := by
      rw [acquireWrites, List.take_append_of_le_length (by simpa using hk), List.map_take]
    have hholds := holds_take_strips h hlist node fsid k
    simp only [htake]
    refine ⟨filed_take_strips h hlist node fsid k, ⟨fun m f hf => ?_, fun m _ hm => ((hholds m fsid).1 hm).1,
      fun hm => .inl ((hholds node fsid).1 hm).1⟩, fun m _ hm hfree => ?_⟩
    · rw [hholds]
      simp [hf]
    · exact (hholds m fsid).2 ⟨hm, fun _ rec hrec => hfree rec (List.mem_of_mem_take hrec)⟩
  · have htake : (acquireWrites records fsid node epoch expires).take k =
        ((otherHolders records node fsid).take (otherHolders records node fsid).length).map (·.strip fsid) ++
          [((records.find? (·.node == node)).getD { node }).extend fsid epoch expires] := by
      rw [List.take_length, List.take_of_length_le]
      · rfl
      · simp only [acquireWrites, List.length_append, List.length_map, List.length_singleton]
        omega
    have hholds := holds_take_strips h hlist node fsid (otherHolders records node fsid).length
    obtain ⟨hown, hnames⟩ := own_names h hlist node
    set mine := (records.find? (·.node == node)).getD { node }
    have hmine : (mine.extend fsid epoch expires).node = node := hown
    simp only [htake, List.foldl_append, List.foldl_cons, List.foldl_nil]
    refine ⟨(filed_take_strips h hlist node fsid _).put (hmine ▸ hvisible) (sorted_extend ..), ⟨fun m f hf => ?_,
      fun m hne hm => ?_, fun _ => .inr fun m hne hm => ?_⟩, fun m hne hm hfree => ?_⟩
    · rw [holds_putRecord, hmine, NodeFences.names_extend, hnames, hholds]
      by_cases hm : m = node <;> simp [hm, hf]
    · rw [holds_putRecord, hmine, if_neg hne, hholds] at hm
      exact hm.1
    · rw [holds_putRecord, hmine, if_neg hne, hholds] at hm
      obtain ⟨rec, hrec, rfl, hrecNames⟩ := h.listed hlist hm.1
      exact hm.2 rfl rec (by simpa only [List.take_length] using mem_otherHolders.2 ⟨hrec, hne, hrecNames⟩) rfl
    · rw [holds_putRecord, hmine, if_neg hne, hholds]
      exact ⟨hm, fun _ rec hrec => hfree rec (List.mem_of_mem_take hrec)⟩

end Acquire

theorem acquireFsFence_moved (h : FencesFiled files) (hvisible : FenceVisible node)
    (now : Int64) (fault : Option WriteFault) (fsid : UInt32) (epoch : UInt64) (ttl : Int64) (force : Bool) :
    let files' := (acquireFsFence files now fault fsid node epoch ttl force).2
    FencesFiled files' ∧ FenceMoved node fsid files files' ∧ (force = false → ∀ m, m ≠ node → files.Holds m fsid →
      (∀ text rec, files.find (fencePath m) = some text → parseNodeFences m text = .ok rec → rec.expired now = false) →
      files'.Holds m fsid) := by
  rcases acquireFsFence_files files now fault fsid node epoch ttl force with hsame | ⟨records, k, hlist, hfree, hfiles⟩
  · simp only [hsame]
    exact ⟨h, .refl .., fun _ _ _ hm _ => hm⟩
  · simp only [hfiles]
    obtain ⟨hfiled, hmoved, hkept⟩ := acquire_moved h hlist node fsid hvisible epoch (now + ttl) k
    refine ⟨hfiled, hmoved, fun hforce m hne hm hlive => hkept m hne hm fun rec hrec heq => ?_⟩
    subst heq
    obtain ⟨-, text, hfind, hparse⟩ := (mem_listFences hlist rec).1 (mem_otherHolders.1 hrec).1
    have hbusy : fenceBusy records now node fsid = true :=
      List.any_eq_true.2 ⟨rec, hrec, by rw [hlive text rec hfind hparse]; rfl⟩
    rw [hforce, hbusy] at hfree
    simp at hfree

theorem writeRecords_single (fault : Option WriteFault) (files : Files) (rec : NodeFences) :
    (writeRecords fault files [rec]).2 = files ∨ (writeRecords fault files [rec]).2 = putRecord files rec := by
  obtain ⟨k, hk⟩ := writeRecords_files fault files [rec]
  cases k with
  | zero => exact .inl hk
  | succ k => exact .inr (by simp [hk])

theorem renewFences_holds (h : FencesFiled files) (hvisible : FenceVisible node)
    (now : Int64) (fault : Option WriteFault) (ttl : Int64) :
    let files' := (renewFences files now fault node ttl).2
    FencesFiled files' ∧ ∀ m f, files'.Holds m f ↔ files.Holds m f := by
  have hsame : FencesFiled files ∧ ∀ m f, files.Holds m f ↔ files.Holds m f := ⟨h, fun _ _ => Iff.rfl⟩
  unfold renewFences
  split
  case h_1 => exact hsame
  case h_2 current hread =>
    have hrec : (current.getD { node }).node = node ∧ (current.getD { node }).holds.Pairwise (·.fsid ≤ ·.fsid) ∧
        ∀ f, (current.getD { node }).names f = true ↔ files.Holds node f := by
      unfold readNodeFences at hread
      split at hread
      case h_1 hfind =>
        cases hread
        refine ⟨rfl, List.Pairwise.nil, fun f => ?_⟩
        simp [NodeFences.names, Files.Holds, hfind]
      case h_2 text hfind =>
        cases hparse : parseNodeFences node text with
        | error e =>
          rw [hparse] at hread
          contradiction
        | ok rec =>
          rw [hparse] at hread
          cases hread
          exact ⟨parseNodeFences_node hparse, h.parsed hfind hparse⟩
    rcases writeRecords_single fault files { current.getD { node } with expires := now + ttl } with hw | hw
    · rw [hw]
      exact hsame
    · simp only [hw]
      refine ⟨h.put (by rw [hrec.1]; exact hvisible) hrec.2.1, fun m f => ?_⟩
      rw [holds_putRecord]
      by_cases hm : m = node
      · subst hm
        simp only [hrec.1, if_true]
        exact hrec.2.2 f
      · simp only [hrec.1, hm, if_false]

theorem releaseFsFence_moved (h : FencesFiled files) (fault : Option WriteFault) (fsid : UInt32)
    (node : Text) :
    let files' := (releaseFsFence files fault fsid node).2
    FencesFiled files' ∧ FenceMoved node fsid files files' := by
  have hsame : FencesFiled files ∧ FenceMoved node fsid files files := ⟨h, .refl ..⟩
  unfold releaseFsFence
  split
  case h_1 => exact hsame
  case h_2 records hlist =>
    split
    case h_1 => exact hsame
    case h_2 rec hfind =>
      split
      case isTrue => exact hsame
      case isFalse hnode =>
        have hmem := h.of_mem hlist (List.mem_of_find?_eq_some hfind)
        rcases writeRecords_single fault files (rec.strip fsid) with hw | hw
        · simp only [hw]
          exact hsame
        · have hholds : ∀ m f, (putRecord files (rec.strip fsid)).Holds m f → files.Holds m f := by
            intro m f hm
            rw [holds_putRecord] at hm
            split at hm
            · rename_i heq
              rw [heq]
              exact (hmem.2.2 f).1 ((NodeFences.names_strip ..).1 hm).1
            · exact hm
          simp only [hw]
          refine ⟨h.put hmem.1 (sorted_strip hmem.2.1 fsid), fun m f hf => ⟨hholds m f, fun hm => ?_⟩,
            fun m _ => hholds m fsid, fun hm => .inl (hholds node fsid hm)⟩
          rw [holds_putRecord]
          split
          · rename_i heq
            rw [heq] at hm
            exact (NodeFences.names_strip ..).2 ⟨(hmem.2.2 f).2 hm, hf⟩
          · exact hm

/-! ### Runs -/

def FenceOp.fsid? : FenceOp → Option UInt32
  | acquire fsid .. | release fsid => some fsid
  | renew _ => none

/-- The node's record is seen by every listing. -/
abbrev SeenByAll (_ : Files) (call : FenceCall) : Prop := FenceVisible call.node.text

structure FencesSound (files : Files) : Prop where
  filed : FencesFiled files
  unique : FencesUnique files

theorem FencesSound.exec {call : FenceCall} (h : FencesSound files)
    (hseen : FenceVisible call.node.text) : FencesSound (call.exec files) := by
  unfold FenceCall.exec
  cases call.op with
  | acquire fsid epoch ttl force =>
    obtain ⟨hfiled, hmoved, -⟩ := acquireFsFence_moved h.filed hseen call.now call.fault fsid epoch ttl force
    exact ⟨hfiled, h.unique.moved hmoved⟩
  | renew ttl =>
    obtain ⟨hfiled, hholds⟩ := renewFences_holds h.filed hseen call.now call.fault ttl
    exact ⟨hfiled, fun m n f hm hn => h.unique m n f ((hholds m f).1 hm) ((hholds n f).1 hn)⟩
  | release fsid =>
    obtain ⟨hfiled, hmoved⟩ := releaseFsFence_moved h.filed call.fault fsid call.node.text
    exact ⟨hfiled, h.unique.moved hmoved⟩

/-- Calls of nodes whose records are seen by every listing, made one after the other with any write failing: no
export has two holders, a live holder loses its export only to force, a renewal changes no holds, and a call on one
export changes no holds of another. -/
theorem fences_exclusive (files : Files) (hstart : ∀ node, files.find (fencePath node) = none)
    (calls : List FenceCall) (call : FenceCall) (hseen : fences.Meets SeenByAll files (calls ++ [call])) :
    let before := fences.run files calls
    let after := fences.run files (calls ++ [call])
    FencesUnique after ∧
      (∀ fsid epoch ttl, call.op = .acquire fsid epoch ttl false → ∀ m f, m ≠ call.node.text → before.Holds m f →
        (∀ text rec, before.find (fencePath m) = some text → parseNodeFences m text = .ok rec →
          rec.expired call.now = false) → after.Holds m f) ∧
      (∀ ttl, call.op = .renew ttl → ∀ m f, after.Holds m f ↔ before.Holds m f) ∧
      ∀ fsid, call.op.fsid? = some fsid → ∀ m f, f ≠ fsid → (after.Holds m f ↔ before.Holds m f) := by
  intro before after
  rw [System.meets_append] at hseen
  have hnone : ∀ m f, ¬ files.Holds m f := fun m f hm => by simp [Files.Holds, hstart m] at hm
  have hempty : FencesSound files :=
    ⟨⟨fun hfind => by simp [hstart] at hfind, fun hfind => by simp [hstart] at hfind⟩,
      fun m _ f hm => absurd hm (hnone m f)⟩
  have hbefore : FencesSound before := System.run_keeps (fun _ _ hs hcall => hs.exec hcall) hempty hseen.1
  have hcall : FenceVisible call.node.text := hseen.2.1
  have hafter : after = call.exec before := by simp [after, before, System.run_append]
  rw [hafter]
  refine ⟨(hbefore.exec hcall).unique, fun fsid epoch ttl hop m f hne hm hlive => ?_, fun ttl hop => ?_,
    fun fsid hop m f hf => ?_⟩
  · obtain ⟨-, hmoved, hkept⟩ := acquireFsFence_moved hbefore.filed hcall call.now call.fault fsid epoch ttl false
    simp only [FenceCall.exec, hop]
    by_cases hf : f = fsid
    · subst hf
      exact hkept rfl m hne hm hlive
    · exact (hmoved.other m f hf).2 hm
  · simp only [FenceCall.exec, hop]
    exact (renewFences_holds hbefore.filed hcall call.now call.fault ttl).2
  · cases hcase : call.op with
    | acquire fsid' epoch ttl force =>
      simp only [hcase, FenceOp.fsid?, Option.some.injEq] at hop
      simp only [FenceCall.exec, hcase]
      subst hop
      exact (acquireFsFence_moved hbefore.filed hcall call.now call.fault fsid' epoch ttl force).2.1.other m f hf
    | renew ttl => simp [hcase, FenceOp.fsid?] at hop
    | release fsid' =>
      simp only [hcase, FenceOp.fsid?, Option.some.injEq] at hop
      simp only [FenceCall.exec, hcase]
      subst hop
      exact (releaseFsFence_moved hbefore.filed call.fault fsid' call.node.text).2.other m f hf

/-- A forced acquisition fails between its two writes; the export is then free for the node that asks next. -/
theorem fences_exclusive_takeover :
    let calls : List FenceCall := [⟨.acquire 1 1 9000 false, ⟨lit "a", by decide +kernel⟩, 0, none⟩,
      ⟨.acquire 1 2 9000 true, ⟨lit "b", by decide +kernel⟩, 5, some ⟨1, .io⟩⟩]
    let call : FenceCall := ⟨.acquire 1 3 9000 false, ⟨lit "c", by decide +kernel⟩, 6, none⟩
    (fences.run ∅ (calls ++ [call])).Holds (lit "c") 1 ∧ FencesUnique (fences.run ∅ (calls ++ [call])) := by
  intro calls call
  have hseen : fences.Meets SeenByAll ∅ (calls ++ [call]) := by decide +kernel
  exact ⟨by decide +kernel, (fences_exclusive ∅ (fun _ => rfl) calls call hseen).1⟩

def lockNode : NodeName := ⟨lit "gw.lock", by decide +kernel⟩

def plainNode : NodeName := ⟨lit "gw", by decide +kernel⟩

/-- A node whose name ends in `.lock` takes two exports, and another node one of them. -/
def hiddenCalls : List FenceCall :=
  [⟨.acquire 1 1 9000 false, lockNode, 0, none⟩, ⟨.acquire 2 1 9000 false, lockNode, 0, none⟩,
    ⟨.acquire 2 1 9000 false, plainNode, 0, none⟩]

/-- The first export is lost with the second, which then has two live holders. -/
theorem fences_hidden :
    ¬ (fences.run ∅ (hiddenCalls.take 2)).Holds lockNode.text 1 ∧
      (fences.run ∅ (hiddenCalls.take 1)).Holds lockNode.text 1 ∧
      (fences.run ∅ hiddenCalls).Holds lockNode.text 2 ∧ (fences.run ∅ hiddenCalls).Holds plainNode.text 2 := by
  decide +kernel

/-! ### A failed acquisition -/

theorem sorted_parseNodeFences {text : Text} (h : parseNodeFences node text = .ok rec) :
    rec.holds.Pairwise (·.fsid ≤ ·.fsid) := by
  simp only [parseNodeFences, bind, Except.bind] at h
  split at h <;> try contradiction
  split at h
  · cases h
    exact List.Pairwise.nil
  · split at h <;> try contradiction
    cases h
    exact sorted_sortHolds _

theorem find_foldl_putRecord {recs : List NodeFences} (hrec : rec ∈ recs) (files : Files) :
    ∃ last ∈ recs, last.node = rec.node ∧
      (recs.foldl putRecord files).find (fencePath rec.node) = some last.text := by
  induction recs using List.reverseRecOn with
  | nil => exact absurd hrec List.not_mem_nil
  | append_singleton recs last ih =>
    rw [List.foldl_append, List.foldl_cons, List.foldl_nil, putRecord, Table.find_put]
    by_cases hnode : last.node = rec.node
    · exact ⟨last, by simp, hnode, by rw [hnode, if_pos rfl]⟩
    · have hmem : rec ∈ recs := by
        rcases List.mem_append.1 hrec with hmem | hmem
        · exact hmem
        · exact absurd (congrArg NodeFences.node (List.mem_singleton.1 hmem)).symm hnode
      obtain ⟨other, hother, hsame, hfind⟩ := ih hmem
      refine ⟨other, List.mem_append_left _ hother, hsame, ?_⟩
      rw [if_neg fun hpath => hnode (fencePath_injective hpath).symm, hfind]

theorem read_strip_ne {files' : Files} (hlist : listFences files = .ok records) (hrec : rec ∈ records)
    (hnames : rec.names fsid = true)
    (hfind' : files'.find (fencePath rec.node) = some (rec.strip fsid).text) :
    readNodeFences files' rec.node ≠ readNodeFences files rec.node := by
  obtain ⟨-, text, hfind, hparse⟩ := (mem_listFences hlist rec).1 hrec
  have hbefore : readNodeFences files rec.node = .ok (some rec) := by
    rw [readNodeFences, hfind]
    simp [hparse, Except.map]
  have hparse' := parseNodeFences_text (sorted_strip (sorted_parseNodeFences hparse) fsid) rec.node
  rw [hbefore, readNodeFences, hfind']
  intro heq
  simp only [hparse'] at heq
  split at heq
  · cases heq
  · have hsame : rec.strip fsid = rec := Option.some.inj (Except.ok.inj heq)
    have hstripped := (NodeFences.names_strip rec fsid fsid).1 (by rw [hsame]; exact hnames)
    exact hstripped.2 rfl

/-- An acquisition that fails leaves every record as it was, except when a write other than its first fails: then
another holder has been stripped already. -/
theorem acquire_error_unchanged_iff (files : Files) (now : Int64) (fault : Option WriteFault) (fsid : UInt32)
    (node : Text) (epoch : UInt64) (ttl : Int64) (force : Bool) :
    ((∃ e, (acquireFsFence files now fault fsid node epoch ttl force).1 = .error e) →
      ∀ n, readNodeFences (acquireFsFence files now fault fsid node epoch ttl force).2 n = readNodeFences files n) ↔
    ∀ records f, listFences files = .ok records → (force = true ∨ fenceBusy records now node fsid = false) →
      fault = some f → f.index = 0 ∨ (otherHolders records node fsid).length < f.index := by
  constructor
  · intro hkept records f hlist hfree hfault
    by_contra hindex
    simp only [not_or, not_lt] at hindex
    have hbusy : ¬ (!force && fenceBusy records now node fsid) = true := by
      rcases hfree with h | h <;> simp [h]
    have hlt : f.index < (acquireWrites records fsid node epoch (now + ttl)).length := by
      simp only [acquireWrites, List.length_append, List.length_map, List.length_singleton]
      omega
    have htake : (acquireWrites records fsid node epoch (now + ttl)).take f.index =
        ((otherHolders records node fsid).take f.index).map (·.strip fsid) := by
      rw [acquireWrites, List.take_append_of_le_length (by simpa using hindex.2), List.map_take]
    have hresult : acquireFsFence files now fault fsid node epoch ttl force = (.error f.error,
        (((otherHolders records node fsid).take f.index).map (·.strip fsid)).foldl putRecord files) := by
      simp only [acquireFsFence, hlist, if_neg hbusy, writeRecords, hfault, if_pos hlt, htake]
      rfl
    -- the first of the other holders has lost the export
    obtain ⟨rec, hrec⟩ : ∃ rec, rec ∈ (otherHolders records node fsid).take f.index := by
      refine List.exists_mem_of_ne_nil _ fun hnil => ?_
      have := congrArg List.length hnil
      simp only [List.length_take, List.length_nil] at this
      omega
    obtain ⟨last, hlast, hnode, hfind⟩ :=
      find_foldl_putRecord (List.mem_map_of_mem (f := (·.strip fsid)) hrec) files
    obtain ⟨holder, hholder, rfl⟩ := List.mem_map.1 hlast
    obtain ⟨hmem, -, hnames⟩ := mem_otherHolders.1 (List.mem_of_mem_take hholder)
    rw [← hnode] at hfind
    refine read_strip_ne hlist hmem hnames hfind ?_
    rw [hresult] at hkept
    exact hkept ⟨f.error, rfl⟩ holder.node
  · intro hcond ⟨e, hfails⟩ n
    unfold acquireFsFence at hfails ⊢
    split at hfails
    case h_1 => rfl
    case h_2 records hlist =>
      split at hfails
      case isTrue hbusy => rw [if_pos hbusy]
      case isFalse hfree =>
        rw [if_neg hfree]
        cases fault with
        | none => simp [writeRecords, Except.map] at hfails
        | some f =>
          have hlength : (acquireWrites records fsid node epoch (now + ttl)).length =
              (otherHolders records node fsid).length + 1 := by simp [acquireWrites]
          rcases hcond records f hlist (by simpa [or_iff_not_imp_left] using hfree) rfl with hzero | hlast
          · simp [writeRecords, hzero, hlength]
          · have hnone : ¬ f.index < (acquireWrites records fsid node epoch (now + ttl)).length := by omega
            simp [writeRecords, hnone, Except.map] at hfails

/-- Node `b` forces the fence of export 1 from node `a`, and its own record cannot be written. -/
theorem acquire_error_strips :
    let files := (acquireFsFence ∅ 0 none 1 (lit "a") 1 9000 false).2
    let result := acquireFsFence files 5 (some ⟨1, .nospc⟩) 1 (lit "b") 2 9000 true
    result.1 = .error .nospc ∧ readNodeFences files (lit "a") = .ok (some ⟨lit "a", 9000, [⟨1, 1⟩]⟩) ∧
      readNodeFences result.2 (lit "a") = .ok (some ⟨lit "a", 9000, []⟩) := by
  decide +kernel

end LightNfs
