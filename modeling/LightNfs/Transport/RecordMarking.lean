import Mathlib
import LightNfs.Lib.System
import LightNfs.Xdr.Enc

/-!
# Record marking

What a peer puts on a connection is records, each cut into fragments behind their markers. `read_record` finds the
records whatever the receives return, and `write_record` puts every record behind one marker however little each send
takes. Calls of `write_record` wait for each other on the stream's mutex, oldest first.
-/

namespace LightNfs

/-! ### Records on the wire -/

/-- A fragment; its marker has 31 bits for the length. -/
structure Fragment where
  bytes : Bytes
  fits : bytes.length < 2 ^ 31

def marker (last : Bool) (len : Nat) : UInt32 := (if last then 0x80000000 else 0) ||| UInt32.ofNat len

def Fragment.wire (last : Bool) (f : Fragment) : Bytes := Xdr.putU32 (marker last f.bytes.length) ++ f.bytes

/-- A record as a peer may cut it: any fragments, and the last one. -/
structure WireRecord where
  more : List Fragment := []
  last : Fragment

namespace WireRecord

def fragments (r : WireRecord) : List Fragment := r.more ++ [r.last]

def body (r : WireRecord) : Bytes := r.fragments.flatMap Fragment.bytes

def wire (r : WireRecord) : Bytes := r.more.flatMap (Fragment.wire false) ++ r.last.wire true

/-- So many fragments more, each within the cap, and with what is there already a record within the cap. -/
structure Within (maxFragment maxRecord left sofar : Nat) (r : WireRecord) : Prop where
  count : r.fragments.length ≤ left
  fragment : ∀ f ∈ r.fragments, f.bytes.length ≤ maxFragment
  record : sofar + r.body.length ≤ maxRecord

/-- Within the caps of a stream. -/
def Legal (maxFragment maxRecord : Nat) (r : WireRecord) : Prop :=
  r.Within maxFragment maxRecord RecordStream.kMaxFragments 0

theorem within_cons {maxFragment maxRecord left sofar : Nat} {f : Fragment} {more : List Fragment} {last : Fragment} :
    Within maxFragment maxRecord (left + 1) sofar ⟨f :: more, last⟩ ↔
      f.bytes.length ≤ maxFragment ∧ Within maxFragment maxRecord left (sofar + f.bytes.length) ⟨more, last⟩ := by
  constructor
  · rintro ⟨hcount, hfragment, hrecord⟩
    refine ⟨hfragment f (by simp [fragments]), ?_, fun g hg => hfragment g ?_, ?_⟩
    · simpa [fragments] using hcount
    · simp only [fragments] at hg ⊢
      exact List.mem_cons_of_mem f hg
    · simp only [body, fragments, List.cons_append, List.flatMap_cons, List.length_append] at hrecord ⊢
      omega
  · rintro ⟨hf, hcount, hfragment, hrecord⟩
    refine ⟨?_, ?_, ?_⟩
    · simpa [fragments] using hcount
    · intro g hg
      rcases List.mem_cons.1 hg with rfl | hg
      · exact hf
      · exact hfragment g hg
    · simp only [body, fragments, List.cons_append, List.flatMap_cons, List.length_append] at hrecord ⊢
      omega

theorem within_single {maxFragment maxRecord left sofar : Nat} {last : Fragment} :
    Within maxFragment maxRecord (left + 1) sofar ⟨[], last⟩ ↔
      last.bytes.length ≤ maxFragment ∧ sofar + last.bytes.length ≤ maxRecord := by
  constructor
  · rintro ⟨-, hfragment, hrecord⟩
    exact ⟨hfragment last (by simp [fragments]), by simpa [body, fragments] using hrecord⟩
  · rintro ⟨hlast, hrecord⟩
    exact ⟨by simp [fragments], by simpa [fragments] using hlast, by simpa [body, fragments] using hrecord⟩

end WireRecord

/-! ### Markers -/

theorem toNat_and_low (v : UInt32) : (v &&& 0x7fffffff).toNat = v.toNat % 2 ^ 31 := by
  rw [UInt32.toNat_and]
  exact Nat.and_two_pow_sub_one_eq_mod v.toNat 31

theorem and_high (v : UInt32) : v &&& 0x80000000 ≠ 0 ↔ 2 ^ 31 ≤ v.toNat := by
  have hv := v.toNat_lt
  have hand : (v &&& 0x80000000).toNat = (v.toNat.testBit 31).toNat * 2 ^ 31 := by
    rw [UInt32.toNat_and]
    exact Nat.and_two_pow v.toNat 31
  have hbit : v.toNat.testBit 31 = decide (2 ^ 31 ≤ v.toNat) := by
    rw [Nat.testBit_eq_decide_div_mod_eq, decide_eq_decide]
    omega
  rw [ne_eq, ← UInt32.toNat_inj, hand, hbit, UInt32.toNat_zero]
  by_cases hhigh : 2 ^ 31 ≤ v.toNat <;> simp

theorem toNat_marker {len : Nat} (hlen : len < 2 ^ 31) (last : Bool) :
    (marker last len).toNat = (if last then 2 ^ 31 else 0) + len := by
  have hof : (UInt32.ofNat len).toNat = len := by
    rw [UInt32.toNat_ofNat']
    exact Nat.mod_eq_of_lt (by omega)
  cases last with
  | false => simp [marker, hof]
  | true =>
    have hor := Nat.two_pow_add_eq_or_of_lt (i := 31) hlen 1
    rw [marker, if_pos rfl, if_pos rfl, UInt32.toNat_or, hof]
    exact hor.symm

theorem marker_length {len : Nat} (hlen : len < 2 ^ 31) (last : Bool) :
    (marker last len &&& 0x7fffffff).toNat = len := by
  rw [toNat_and_low, toNat_marker hlen]
  split <;> omega

theorem marker_last {len : Nat} (hlen : len < 2 ^ 31) (last : Bool) :
    marker last len &&& 0x80000000 ≠ 0 ↔ last = true := by
  rw [and_high, toNat_marker hlen]
  split <;> simp_all

theorem marker_of (hdr : UInt32) : marker (hdr &&& 0x80000000 ≠ 0) (hdr &&& 0x7fffffff).toNat = hdr := by
  have hv := hdr.toNat_lt
  have hlen : (hdr &&& 0x7fffffff).toNat < 2 ^ 31 := by
    rw [toNat_and_low]
    exact Nat.mod_lt _ (by decide)
  apply UInt32.toNat_inj.mp
  rw [toNat_marker hlen, toNat_and_low]
  simp only [decide_eq_true_eq, and_high]
  split <;> omega

/-! ### Reading -/

/-- What the receives are going to bring before one of them fails. -/
def arriving : List Recv → Bytes
  | [] => []
  | .again :: rest => arriving rest
  | .fail _ :: _ => []
  | .data b bs :: rest => b :: bs ++ arriving rest

namespace RecordStream

/-- What has not been read: the rest of the buffer, and what is still to be received. -/
def pending (s : RecordStream) : Bytes :=
  s.unread.map Octet.value ++ arriving (if s.tls then s.session else s.socket)

/-- The buffer is not filled beyond its end. -/
def Wf (s : RecordStream) : Prop := s.filled ≤ kMedium

instance (s : RecordStream) : Decidable s.Wf := inferInstanceAs (Decidable (s.filled ≤ kMedium))

variable {s : RecordStream}

theorem receive_spec {room : Nat} (hroom : 0 < room) (fromTls : Bool) (script : List Recv) :
    if arriving script = [] then ∃ e, receive room fromTls script = .error e
    else ∃ got rest, receive room fromTls script = .ok (got, rest) ∧ got ≠ [] ∧ got.length ≤ room ∧
      got.map Octet.value ++ arriving rest = arriving script := by
  induction script with
  | nil => exact ⟨_, rfl⟩
  | cons r script ih =>
    cases r with
    | again => exact ih
    | fail e => exact ⟨_, rfl⟩
    | data b bs =>
      rw [if_neg (by simp [arriving])]
      obtain ⟨room, rfl⟩ := Nat.exists_eq_add_one.2 hroom
      refine ⟨_, _, rfl, by simp, by simp, ?_⟩
      have hsplit := List.take_append_drop (room + 1) (b :: bs)
      have hvalues : (((b :: bs).take (room + 1)).map fun v => (⟨v, fromTls⟩ : Octet)).map Octet.value =
          (b :: bs).take (room + 1) := by
        rw [List.map_map]
        exact List.map_id _
      rw [hvalues, arriving]
      generalize (b :: bs).take (room + 1) = now at hsplit
      generalize (b :: bs).drop (room + 1) = later at hsplit
      rw [← hsplit]
      cases later with
      | nil => simp
      | cons c cs => simp [arriving]

theorem fill_spec (hs : s.Wf) (hunread : s.unread = []) :
    if s.pending = [] then ∃ e, s.fill = .error e
    else ∃ s', s.fill = .ok s' ∧ s'.unread ≠ [] ∧ s'.pending = s.pending ∧ s'.Wf := by
  unfold Wf at hs
  have hroom : 0 < kMedium - if s.filled = kMedium then 0 else s.filled := by
    split
    · decide
    · omega
  have hreceive := receive_spec hroom s.tls (if s.tls then s.session else s.socket)
  have hpending : s.pending = arriving (if s.tls then s.session else s.socket) := by simp [pending, hunread]
  rw [hpending]
  by_cases hnone : arriving (if s.tls then s.session else s.socket) = []
  · rw [if_pos hnone] at hreceive ⊢
    obtain ⟨e, he⟩ := hreceive
    exact ⟨e, by simp only [fill, he]⟩
  · rw [if_neg hnone] at hreceive ⊢
    obtain ⟨got, rest, hgot, hne, hle, harriving⟩ := hreceive
    have hfill : s.fill = .ok { s with
        unread := got
        filled := (if s.filled = kMedium then 0 else s.filled) + got.length
        socket := if s.tls then s.socket else rest
        session := if s.tls then rest else s.session } := by simp only [fill, hgot]
    refine ⟨_, hfill, hne, ?_, ?_⟩
    · rw [← harriving, pending]
      cases s.tls <;> rfl
    · show (if s.filled = kMedium then 0 else s.filled) + got.length ≤ kMedium
      omega

theorem readByte_spec (hs : s.Wf) :
    match s.pending with
    | [] => ∃ e, s.readByte = .error e
    | b :: rest => ∃ o s', s.readByte = .ok (o, s') ∧ o.value = b ∧ s'.pending = rest ∧ s'.Wf := by
  cases hunread : s.unread with
  | cons o unread =>
    have hpending : s.pending = o.value :: ({ s with unread } : RecordStream).pending := by simp [pending, hunread]
    rw [hpending]
    exact ⟨o, _, by simp only [readByte, hunread], rfl, rfl, hs⟩
  | nil =>
    have hfill := fill_spec hs hunread
    cases hpending : s.pending with
    | nil =>
      rw [if_pos hpending] at hfill
      obtain ⟨e, he⟩ := hfill
      exact ⟨e, by simp only [readByte, hunread, he]⟩
    | cons b rest =>
      rw [if_neg (by simp [hpending])] at hfill
      obtain ⟨s', hs', hne, hkept, hwf⟩ := hfill
      cases hunread' : s'.unread with
      | nil => exact absurd hunread' hne
      | cons o unread =>
        have hcons : o.value :: ({ s' with unread } : RecordStream).pending = b :: rest := by
          rw [← hpending, ← hkept]
          simp [pending, hunread']
        obtain ⟨hvalue, hrest⟩ := List.cons.inj hcons
        exact ⟨o, _, by simp only [readByte, hunread, hs', hunread'], hvalue, hrest, hwf⟩

theorem readBytes_spec (hs : s.Wf) (n : Nat) :
    if n ≤ s.pending.length then
      ∃ bs s', readBytes n s = .ok (bs, s') ∧ bs.map Octet.value = s.pending.take n ∧ s'.pending = s.pending.drop n ∧ s'.Wf
    else ∃ e, readBytes n s = .error e := by
  induction n generalizing s with
  | zero => exact ⟨[], s, rfl, rfl, rfl, hs⟩
  | succ n ih =>
    have hbyte := readByte_spec hs
    cases hpending : s.pending with
    | nil =>
      rw [hpending] at hbyte
      obtain ⟨e, he⟩ := hbyte
      rw [if_neg (by simp)]
      exact ⟨e, by simp only [readBytes, he]⟩
    | cons b rest =>
      rw [hpending] at hbyte
      obtain ⟨o, s', hs', rfl, rfl, hwf⟩ := hbyte
      have hrest := ih hwf
      split at hrest
      case isTrue hn =>
        rw [if_pos (by simpa using hn)]
        obtain ⟨bs, s'', hbs, hvalues, hleft, hwf'⟩ := hrest
        exact ⟨o :: bs, s'', by simp only [readBytes, hs', hbs], by simp [hvalues], by simp [hleft], hwf'⟩
      case isFalse hn =>
        rw [if_neg (by simpa using hn)]
        obtain ⟨e, he⟩ := hrest
        exact ⟨e, by simp only [readBytes, hs', he]⟩

theorem readBytes_append (hs : s.Wf) {bytes rest : Bytes} (h : s.pending = bytes ++ rest) :
    ∃ bs s', readBytes bytes.length s = .ok (bs, s') ∧ bs.map Octet.value = bytes ∧ s'.pending = rest ∧ s'.Wf := by
  have hread := readBytes_spec hs bytes.length
  rw [if_pos (by simp [h]), h, List.take_left, List.drop_left] at hread
  exact hread

theorem readBytes_ok {s' : RecordStream} (hs : s.Wf) {n : Nat} {bs : List Octet} (h : readBytes n s = .ok (bs, s')) :
    bs.length = n ∧ s.pending = bs.map Octet.value ++ s'.pending ∧ s'.Wf := by
  have hread := readBytes_spec hs n
  split at hread
  case isTrue hn =>
    obtain ⟨bs', s'', hok, hvalues, hleft, hwf⟩ := hread
    obtain ⟨rfl, rfl⟩ : bs' = bs ∧ s'' = s' := by simpa [hok] using h
    refine ⟨?_, by rw [hvalues, hleft, List.take_append_drop], hwf⟩
    have hlen := congrArg List.length hvalues
    simpa [Nat.min_eq_left hn] using hlen
  case isFalse =>
    obtain ⟨e, he⟩ := hread
    rw [he] at h
    cases h

section Caps

variable (maxFragment maxRecord : Nat)

theorem readFragments_step {s : RecordStream} (hs : s.Wf) {last : Bool} {f : Fragment} {rest : Bytes}
    (h : s.pending = f.wire last ++ rest) (left : Nat) (rec : Record) :
    ∃ longer s', longer.bytes = rec.bytes ++ f.bytes ∧ s'.pending = rest ∧ s'.Wf ∧
      readFragments maxFragment maxRecord left rec s =
        match left with
        | 0 => .error (.errno .msgsize)
        | left + 1 =>
          if f.bytes.length > maxFragment ∨ rec.body.length + f.bytes.length > maxRecord then .error (.errno .msgsize)
          else if last then .ok (longer, s') else readFragments maxFragment maxRecord left longer s' := by
  rw [Fragment.wire, List.append_assoc] at h
  obtain ⟨mark, s₁, hmark, hvalues, hpending, hs₁⟩ := readBytes_append hs h
  obtain ⟨bytes, s₂, hbytes, hbody, hpending', hs₂⟩ := readBytes_append hs₁ hpending
  refine ⟨⟨rec.marks ++ mark, rec.body ++ bytes⟩, s₂, by simp [Record.bytes, hbody], hpending', hs₂, ?_⟩
  rw [Xdr.length_putU32] at hmark
  rw [readFragments, hmark]
  simp only [hvalues, Xdr.be32_putU32, marker_length f.fits, hbytes]
  cases left with
  | zero => rfl
  | succ left =>
    have hlast := marker_last f.fits last
    simp only [hlast]

theorem readFragments_wire (r : WireRecord) {s : RecordStream} (hs : s.Wf) {rest : Bytes}
    (h : s.pending = r.wire ++ rest) (left : Nat) (rec : Record) :
    (r.Within maxFragment maxRecord left rec.body.length →
      ∃ rec' s', readFragments maxFragment maxRecord left rec s = .ok (rec', s') ∧ rec'.bytes = rec.bytes ++ r.body ∧
        s'.pending = rest ∧ s'.Wf) ∧
    (¬r.Within maxFragment maxRecord left rec.body.length →
      readFragments maxFragment maxRecord left rec s = .error (.errno .msgsize)) := by
  obtain ⟨more, last⟩ := r
  induction more generalizing s left rec with
  | nil =>
    have hwire : s.pending = last.wire true ++ rest := h
    obtain ⟨longer, s', hbytes, hpending, hs', hread⟩ := readFragments_step maxFragment maxRecord hs hwire left rec
    rw [hread]
    cases left with
    | zero => exact ⟨fun hwithin => absurd hwithin.count (by simp [WireRecord.fragments]), fun _ => rfl⟩
    | succ left =>
      rw [WireRecord.within_single]
      refine ⟨fun hwithin => ⟨longer, s', ?_, by simp [hbytes, WireRecord.body, WireRecord.fragments], hpending, hs'⟩,
        fun hover => ?_⟩
      · exact (if_neg (by omega)).trans (if_pos rfl)
      · exact if_pos (by omega)
  | cons f more ih =>
    have hwire : s.pending = f.wire false ++ ((⟨more, last⟩ : WireRecord).wire ++ rest) := by
      simpa [WireRecord.wire] using h
    obtain ⟨longer, s', hbytes, hpending, hs', hread⟩ := readFragments_step maxFragment maxRecord hs hwire left rec
    rw [hread]
    have hlength : longer.body.length = rec.body.length + f.bytes.length := by
      have := congrArg List.length hbytes
      simpa [Record.bytes] using this
    cases left with
    | zero => exact ⟨fun hwithin => absurd hwithin.count (by simp [WireRecord.fragments]), fun _ => rfl⟩
    | succ left =>
      obtain ⟨hok, hrefused⟩ := ih hs' left longer hpending
      rw [WireRecord.within_cons, ← hlength]
      refine ⟨fun hwithin => ?_, fun hover => ?_⟩
      · have hroom := hwithin.2.record
        obtain ⟨rec', s'', hread', hbytes', hpending', hs''⟩ := hok hwithin.2
        refine ⟨rec', s'', ?_, ?_, hpending', hs''⟩
        · rw [← hread']
          exact (if_neg (by omega)).trans (if_neg Bool.false_ne_true)
        · rw [hbytes', hbytes]
          simp [WireRecord.body, WireRecord.fragments]
      · by_cases hcap : f.bytes.length > maxFragment ∨ longer.body.length > maxRecord
        · exact if_pos hcap
        · have hover' := hrefused fun hwithin => hover ⟨by omega, hwithin⟩
          exact ((if_neg hcap).trans (if_neg Bool.false_ne_true)).trans hover'

variable {maxFragment maxRecord}

theorem readFragments_ok {left : Nat} {rec rec' : Record} {s s' : RecordStream} (hs : s.Wf)
    (h : readFragments maxFragment maxRecord left rec s = .ok (rec', s')) :
    ∃ r : WireRecord, r.Within maxFragment maxRecord left rec.body.length ∧ s.pending = r.wire ++ s'.pending ∧
      rec'.bytes = rec.bytes ++ r.body ∧ s'.Wf := by
  induction left generalizing rec s with
  | zero =>
    rw [readFragments] at h
    split at h <;> cases h
  | succ left ih =>
    rw [readFragments] at h
    split at h
    · cases h
    next mark s₁ hmark =>
    obtain ⟨hlen, hpending, hs₁⟩ := readBytes_ok hs hmark
    dsimp only at h
    have hhdr := marker_of (be32 (mark.map Octet.value))
    have hmarked := @Xdr.putU32_be32 (mark.map Octet.value) (by simpa using hlen)
    generalize be32 (mark.map Octet.value) = hdr at h hhdr hmarked
    split at h
    · cases h
    next hcaps =>
    split at h
    · cases h
    next bytes s₂ hbytes =>
    obtain ⟨hlen', hpending', hs₂⟩ := readBytes_ok hs₁ hbytes
    have hfits : (bytes.map Octet.value).length < 2 ^ 31 := by
      rw [List.length_map, hlen', toNat_and_low]
      exact Nat.mod_lt _ (by decide)
    have hwire : s.pending = Fragment.wire (hdr &&& 0x80000000 ≠ 0) ⟨_, hfits⟩ ++ s₂.pending := by
      rw [hpending, hpending', Fragment.wire, ← hmarked, List.length_map, hlen', hhdr, List.append_assoc]
    split at h
    next hlast =>
      cases h
      refine ⟨⟨[], ⟨_, hfits⟩⟩, WireRecord.within_single.2 ?_, ?_, ?_, hs₂⟩
      · simp only [List.length_map, hlen']
        omega
      · simpa [WireRecord.wire, hlast] using hwire
      · simp [Record.bytes, WireRecord.body, WireRecord.fragments]
    next hmore =>
      obtain ⟨⟨more, last⟩, hwithin, hrest, hbody, hs'⟩ := ih hs₂ h
      refine ⟨⟨⟨_, hfits⟩ :: more, last⟩, WireRecord.within_cons.2 ⟨?_, ?_⟩, ?_, ?_, hs'⟩
      · simp only [List.length_map, hlen']
        omega
      · simpa using hwithin
      · simp only [hmore, decide_false] at hwire
        rw [hwire, hrest]
        simp [WireRecord.wire]
      · rw [hbody]
        simp [Record.bytes, WireRecord.body, WireRecord.fragments]

end Caps

def readRecords (maxFragment maxRecord : Nat) : Nat → RecordStream → Except Stop (List Record × RecordStream)
  | 0, s => .ok ([], s)
  | n + 1, s =>
    match s.readRecord maxFragment maxRecord with
    | .error e => .error e
    | .ok (rec, s) =>
      match readRecords maxFragment maxRecord n s with
      | .error e => .error e
      | .ok (recs, s) => .ok (rec :: recs, s)

theorem readRecords_wire {maxFragment maxRecord : Nat} {records : List WireRecord}
    (hlegal : ∀ r ∈ records, r.Legal maxFragment maxRecord) (hs : s.Wf) {rest : Bytes}
    (h : s.pending = records.flatMap WireRecord.wire ++ rest) :
    ∃ recs s', readRecords maxFragment maxRecord records.length s = .ok (recs, s') ∧
      recs.map Record.bytes = records.map WireRecord.body ∧ s'.pending = rest ∧ s'.Wf := by
  induction records generalizing s with
  | nil => exact ⟨[], s, rfl, rfl, h, hs⟩
  | cons r records ih =>
    rw [List.flatMap_cons, List.append_assoc] at h
    obtain ⟨rec, s₁, hread, hbytes, hpending, hs₁⟩ :=
      (readFragments_wire maxFragment maxRecord r hs h kMaxFragments {}).1 (hlegal r (by simp))
    obtain ⟨recs, s₂, hread', hbytes', hpending', hs₂⟩ := ih (fun r hr => hlegal r (by simp [hr])) hs₁ hpending
    have hfirst : s.readRecord maxFragment maxRecord = .ok (rec, s₁) := hread
    refine ⟨rec :: recs, s₂, by simp only [List.length_cons, readRecords, hfirst, hread'], ?_, hpending', hs₂⟩
    rw [List.map_cons, List.map_cons, hbytes, hbytes']
    rfl

end RecordStream

/-! ### Writing -/

def toIovecs : List Bytes → Nat → List Bytes
  | [], _ => []
  | seg :: segs, skip =>
    if skip ≥ seg.length then toIovecs segs (skip - seg.length) else seg.drop skip :: toIovecs segs 0

theorem toIovecs_zero (segs : List Bytes) : (toIovecs segs 0).flatten = segs.flatten := by
  induction segs with
  | nil => rfl
  | cons seg segs ih =>
    rw [toIovecs, Nat.zero_sub]
    split
    case isTrue hnil =>
      have hnil : seg = [] := List.length_eq_zero_iff.1 (by omega)
      rw [ih, hnil, List.flatten_cons, List.nil_append]
    case isFalse => rw [List.flatten_cons, List.drop_zero, ih, List.flatten_cons]

theorem toIovecs_flatten (segs : List Bytes) (skip : Nat) : (toIovecs segs skip).flatten = segs.flatten.drop skip := by
  induction segs generalizing skip with
  | nil => simp [toIovecs]
  | cons seg segs ih =>
    rw [toIovecs, List.flatten_cons, List.drop_append]
    split
    case isTrue hskip => rw [ih, List.drop_eq_nil_of_le hskip, List.nil_append]
    case isFalse hinside =>
      have hzero : skip - seg.length = 0 := by omega
      rw [List.flatten_cons, toIovecs_zero, hzero, List.drop_zero]

/-- What `write_record` puts on the stream: one marker, of the size in 32 bits, and the record. -/
def recordMark (segs : List Bytes) : Bytes := Xdr.putU32 (marker true segs.flatten.length)

def recordFrame (segs : List Bytes) : Bytes := recordMark segs ++ segs.flatten

/-- A `write_record` that holds the mutex: on the socket, with the bytes sent so far, or on the TLS session, with what
is left of the span that `TlsConn::write` is at and the spans behind it. -/
inductive Sending where
  | socket (segs : List Bytes) (sent : Nat)
  | session (segs : List Bytes) (spans : List Bytes)

namespace Sending

def segs : Sending → List Bytes
  | socket segs _ => segs
  | session segs _ => segs

def start (tls : Bool) (segs : List Bytes) : Sending :=
  if tls then session segs (recordMark segs :: segs) else socket segs 0

def iovecs (segs : List Bytes) (sent : Nat) : List Bytes :=
  if sent < 4 then (recordMark segs).drop sent :: toIovecs segs 0 else toIovecs segs (sent - 4)

/-- A send that takes so many bytes and one more, as far as they were offered: what it took, and the call as it goes on,
if it does. -/
def accept (n : Nat) : Sending → Bytes × Option Sending
  | socket segs sent =>
    let took := (iovecs segs sent).flatten.take (n + 1)
    (took, if sent + took.length < 4 + segs.flatten.length then some (socket segs (sent + took.length)) else none)
  | session _ [] => ([], none)
  | session segs (span :: spans) =>
    (span.take (n + 1),
      match (span.drop (n + 1) :: spans).dropWhile List.isEmpty with
      | [] => none
      | left => some (session segs left))

end Sending

/-- A call of `write_record` that has returned, with the error if it failed. -/
structure Written where
  segs : List Bytes
  error : Option Errno := none

/-- The writing side of `RecordStream`: the call that holds `wmu_`, those that wait for it, `send_queued_`, and what is
on the stream. -/
structure RecordWriter where
  tls : Bool
  current : Option Sending := none
  waiting : List (List Bytes) := []
  sendQueued : Nat := 0
  stream : Bytes := []
  returned : List Written := []

/-- A call, and what a send of the call at the mutex returns. -/
inductive WriteEvent where
  | call (segs : List Bytes)
  | sent (n : Nat)
  | again
  | fail (e : Errno)

namespace RecordWriter

/-- The call returns and the oldest one that waits has the mutex. -/
def finish (w : RecordWriter) (written : Written) : RecordWriter :=
  { w with
    current := w.waiting.head?.map (Sending.start w.tls)
    waiting := w.waiting.tail
    sendQueued := w.sendQueued - written.segs.flatten.length
    returned := w.returned ++ [written] }

def step (w : RecordWriter) : WriteEvent → RecordWriter
  | .call segs =>
    let w := { w with sendQueued := w.sendQueued + segs.flatten.length }
    if w.current.isNone then { w with current := some (.start w.tls segs) }
    else { w with waiting := w.waiting ++ [segs] }
  | .sent n =>
    match w.current with
    | none => w
    | some c =>
      match c.accept n with
      | (took, some c') => { w with stream := w.stream ++ took, current := some c' }
      | (took, none) => finish { w with stream := w.stream ++ took } ⟨c.segs, none⟩
  | .again => w
  | .fail e =>
    match w.current with
    | none => w
    | some c => w.finish ⟨c.segs, some e⟩

end RecordWriter

def writing : System RecordWriter WriteEvent := ⟨RecordWriter.step⟩

/-! ### What is on the stream -/

namespace Sending

def rest : Sending → Bytes
  | socket segs sent => (recordFrame segs).drop sent
  | session _ spans => spans.flatten

/-- A call is in its loop, at something to send. -/
def Wf : Sending → Prop
  | socket segs sent => sent < 4 + segs.flatten.length
  | session _ spans => ∃ span later, spans = span :: later ∧ span ≠ []

theorem length_recordMark (segs : List Bytes) : (recordMark segs).length = 4 := rfl

theorem length_recordFrame (segs : List Bytes) : (recordFrame segs).length = 4 + segs.flatten.length := by
  rw [recordFrame, List.length_append, length_recordMark]

theorem iovecs_flatten (segs : List Bytes) (sent : Nat) :
    (iovecs segs sent).flatten = (recordFrame segs).drop sent := by
  have hlen := length_recordMark segs
  unfold iovecs recordFrame
  split
  case isTrue hinside =>
    rw [List.flatten_cons, toIovecs_zero, List.drop_append_of_le_length (by omega)]
  case isFalse hbehind =>
    have hmark : (recordMark segs).drop sent = [] := List.drop_eq_nil_of_le (by omega)
    rw [toIovecs_flatten, List.drop_append, hmark, List.nil_append, hlen]

theorem start_spec (tls : Bool) (segs : List Bytes) :
    (start tls segs).Wf ∧ (start tls segs).segs = segs ∧ (start tls segs).rest = recordFrame segs := by
  cases tls with
  | false => exact ⟨show 0 < 4 + _ by omega, rfl, rfl⟩
  | true => exact ⟨⟨_, _, rfl, nofun⟩, rfl, rfl⟩

theorem Wf.rest_ne_nil {c : Sending} (hc : c.Wf) : c.rest ≠ [] := by
  cases c with
  | socket segs sent =>
    have hsent : sent < 4 + segs.flatten.length := hc
    rw [rest, ne_eq, List.drop_eq_nil_iff, length_recordFrame]
    omega
  | session segs spans =>
    obtain ⟨span, later, rfl, hspan⟩ := hc
    simp [rest, hspan]

theorem flatten_dropWhile_isEmpty (spans : List Bytes) : (spans.dropWhile List.isEmpty).flatten = spans.flatten := by
  induction spans with
  | nil => rfl
  | cons span spans ih =>
    cases span with
    | nil => exact ih
    | cons b bs => rfl

theorem accept_spec {c : Sending} (hc : c.Wf) (n : Nat) :
    (c.accept n).1 ≠ [] ∧
      match (c.accept n).2 with
      | none => (c.accept n).1 = c.rest
      | some c' => c'.Wf ∧ c'.segs = c.segs ∧ (c.accept n).1 ++ c'.rest = c.rest := by
  cases c with
  | socket segs sent =>
    have hsent : sent < 4 + segs.flatten.length := hc
    have hlen := length_recordFrame segs
    have hne : (recordFrame segs).drop sent ≠ [] := hc.rest_ne_nil
    simp only [accept, iovecs_flatten]
    refine ⟨by simpa using hne, ?_⟩
    split
    case h_1 hdone =>
      have hall : ¬sent + (((recordFrame segs).drop sent).take (n + 1)).length < 4 + segs.flatten.length := by
        simpa using hdone
      rw [List.length_take, List.length_drop, hlen] at hall
      exact List.take_of_length_le (by rw [List.length_drop]; omega)
    case h_2 c' hnext =>
      obtain ⟨hmore, rfl⟩ := Option.ite_some_none_eq_some.1 hnext
      refine ⟨hmore, rfl, ?_⟩
      show _ ++ (recordFrame segs).drop _ = (recordFrame segs).drop sent
      rw [List.length_take, ← List.drop_drop, List.take_eq_take_min, List.take_append_drop]
  | session segs spans =>
    obtain ⟨span, later, rfl, hspan⟩ := hc
    have hflat := flatten_dropWhile_isEmpty (span.drop (n + 1) :: later)
    have hnonempty := List.head?_dropWhile_not List.isEmpty (span.drop (n + 1) :: later)
    simp only [accept]
    refine ⟨by simpa using hspan, ?_⟩
    generalize (span.drop (n + 1) :: later).dropWhile List.isEmpty = left at hflat hnonempty
    rw [List.flatten_cons] at hflat
    show match (match left with | [] => none | left => some (session segs left)) with | none => _ | some c' => _
    cases left with
    | nil =>
      obtain ⟨hdrop, hlater⟩ := List.append_eq_nil_iff.1 hflat.symm
      show span.take (n + 1) = span ++ later.flatten
      rw [hlater, List.append_nil]
      exact List.take_of_length_le (List.drop_eq_nil_iff.1 hdrop)
    | cons next left =>
      refine ⟨⟨next, left, rfl, ?_⟩, rfl, ?_⟩
      · rintro rfl
        simp at hnonempty
      · show span.take (n + 1) ++ (next :: left).flatten = span ++ later.flatten
        rw [hflat, ← List.append_assoc, List.take_append_drop]

end Sending

/-- The calls of `write_record` in their order. -/
def writeCalls (events : List WriteEvent) : List (List Bytes) :=
  events.filterMap fun
    | .call segs => some segs
    | _ => none

namespace RecordWriter

/-- The calls that have the mutex or wait for it. -/
def open_ (w : RecordWriter) : List (List Bytes) := (w.current.map Sending.segs).toList ++ w.waiting

/-- What the call at the mutex has sent, and has still to send, is its frame. -/
def Partial (current : Option Sending) (sofar : Bytes) : Prop :=
  match current with
  | none => sofar = []
  | some c => sofar ++ c.rest = recordFrame c.segs

/-- The calls are served in their order, and as long as none failed the stream is their frames one after the other,
the last one as far as it was sent. -/
structure Sound (calls : List (List Bytes)) (w : RecordWriter) : Prop where
  current : ∀ c, w.current = some c → c.Wf
  idle : w.current = none → w.waiting = []
  order : w.returned.map Written.segs ++ w.open_ = calls
  queued : w.sendQueued = (w.open_.map fun segs => segs.flatten.length).sum
  stream : (∀ r ∈ w.returned, r.error = none) →
    ∃ sofar, w.stream = (w.returned.map Written.segs).flatMap recordFrame ++ sofar ∧ Partial w.current sofar

theorem sound_init (tls : Bool) : Sound [] { tls } := ⟨nofun, fun _ => rfl, rfl, rfl, fun _ => ⟨[], rfl, rfl⟩⟩

theorem partial_start (tls : Bool) (next : Option (List Bytes)) : Partial (next.map (Sending.start tls)) [] := by
  cases next with
  | none => rfl
  | some segs =>
    obtain ⟨-, hsegs, hrest⟩ := Sending.start_spec tls segs
    show [] ++ (Sending.start tls segs).rest = recordFrame (Sending.start tls segs).segs
    rw [hrest, hsegs, List.nil_append]

namespace Sound

variable {calls : List (List Bytes)} {w : RecordWriter}

theorem open_finish (written : Written) : (w.finish written).open_ = w.waiting := by
  unfold open_ finish
  cases w.waiting with
  | nil => rfl
  | cons segs waiting => simp [(Sending.start_spec w.tls segs).2.1]

theorem finish (h : Sound calls w) {c : Sending} (hc : w.current = some c) {stream : Bytes} {error : Option Errno}
    (hstream : error = none → ∀ sofar, Partial w.current sofar →
      w.stream = (w.returned.map Written.segs).flatMap recordFrame ++ sofar →
      stream = (w.returned.map Written.segs).flatMap recordFrame ++ recordFrame c.segs) :
    Sound calls (RecordWriter.finish { w with stream } ⟨c.segs, error⟩) := by
  have hopen : w.open_ = c.segs :: w.waiting := by simp [open_, hc]
  have hopen' : (RecordWriter.finish { w with stream } ⟨c.segs, error⟩).open_ = w.waiting := open_finish _
  refine ⟨?_, ?_, ?_, ?_, fun herror => ?_⟩
  · intro c' hc'
    obtain ⟨segs, -, rfl⟩ := Option.map_eq_some_iff.1 hc'
    exact (Sending.start_spec w.tls segs).1
  · intro hnone
    have hhead : w.waiting.head? = none := Option.map_eq_none_iff.1 hnone
    show w.waiting.tail = []
    rw [List.head?_eq_none_iff.1 hhead, List.tail_nil]
  · rw [hopen', ← h.order, hopen]
    simp [RecordWriter.finish]
  · rw [hopen']
    show w.sendQueued - c.segs.flatten.length = _
    rw [h.queued, hopen, List.map_cons, List.sum_cons, Nat.add_sub_cancel_left]
  · have hok : error = none := herror ⟨c.segs, error⟩ (by simp [RecordWriter.finish])
    obtain ⟨sofar, hsofar, hpartial⟩ := h.stream fun r hr => herror r (by simp [RecordWriter.finish, hr])
    refine ⟨[], ?_, partial_start w.tls w.waiting.head?⟩
    have hfull := hstream hok sofar hpartial hsofar
    simp [RecordWriter.finish, hfull]

theorem call (h : Sound calls w) (segs : List Bytes) : Sound (calls ++ [segs]) (w.step (.call segs)) := by
  cases hcurrent : w.current with
  | none =>
    obtain ⟨hwf, hsegs, hrest⟩ := Sending.start_spec w.tls segs
    have hidle := h.idle hcurrent
    have hopen : w.open_ = [] := by simp [open_, hcurrent, hidle]
    have hopen' : (w.step (.call segs)).open_ = [segs] := by simp [open_, step, hcurrent, hsegs, hidle]
    have hstep : (w.step (.call segs)).current = some (.start w.tls segs) := by simp [step, hcurrent]
    have hkept : (w.step (.call segs)).returned = w.returned ∧ (w.step (.call segs)).stream = w.stream ∧
        (w.step (.call segs)).sendQueued = w.sendQueued + segs.flatten.length := by simp [step, hcurrent]
    refine ⟨?_, by simp [hstep], ?_, ?_, fun herror => ?_⟩
    · intro c hc
      obtain rfl : Sending.start w.tls segs = c := by simpa [hstep] using hc
      exact hwf
    · rw [hopen', hkept.1, ← h.order, hopen, List.append_nil]
    · rw [hopen', hkept.2.2, h.queued, hopen]
      simp
    · rw [hkept.1] at herror ⊢
      obtain ⟨sofar, hsofar, hpartial⟩ := h.stream herror
      rw [hcurrent] at hpartial
      obtain rfl : sofar = [] := hpartial
      rw [hkept.2.1, hstep]
      exact ⟨[], hsofar, partial_start w.tls (some segs)⟩
  | some c =>
    have hopen' : (w.step (.call segs)).open_ = w.open_ ++ [segs] := by simp [open_, step, hcurrent]
    have hkept : (w.step (.call segs)).returned = w.returned ∧ (w.step (.call segs)).stream = w.stream ∧
        (w.step (.call segs)).current = w.current ∧
        (w.step (.call segs)).sendQueued = w.sendQueued + segs.flatten.length := by simp [step, hcurrent]
    obtain ⟨hreturned, hstream, hsame, hqueued⟩ := hkept
    refine ⟨by rw [hsame]; exact h.current, by simp [hsame, hcurrent], ?_, ?_, ?_⟩
    · rw [hopen', hreturned, ← h.order, List.append_assoc]
    · rw [hopen', hqueued, h.queued]
      simp
    · rw [hreturned, hstream, hsame]
      exact h.stream

theorem sent (h : Sound calls w) (n : Nat) : Sound calls (w.step (.sent n)) := by
  cases hcurrent : w.current with
  | none =>
    have hstep : w.step (.sent n) = w := by simp [step, hcurrent]
    rwa [hstep]
  | some c =>
    obtain ⟨-, hnext⟩ := Sending.accept_spec (h.current c hcurrent) n
    cases haccept : c.accept n with
    | mk took next =>
    rw [haccept] at hnext
    cases next with
    | none =>
      have hstep : w.step (.sent n) = RecordWriter.finish { w with stream := w.stream ++ took } ⟨c.segs, none⟩ := by
        simp only [step, hcurrent, haccept]
      rw [hstep]
      refine h.finish hcurrent fun _ sofar hpartial hsofar => ?_
      have htook : took = c.rest := hnext
      have hfull : sofar ++ c.rest = recordFrame c.segs := by simpa [Partial, hcurrent] using hpartial
      rw [hsofar, htook, List.append_assoc, hfull]
    | some c' =>
      obtain ⟨hwf, hsegs, hrest⟩ := hnext
      have hstep : w.step (.sent n) = { w with stream := w.stream ++ took, current := some c' } := by
        simp only [step, hcurrent, haccept]
      have hopen : (w.step (.sent n)).open_ = w.open_ := by simp [hstep, open_, hcurrent, hsegs]
      refine ⟨?_, by simp [hstep], ?_, ?_, ?_⟩
      · intro c'' hc''
        obtain rfl : c' = c'' := by simpa [hstep] using hc''
        exact hwf
      · rw [hopen, hstep]
        exact h.order
      · rw [hopen, hstep]
        exact h.queued
      · rw [hstep]
        intro herror
        obtain ⟨sofar, hsofar, hpartial⟩ := h.stream herror
        have hfull : sofar ++ c.rest = recordFrame c.segs := by simpa [Partial, hcurrent] using hpartial
        refine ⟨sofar ++ took, by rw [← List.append_assoc, ← hsofar], ?_⟩
        show sofar ++ took ++ c'.rest = recordFrame c'.segs
        rw [List.append_assoc, hrest, hfull, hsegs]

theorem fail (h : Sound calls w) (e : Errno) : Sound calls (w.step (.fail e)) := by
  cases hcurrent : w.current with
  | none =>
    have hstep : w.step (.fail e) = w := by simp [step, hcurrent]
    rwa [hstep]
  | some c =>
    have hstep : w.step (.fail e) = w.finish ⟨c.segs, some e⟩ := by simp only [step, hcurrent]
    rw [hstep]
    exact h.finish hcurrent nofun

theorem run (h : Sound calls w) (events : List WriteEvent) :
    Sound (calls ++ writeCalls events) (writing.run w events) := by
  induction events generalizing calls w with
  | nil => simpa [writeCalls] using h
  | cons ev events ih =>
    cases ev with
    | call segs =>
      have hnext := ih (h.call segs)
      rwa [List.append_assoc] at hnext
    | sent n => exact ih (h.sent n)
    | again => exact ih h
    | fail e => exact ih (h.fail e)

end Sound

/-- The bytes that the open calls have still to send. -/
def unsent (w : RecordWriter) : Nat :=
  ((w.current.map fun c => c.rest.length).getD 0) + (w.waiting.map fun segs => (recordFrame segs).length).sum

theorem unsent_sent {calls : List (List Bytes)} {w : RecordWriter} (h : Sound calls w) (hbusy : w.current ≠ none)
    (n : Nat) : (w.step (.sent n)).unsent < w.unsent := by
  obtain ⟨c, hc⟩ := Option.ne_none_iff_exists'.1 hbusy
  obtain ⟨hsome, hnext⟩ := Sending.accept_spec (h.current c hc) n
  have hpos := List.length_pos_of_ne_nil hsome
  simp only [step, hc]
  generalize c.accept n = took at hpos hnext ⊢
  obtain ⟨took, _ | c'⟩ := took
  · have htook : took = c.rest := hnext
    subst htook
    cases hwaiting : w.waiting with
    | nil => simpa [unsent, RecordWriter.finish, hc, hwaiting] using hpos
    | cons segs waiting =>
      simp only [unsent, RecordWriter.finish, hc, hwaiting, List.head?_cons, Option.map_some, Option.getD_some,
        (Sending.start_spec w.tls segs).2.2, List.tail_cons, List.map_cons, List.sum_cons] at hpos ⊢
      omega
  · obtain ⟨-, -, hrest⟩ := hnext
    have hlen := congrArg List.length hrest
    simp only [List.length_append] at hlen
    simp only [unsent, hc, Option.map_some, Option.getD_some] at hpos ⊢
    omega

theorem unsent_drained {calls : List (List Bytes)} {w : RecordWriter} (h : Sound calls w) {ns : List Nat}
    (hns : w.unsent ≤ ns.length) : (writing.run w (ns.map .sent)).open_ = [] := by
  have idle {w : RecordWriter} (h : Sound calls w) (hnone : w.current = none) : w.open_ = [] := by
    simp [open_, hnone, h.idle hnone]
  induction ns generalizing w with
  | nil =>
    refine idle h ?_
    show w.current = none
    by_contra hbusy
    obtain ⟨c, hc⟩ := Option.ne_none_iff_exists'.1 hbusy
    have hpos := List.length_pos_of_ne_nil (h.current c hc).rest_ne_nil
    have hzero : w.unsent = 0 := Nat.le_zero.1 hns
    simp only [unsent, hc, Option.map_some, Option.getD_some] at hzero
    omega
  | cons n ns ih =>
    by_cases hbusy : w.current = none
    · have hsame : w.step (.sent n) = w := by simp [step, hbusy]
      have hzero : w.unsent = 0 := by simp [unsent, hbusy, h.idle hbusy]
      show (writing.run (w.step (.sent n)) (ns.map .sent)).open_ = []
      rw [hsame]
      exact ih h (by omega)
    · have hless := unsent_sent h hbusy n
      have hns : w.unsent ≤ ns.length + 1 := hns
      exact ih (h.sent n) (show (w.step (.sent n)).unsent ≤ ns.length by omega)

end RecordWriter

/-! ### Both sides -/

theorem written_wire {maxFragment maxRecord : Nat} {records : List (List Bytes)}
    (hsmall : ∀ segs ∈ records, segs.flatten.length < 2 ^ 31 ∧ segs.flatten.length ≤ maxFragment ∧
      segs.flatten.length ≤ maxRecord) :
    ∃ wired : List WireRecord, (∀ r ∈ wired, r.Legal maxFragment maxRecord) ∧ wired.length = records.length ∧
      wired.flatMap WireRecord.wire = records.flatMap recordFrame ∧
      wired.map WireRecord.body = records.map List.flatten := by
  induction records with
  | nil => exact ⟨[], nofun, rfl, rfl, rfl⟩
  | cons segs records ih =>
    obtain ⟨wired, hlegal, hlength, hwire, hbody⟩ := ih fun segs hsegs => hsmall segs (by simp [hsegs])
    obtain ⟨hfits, hfragment, hrecord⟩ := hsmall segs (by simp)
    have hfirst : WireRecord.Legal maxFragment maxRecord ⟨[], ⟨segs.flatten, hfits⟩⟩ :=
      WireRecord.within_single.2 ⟨hfragment, by rwa [Nat.zero_add]⟩
    refine ⟨⟨[], ⟨segs.flatten, hfits⟩⟩ :: wired, List.forall_mem_cons.2 ⟨hfirst, hlegal⟩, by simp [hlength], ?_, ?_⟩
    · rw [List.flatMap_cons, List.flatMap_cons, hwire]
      rfl
    · rw [List.map_cons, List.map_cons, hbody]
      simp [WireRecord.body, WireRecord.fragments]

/-- Records within the caps are read one after the other, however they are cut into fragments and received, and nothing
behind them is touched; a record that is not is refused; and what is read was on the wire within the caps, whole. -/
structure ReadsRecords (maxFragment maxRecord : Nat) : Prop where
  exact : ∀ (records : List WireRecord) (s : RecordStream) (rest : Bytes), s.Wf →
    (∀ r ∈ records, r.Legal maxFragment maxRecord) → s.pending = records.flatMap WireRecord.wire ++ rest →
    ∃ recs s', s.readRecords maxFragment maxRecord records.length = .ok (recs, s') ∧
      recs.map Record.bytes = records.map WireRecord.body ∧ s'.pending = rest
  refused : ∀ (r : WireRecord) (s : RecordStream) (rest : Bytes), s.Wf → ¬r.Legal maxFragment maxRecord →
    s.pending = r.wire ++ rest → s.readRecord maxFragment maxRecord = .error (.errno .msgsize)
  whole : ∀ (s s' : RecordStream) (rec : Record), s.Wf → s.readRecord maxFragment maxRecord = .ok (rec, s') →
    ∃ r : WireRecord, r.Legal maxFragment maxRecord ∧ s.pending = r.wire ++ s'.pending ∧ rec.bytes = r.body

/-- Every call has its place, in order, and comes to its end with as many sends as there are bytes to go. Unless a send
failed, the stream is one frame for each call that has returned and the call at the mutex as far as it was sent, and the
records are read back from it if they are within the caps and their markers can tell their sizes. -/
structure WritesRecords (maxFragment maxRecord : Nat) (calls : List (List Bytes)) (w : RecordWriter) : Prop where
  order : w.returned.map Written.segs ++ w.open_ = calls
  ends : ∀ ns : List Nat, w.unsent ≤ ns.length → (writing.run w (ns.map .sent)).open_ = []
  stream : (∀ r ∈ w.returned, r.error = none) →
    ∃ sofar, w.stream = (w.returned.map Written.segs).flatMap recordFrame ++ sofar ∧
      (∀ c, w.current = some c → sofar ++ c.rest = recordFrame c.segs) ∧ (w.current = none → sofar = []) ∧
      ((∀ r ∈ w.returned, r.segs.flatten.length < 2 ^ 31 ∧ r.segs.flatten.length ≤ maxFragment ∧
          r.segs.flatten.length ≤ maxRecord) →
        ∀ s : RecordStream, s.Wf → s.pending = w.stream →
          ∃ recs s', s.readRecords maxFragment maxRecord w.returned.length = .ok (recs, s') ∧
            recs.map Record.bytes = w.returned.map (fun r => r.segs.flatten) ∧ s'.pending = sofar)

/-- Record marking is exact, on both sides and between them. -/
theorem record_marking_exact (maxFragment maxRecord : Nat) :
    ReadsRecords maxFragment maxRecord ∧
      ∀ (tls : Bool) (events : List WriteEvent),
        WritesRecords maxFragment maxRecord (writeCalls events) (writing.run { tls } events) := by
  refine ⟨⟨fun records s rest hs hlegal h => ?_, fun r s rest hs hover h => ?_, fun s s' rec hs h => ?_⟩, ?_⟩
  · obtain ⟨recs, s', hread, hbytes, hpending, -⟩ := RecordStream.readRecords_wire hlegal hs h
    exact ⟨recs, s', hread, hbytes, hpending⟩
  · exact (RecordStream.readFragments_wire maxFragment maxRecord r hs h _ {}).2 hover
  · obtain ⟨r, hlegal, hpending, hbytes, -⟩ := RecordStream.readFragments_ok hs h
    exact ⟨r, hlegal, hpending, hbytes⟩
  · intro tls events
    have hsound : RecordWriter.Sound (writeCalls events) (writing.run { tls } events) :=
      (RecordWriter.sound_init tls).run events
    generalize writing.run { tls } events = w at hsound
    refine ⟨hsound.order, fun ns hns => RecordWriter.unsent_drained hsound hns, fun hok => ?_⟩
    obtain ⟨sofar, hstream, hpartial⟩ := hsound.stream hok
    refine ⟨sofar, hstream, fun c hc => ?_, fun hnone => ?_, fun hsmall s hs h => ?_⟩
    · simpa [RecordWriter.Partial, hc] using hpartial
    · simpa [RecordWriter.Partial, hnone] using hpartial
    · obtain ⟨wired, hlegal, hlength, hwire, hbody⟩ :=
        @written_wire maxFragment maxRecord (w.returned.map Written.segs) (by simpa using hsmall)
      rw [hstream, ← hwire] at h
      obtain ⟨recs, s', hread, hbytes, hpending, -⟩ := RecordStream.readRecords_wire hlegal hs h
      rw [hlength, List.length_map] at hread
      exact ⟨recs, s', hread, by rw [hbytes, hbody, List.map_map]; rfl, hpending⟩

/-- A record in two fragments, received in three pieces with an interrupted call between, and a byte of the next one. -/
theorem record_marking_exact_pieces :
    ∃ recs s', RecordStream.readRecords 8 8 1
        { socket := [.data 0 [0, 0], .data 1 [9, 128, 0], .again, .data 0 [1, 7, 128]], session := [] } =
      .ok (recs, s') ∧ recs.map Record.bytes = [[9, 7]] ∧ s'.pending = [128] := by
  have hlegal : WireRecord.Legal 8 8 ⟨[⟨[9], by decide⟩], ⟨[7], by decide⟩⟩ :=
    ⟨by decide, by simp [WireRecord.fragments], by decide⟩
  exact (record_marking_exact 8 8).1.exact [⟨[⟨[9], by decide⟩], ⟨[7], by decide⟩⟩] _ [128] (by decide)
    (by simpa using hlegal) (by decide)

theorem write_whole (segs : List Bytes) :
    (writing.run { tls := false } [.call segs, .sent (3 + segs.flatten.length)]).stream = recordFrame segs := by
  have hlen := Sending.length_recordFrame segs
  have htook : (recordFrame segs).take (3 + segs.flatten.length + 1) = recordFrame segs :=
    List.take_of_length_le (by omega)
  have haccept : Sending.accept (3 + segs.flatten.length) (.socket segs 0) = (recordFrame segs, none) := by
    rw [Sending.accept, Sending.iovecs_flatten, List.drop_zero, htook, if_neg (by omega)]
  have hcall : RecordWriter.step { tls := false } (.call segs) =
      { tls := false, current := some (.socket segs 0), sendQueued := 0 + segs.flatten.length } := rfl
  show (RecordWriter.step (RecordWriter.step { tls := false } (.call segs)) (.sent _)).stream = _
  rw [hcall]
  simp only [RecordWriter.step, haccept]
  rfl

theorem marker_wraps_of {big : Bytes} (hbig : big.length = 2 ^ 31) :
    let s : RecordStream := { socket := [.data 128 (0 :: 0 :: 0 :: big)], session := [] }
    s.pending = (writing.run { tls := false } [.call [big], .sent (3 + [big].flatten.length)]).stream ∧
      ∃ rec s', s.readRecord 0xffffffff 0xffffffff = .ok (rec, s') ∧ rec.bytes = [] := by
  intro s
  have hflat : [big].flatten = big := List.flatten_singleton ..
  have hframe : recordFrame [big] = [128, 0, 0, 0] ++ big := by
    rw [recordFrame, recordMark, hflat, hbig]
    rfl
  have hpending : s.pending = [128, 0, 0, 0] ++ big := by simp [s, RecordStream.pending, arriving]
  refine ⟨by rw [write_whole, hframe, hpending], ?_⟩
  have hempty : WireRecord.Within 0xffffffff 0xffffffff RecordStream.kMaxFragments 0 ⟨[], ⟨[], by decide⟩⟩ :=
    WireRecord.within_single.2 ⟨by decide, by decide⟩
  obtain ⟨rec, s', hread, hbytes, -⟩ := (RecordStream.readFragments_wire 0xffffffff 0xffffffff _
    (show s.filled ≤ kMedium from le_rfl) hpending RecordStream.kMaxFragments {}).1 hempty
  exact ⟨rec, s', hread, hbytes⟩

/-- The marker of a record of 2 GiB tells an empty one, and that is what is read. -/
theorem marker_wraps :
    let big : Bytes := List.replicate (2 ^ 31) 1
    let s : RecordStream := { socket := [.data 128 (0 :: 0 :: 0 :: big)], session := [] }
    s.pending = (writing.run { tls := false } [.call [big], .sent (3 + [big].flatten.length)]).stream ∧
      ∃ rec s', s.readRecord 0xffffffff 0xffffffff = .ok (rec, s') ∧ rec.bytes = [] :=
  marker_wraps_of List.length_replicate

end LightNfs
