import LightNfs.Core.PseudoFs
import LightNfs.Xdr.Enc

/-!
# File handles

The codec of `core/file_handle.cpp`: a version byte, the export id, the object id and a SipHash-2-4 tag over
them. A v3 handle is checked against the export's clients when it is decoded; a v4 handle of the pseudo tree
is not.
-/

namespace LightNfs

/-! ### SipHash -/

structure SipState where
  v0 : UInt64
  v1 : UInt64
  v2 : UInt64
  v3 : UInt64

namespace SipState

def rotl (value : UInt64) (bits : UInt64) : UInt64 := value <<< bits ||| value >>> (64 - bits)

def round (s : SipState) : SipState :=
  let v0 := s.v0 + s.v1
  let v1 := rotl s.v1 13 ^^^ v0
  let v0 := rotl v0 32
  let v2 := s.v2 + s.v3
  let v3 := rotl s.v3 16 ^^^ v2
  let v0 := v0 + v3
  let v3 := rotl v3 21 ^^^ v0
  let v2 := v2 + v1
  let v1 := rotl v1 17 ^^^ v2
  let v2 := rotl v2 32
  ⟨v0, v1, v2, v3⟩

def absorb (s : SipState) (m : UInt64) : SipState :=
  let s := ({ s with v3 := s.v3 ^^^ m }).round.round
  { s with v0 := s.v0 ^^^ m }

end SipState

/-- `read64`: a word as `memcpy` reads it. -/
def read64 (bytes : Bytes) : UInt64 := (bytes.take 8).foldr (fun b v => v <<< 8 ||| b.toUInt64) 0

/-- `FileHandleCodec` with its 16-byte key. -/
structure FileHandleCodec where
  key : Bytes

/-- `DecodedV4`; there is no export behind a handle of the pseudo tree. -/
structure DecodedV4 where
  fsid : UInt32
  oid : ObjId
  exp : Option ExportEntry

namespace FileHandleCodec

def kVersion : UInt8 := 1

variable (codec : FileHandleCodec)

def tag (bytes : Bytes) : UInt64 :=
  let k0 := read64 codec.key
  let k1 := read64 (codec.key.drop 8)
  let start : SipState :=
    ⟨0x736f6d6570736575 ^^^ k0, 0x646f72616e646f6d ^^^ k1, 0x6c7967656e657261 ^^^ k0, 0x7465646279746573 ^^^ k1⟩
  let full := bytes.length / 8
  let s := (List.range full).foldl (fun s k => s.absorb (read64 (bytes.drop (8 * k)))) start
  let last := UInt64.ofNat bytes.length <<< 56 ||| read64 (bytes.drop (8 * full))
  let s := s.absorb last
  let s := ({ s with v2 := s.v2 ^^^ 0xff }).round.round.round.round
  s.v0 ^^^ s.v1 ^^^ s.v2 ^^^ s.v3

def body (fsid : UInt32) (oid : ObjId) : Bytes := kVersion :: Xdr.putU32 fsid ++ oid.val

/-- `encode_raw`; the id 0 is the pseudo tree. -/
def encodeRaw (fsid : UInt32) (oid : ObjId) : Bytes :=
  body fsid oid ++ leBytes 8 (codec.tag (body fsid oid)).toNat

def encode (exp : ExportEntry) (oid : ObjId) : Bytes := codec.encodeRaw exp.fsid oid

def authentic (fh : Bytes) : Bool :=
  !(fh.length < 14 || fh.length > 64 || fh.headD 0 != kVersion) &&
    codec.tag (fh.take (fh.length - 8)) == read64 (fh.drop (fh.length - 8))

def fsidOf (fh : Bytes) : UInt32 := RecordStream.be32 ((fh.drop 1).take 4)

def oidOf (fh : Bytes) : Except Errno ObjId := ObjId.from ((fh.drop 5).take (fh.length - 13))

def decode (fh : Bytes) (peer : Peer) (set : ExportSet) : Except Errno (ExportEntry × ObjId) :=
  if !codec.authentic fh then .error .badHandle
  else
    match set.byFsid (fsidOf fh) with
    | none => .error .stale
    | some exp =>
      if !checkClient peer exp then .error .acces
      else
        match oidOf fh with
        | .error _ => .error .badHandle
        | .ok oid => .ok (exp, oid)

def decodeV4 (fh : Bytes) (peer : Peer) (set : ExportSet) : Except Errno DecodedV4 :=
  if !codec.authentic fh then .error .badHandle
  else
    match oidOf fh with
    | .error _ => .error .badHandle
    | .ok oid =>
      if fsidOf fh = 0 then .ok ⟨0, oid, none⟩
      else
        match set.byFsid (fsidOf fh) with
        | none => .error .stale
        | some exp => if !checkClient peer exp then .error .acces else .ok ⟨fsidOf fh, oid, some exp⟩

end FileHandleCodec

theorem leBytes_foldr (bytes : Bytes) (h : bytes.length ≤ 8) :
    let v : UInt64 := bytes.foldr (fun b v => v <<< 8 ||| b.toUInt64) 0
    v.toNat < 256 ^ bytes.length ∧ leBytes bytes.length v.toNat = bytes := by
  induction bytes with
  | nil => simp [leBytes]
  | cons b bytes ih =>
    obtain ⟨hlt, heq⟩ := ih (Nat.le_of_succ_le h)
    simp only [List.foldr_cons]
    generalize (bytes.foldr (fun b v => v <<< 8 ||| b.toUInt64) 0 : UInt64) = v at *
    have hpow : 256 ^ bytes.length ≤ 256 ^ 7 := Nat.pow_le_pow_right (by decide) (Nat.le_of_succ_le_succ h)
    have hb : b.toNat < 2 ^ 8 := b.toNat_lt
    have hval : (v <<< 8 ||| b.toUInt64).toNat = v.toNat * 256 + b.toNat := by
      rw [UInt64.toNat_or, UInt64.toNat_shiftLeft, UInt8.toNat_toUInt64, show (8 : UInt64).toNat % 64 = 8 from rfl,
        Nat.mod_eq_of_lt (by rw [Nat.shiftLeft_eq]; omega), ← Nat.shiftLeft_add_eq_or_of_lt hb, Nat.shiftLeft_eq]
    rw [hval, List.length_cons, pow_succ]
    refine ⟨by omega, ?_⟩
    rw [leBytes, show (v.toNat * 256 + b.toNat) / 256 = v.toNat by omega, heq]
    congr 1
    rw [← UInt8.toNat_inj, UInt8.toNat_ofNat']
    omega

theorem leBytes_read64 {bytes : Bytes} (h : bytes.length = 8) : leBytes 8 (read64 bytes).toNat = bytes := by
  have hall := (leBytes_foldr bytes h.le).2
  rw [h] at hall
  rw [read64, List.take_of_length_le h.le, hall]

theorem read64_leBytes (v : UInt64) : read64 (leBytes 8 v.toNat) = v :=
  UInt64.toNat_inj.mp <|
    leBytes_injective (UInt64.toNat_lt _) v.toNat_lt (leBytes_read64 (length_leBytes 8 v.toNat))

/-! ### Accepted and issued handles -/

namespace FileHandleCodec

variable {codec : FileHandleCodec} {fh : Bytes} {fsid : UInt32} {oid : ObjId}

/-- A handle that is long enough is cut into version, export id, object id and tag. -/
theorem exists_fields (h : 13 ≤ fh.length) :
    ∃ v word mid auth, fh = v :: word ++ mid ++ auth ∧ word.length = 4 ∧ auth.length = 8 := by
  obtain ⟨v, rest, rfl⟩ := List.exists_cons_of_length_pos (Nat.lt_of_lt_of_le (by decide) h)
  refine ⟨v, rest.take 4, (rest.drop 4).take (rest.length - 12), (rest.drop 4).drop (rest.length - 12), ?_, ?_, ?_⟩
  · rw [List.append_assoc, List.take_append_drop, List.cons_append, List.take_append_drop]
  all_goals
    simp only [List.length_cons, List.length_take, List.length_drop] at h ⊢
    omega

section Fields

variable {v : UInt8} {word mid auth : Bytes} (hword : word.length = 4) (hauth : auth.length = 8)

include hword

theorem fsidOf_fields : fsidOf (v :: word ++ mid ++ auth) = RecordStream.be32 word := by
  simp [fsidOf, ← hword]

include hauth

theorem oidOf_fields : oidOf (v :: word ++ mid ++ auth) = ObjId.from mid := by
  have hlen : (v :: word ++ mid ++ auth).length - 13 = mid.length := by
    simp [hword, hauth]
    omega
  rw [oidOf, hlen]
  simp [← hword]

theorem authentic_fields : codec.authentic (v :: word ++ mid ++ auth) = true ↔
    (mid.length ≠ 0 ∧ mid.length ≤ 51) ∧ v = kVersion ∧ codec.tag (v :: word ++ mid) = read64 auth := by
  have hlen : (v :: word ++ mid ++ auth).length = mid.length + 13 := by
    simp [hword, hauth]
    omega
  have hbody : (v :: word ++ mid).length = mid.length + 13 - 8 := by
    simp [hword]
    omega
  rw [authentic, hlen, ← hbody, List.take_left, List.drop_left]
  simp only [List.cons_append, List.headD_cons, Bool.and_eq_true, Bool.not_eq_true', Bool.or_eq_false_iff,
    decide_eq_false_iff_not, bne_eq_false_iff_eq, beq_iff_eq]
  rw [show ¬mid.length + 13 < 14 ↔ mid.length ≠ 0 by omega, show ¬mid.length + 13 > 64 ↔ mid.length ≤ 51 by omega,
    and_assoc]

end Fields

theorem from_ok {bytes : Bytes} : ObjId.from bytes = .ok oid ↔ bytes = oid.val ∧ oid.val ≠ [] := by
  have hle := oid.property
  unfold ObjId.from
  grind

/-- The handles that pass are those the codec writes. -/
theorem issued_iff : codec.authentic fh = true ∧ fsidOf fh = fsid ∧ oidOf fh = .ok oid ↔
    fh = codec.encodeRaw fsid oid ∧ oid.val ≠ [] := by
  constructor
  · rintro ⟨hauth, rfl, hoid⟩
    have hlen : 13 ≤ fh.length := by
      by_contra hshort
      simp [authentic, show fh.length < 14 by omega] at hauth
    obtain ⟨v, word, mid, auth, rfl, hword, hlast⟩ := exists_fields hlen
    rw [oidOf_fields hword hlast, from_ok] at hoid
    obtain ⟨rfl, hne⟩ := hoid
    obtain ⟨-, rfl, htag⟩ := (authentic_fields hword hlast).mp hauth
    rw [fsidOf_fields hword, encodeRaw, body, Xdr.putU32_be32 hword, htag, leBytes_read64 hlast]
    exact ⟨rfl, hne⟩
  · rintro ⟨rfl, hne⟩
    have hword : (Xdr.putU32 fsid).length = 4 := rfl
    have hlast := length_leBytes 8 (codec.tag (body fsid oid)).toNat
    rw [encodeRaw, body] at *
    rw [fsidOf_fields hword, oidOf_fields hword hlast, authentic_fields hword hlast, read64_leBytes, from_ok]
    exact ⟨⟨⟨by simpa using hne, oid.property⟩, rfl, rfl⟩, Xdr.be32_putU32 fsid, rfl, hne⟩

/-- Both decoders accept a handle for an object exactly if it is the one the codec writes for it, the export is
there and the client may use it; the pseudo tree is open to v4 clients only. -/
theorem accepted_iff_issued (codec : FileHandleCodec) (fh : Bytes) (peer : Peer) (set : ExportSet) :
    (∀ exp oid, codec.decode fh peer set = .ok (exp, oid) ↔ (fh = codec.encode exp oid ∧ oid.val ≠ []) ∧
      set.byFsid exp.fsid = some exp ∧ checkClient peer exp = true) ∧
    ∀ d, codec.decodeV4 fh peer set = .ok d ↔ (fh = codec.encodeRaw d.fsid d.oid ∧ d.oid.val ≠ []) ∧
      if d.fsid = 0 then d.exp = none
      else ∃ exp, d.exp = some exp ∧ set.byFsid d.fsid = some exp ∧ checkClient peer exp = true := by
  refine ⟨fun exp oid => ?_, fun d => ?_⟩
  · have hfsid : ∀ fsid, set.byFsid fsid = some exp → exp.fsid = fsid := fun fsid h => by simpa using List.find?_some h
    rw [encode, ← issued_iff, decode]
    grind
  · obtain ⟨fsid, oid, exp⟩ := d
    rw [← issued_iff, decodeV4]
    grind

end FileHandleCodec

end LightNfs
