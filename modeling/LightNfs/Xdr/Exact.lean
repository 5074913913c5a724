import Mathlib
import LightNfs.Xdr.Decoder

/-!
# Decoder calls that read exactly a set of encodings

`Decodes` says that an encoding is read back. Here is the other half: what a call accepted was an encoding of its
result. `ReadsAs p R` has both, with `R s v` for "the bytes `s` encode `v`", and composes as the calls do. The padding
of an opaque is skipped unread, so any bytes may stand there.
-/

namespace LightNfs

/-- The call accepts what the relation has as encodings, with the value it has, and nothing else. -/
structure ReadsAs {α : Type} (p : Dec α) (R : Bytes → α → Prop) : Prop where
  decodes : ∀ {s v}, R s v → Decodes p s v
  accepted : ∀ {d b v d'}, Stands d b → p d = (some v, d') → ∃ s rest, b = s ++ rest ∧ R s v ∧ Stands d' rest

namespace ReadsAs

variable {α β : Type}
variable {p : Dec α} {R : Bytes → α → Prop}

theorem congr {S : Bytes → α → Prop} (h : ReadsAs p R) (same : ∀ s v, R s v ↔ S s v) : ReadsAs p S := by
  have heq : R = S := by
    funext s v
    exact propext (same s v)
  exact heq ▸ h

theorem pure (a : α) : ReadsAs (Pure.pure a : Dec α) fun s v => s = [] ∧ v = a where
  decodes := by
    rintro s v ⟨rfl, rfl⟩
    exact Decodes.pure v
  accepted := by
    intro d b v d' h eq
    cases eq
    exact ⟨[], b, rfl, ⟨rfl, rfl⟩, h⟩

theorem garbage : ReadsAs (Dec.garbage : Dec α) fun _ _ => False where
  decodes := fun h => h.elim
  accepted := by
    intro d b v d' _ eq
    cases eq

theorem bind {q : α → Dec β} {S : α → Bytes → β → Prop} (hp : ReadsAs p R)
    (hq : ∀ a, ReadsAs (q a) (S a)) :
    ReadsAs (p >>= q) fun s v => ∃ a front back, s = front ++ back ∧ R front a ∧ S a back v where
  decodes := by
    rintro s v ⟨a, front, back, rfl, hfront, hback⟩
    exact (hp.decodes hfront).bind ((hq a).decodes hback)
  accepted := by
    intro d b v d' h eq
    cases hfirst : p d with
    | mk result between =>
      cases result with
      | none =>
        simp only [Bind.bind, hfirst] at eq
        cases eq
      | some a =>
        simp only [Bind.bind, hfirst] at eq
        obtain ⟨front, middle, rfl, hfront, hmiddle⟩ := hp.accepted h hfirst
        obtain ⟨back, rest, rfl, hback, hrest⟩ := (hq a).accepted hmiddle eq
        exact ⟨front ++ back, rest, (List.append_assoc _ _ _).symm, ⟨a, front, back, rfl, hfront, hback⟩, hrest⟩

theorem map (hp : ReadsAs p R) (f : α → β) :
    ReadsAs (do return f (← p)) fun s v => ∃ a, R s a ∧ v = f a := by
  refine (hp.bind fun a => pure (f a)).congr fun s v => ?_
  constructor
  · rintro ⟨a, front, back, rfl, hfront, rfl, rfl⟩
    exact ⟨a, by simpa using hfront, rfl⟩
  · rintro ⟨a, hs, rfl⟩
    exact ⟨a, s, [], by simp, hs, rfl, rfl⟩

theorem ite {c : Prop} [Decidable c] {q : Dec α} {S : Bytes → α → Prop} (hp : ReadsAs p R) (hq : ReadsAs q S) :
    ReadsAs (if c then p else q) fun s v => if c then R s v else S s v := by
  split_ifs
  · exact hp
  · exact hq

/-- A test that refuses, or goes on with the call. -/
theorem guarded {c : Prop} [Decidable c] (hp : ReadsAs p R) :
    ReadsAs (if c then Dec.garbage else p) fun s v => ¬ c ∧ R s v := by
  split_ifs with hc
  · exact garbage.congr fun s v => by simp [hc]
  · exact hp.congr fun s v => by simp [hc]

theorem take (n : Nat) : ReadsAs (XdrDec.take n) fun s v => s = v ∧ v.length = n where
  decodes := by
    rintro s v ⟨rfl, rfl⟩
    exact Decodes.take s
  accepted := by
    intro d b v d' h eq
    have hspec := take_spec h n
    split_ifs at hspec with hn
    · obtain ⟨hvalue, hstands⟩ := hspec
      rw [eq] at hvalue hstands
      cases hvalue
      exact ⟨b.take n, b.drop n, (List.take_append_drop n b).symm, ⟨rfl, by simpa using hn⟩, hstands⟩
    · rw [hspec] at eq
      cases eq

theorem skip (n : Nat) : ReadsAs (XdrDec.skip n) fun s _ => s.length = n := by
  unfold XdrDec.skip
  split_ifs with hzero
  · refine (pure ()).congr fun s v => ?_
    rw [hzero]
    simp
  · refine ((take n).map fun _ => ()).congr fun s v => ?_
    constructor
    · rintro ⟨a, ⟨rfl, hlen⟩, -⟩
      exact hlen
    · intro hlen
      exact ⟨s, ⟨rfl, hlen⟩, rfl⟩

theorem u32 : ReadsAs XdrDec.u32 fun s v => s = Xdr.putU32 v := by
  refine ((take 4).map RecordStream.be32).congr fun s v => ?_
  constructor
  · rintro ⟨a, ⟨rfl, hlen⟩, rfl⟩
    exact (Xdr.putU32_be32 hlen).symm
  · rintro rfl
    exact ⟨_, ⟨rfl, rfl⟩, (Xdr.be32_putU32 v).symm⟩

/-- Eight bytes are the encoding of a word. -/
theorem exists_putU64 {s : Bytes} (h : s.length = 8) : ∃ v, s = Xdr.putU64 v := by
  have hfront : Xdr.putU32 (RecordStream.be32 (s.take 4)) = s.take 4 := Xdr.putU32_be32 (by simp [h])
  have hback : Xdr.putU32 (RecordStream.be32 (s.drop 4)) = s.drop 4 := Xdr.putU32_be32 (by simp [h])
  set high := RecordStream.be32 (s.take 4)
  set low := RecordStream.be32 (s.drop 4)
  refine ⟨high.toUInt64 * 4294967296 + low.toUInt64, ?_⟩
  have hhigh := high.toNat_lt
  have hlow := low.toNat_lt
  have hword : (high.toUInt64 * 4294967296 + low.toUInt64).toNat = high.toNat * 4294967296 + low.toNat := by
    simp only [UInt64.toNat_add, UInt64.toNat_mul, UInt32.toNat_toUInt64, UInt64.reduceToNat]
    omega
  have hupper : ((high.toUInt64 * 4294967296 + low.toUInt64) >>> 32).toUInt32 = high := by
    apply UInt32.toNat_inj.mp
    rw [UInt64.toNat_toUInt32, UInt64.toNat_shiftRight, hword]
    simp only [UInt64.reduceToNat, Nat.reduceMod, Nat.shiftRight_eq_div_pow]
    omega
  have hlower : (high.toUInt64 * 4294967296 + low.toUInt64).toUInt32 = low := by
    apply UInt32.toNat_inj.mp
    rw [UInt64.toNat_toUInt32, hword]
    omega
  rw [Xdr.putU64, hupper, hlower, hfront, hback, List.take_append_drop]

theorem u64 : ReadsAs XdrDec.u64 fun s v => s = Xdr.putU64 v := by
  refine ((take 8).map XdrDec.be64).congr fun s v => ?_
  constructor
  · rintro ⟨a, ⟨rfl, hlen⟩, rfl⟩
    obtain ⟨word, rfl⟩ := exists_putU64 hlen
    rw [be64_putU64]
  · rintro rfl
    exact ⟨_, ⟨rfl, rfl⟩, (be64_putU64 v).symm⟩

/-- The bytes of an opaque after its length: the padding may be anything. -/
theorem opaqueFixed (n : UInt32) :
    ReadsAs (XdrDec.opaqueFixed n) fun s v => ∃ pad, s = v ++ pad ∧ v.length = n.toNat ∧
      pad.length = Xdr.pad4 v.length := by
  refine ((take n.toNat).bind fun a => (skip (Xdr.pad4 n.toNat)).map fun _ => a).congr fun s v => ?_
  constructor
  · rintro ⟨a, front, pad, rfl, ⟨rfl, hlen⟩, _, hpad, rfl⟩
    exact ⟨pad, rfl, hlen, hlen ▸ hpad⟩
  · rintro ⟨pad, rfl, hlen, hpad⟩
    exact ⟨v, v, pad, rfl, ⟨rfl, hlen⟩, (), by rw [hpad, hlen], rfl⟩

def IsOpaque (max : UInt32) (s v : Bytes) : Prop :=
  ∃ pad, s = Xdr.putU32 (UInt32.ofNat v.length) ++ v ++ pad ∧ v.length ≤ max.toNat ∧ pad.length = Xdr.pad4 v.length

theorem opaqueVar (max : UInt32) : ReadsAs (XdrDec.opaqueVar max) (IsOpaque max) := by
  refine (u32.bind fun len => (opaqueFixed len).guarded).congr fun s v => ?_
  constructor
  · rintro ⟨len, front, back, rfl, rfl, hle, pad, rfl, hlen, hpad⟩
    refine ⟨pad, ?_, ?_, hpad⟩
    · rw [hlen, UInt32.ofNat_toNat, List.append_assoc]
    · rw [hlen]
      exact UInt32.le_iff_toNat_le.mp (UInt32.not_lt.mp hle)
  · rintro ⟨pad, rfl, hle, hpad⟩
    have hmax := max.toNat_lt
    have hlen : (UInt32.ofNat v.length).toNat = v.length := by
      rw [UInt32.toNat_ofNat']
      exact Nat.mod_eq_of_lt (by omega)
    refine ⟨UInt32.ofNat v.length, _, v ++ pad, by rw [List.append_assoc], rfl, ?_, pad, rfl, hlen.symm, hpad⟩
    rw [gt_iff_lt, UInt32.lt_iff_toNat_lt, hlen]
    omega

end ReadsAs

end LightNfs
