import LightNfs.Rpc.Dispatch

/-!
# XDR encoding

What `XdrEnc` appends for each of its calls.
-/

namespace LightNfs

namespace Xdr

/-- The four bytes of a word, most significant first. -/
def putU32 (v : UInt32) : Bytes := [(v >>> 24).toUInt8, (v >>> 16).toUInt8, (v >>> 8).toUInt8, v.toUInt8]

def putU64 (v : UInt64) : Bytes := putU32 (v >>> 32).toUInt32 ++ putU32 v.toUInt32

def putBool (b : Bool) : Bytes := putU32 (if b then 1 else 0)

def putOpaqueFixed (b : Bytes) : Bytes := b ++ List.replicate (pad4 b.length) 0

def putOpaque (b : Bytes) : Bytes := putU32 (UInt32.ofNat b.length) ++ putOpaqueFixed b

@[simp] theorem length_putU32 (v : UInt32) : (putU32 v).length = 4 := rfl

@[simp] theorem length_putU64 (v : UInt64) : (putU64 v).length = 8 := rfl

@[simp] theorem length_putBool (b : Bool) : (putBool b).length = 4 := rfl

theorem be32_putU32 (v : UInt32) : RecordStream.be32 (putU32 v) = v := by
  apply UInt32.toNat_inj.mp
  have hv := v.toNat_lt
  simp only [RecordStream.be32, putU32, List.foldl_cons, List.foldl_nil, UInt32.toNat_add, UInt32.toNat_mul,
    UInt8.toNat_toUInt32, UInt32.toNat_toUInt8, UInt32.toNat_shiftRight, UInt32.reduceToNat, Nat.reduceMod,
    Nat.shiftRight_eq_div_pow]
  omega

theorem putU32_be32 {bytes : Bytes} (h : bytes.length = 4) : putU32 (RecordStream.be32 bytes) = bytes := by
  obtain ⟨a, b, c, d, rfl⟩ : ∃ a b c d, bytes = [a, b, c, d] := by
    rcases bytes with _ | ⟨a, _ | ⟨b, _ | ⟨c, _ | ⟨d, _ | ⟨e, rest⟩⟩⟩⟩⟩ <;> simp at h
    exact ⟨a, b, c, d, rfl⟩
  have ha := a.toNat_lt
  have hb := b.toNat_lt
  have hc := c.toNat_lt
  have hd := d.toNat_lt
  simp only [putU32, RecordStream.be32, List.foldl_cons, List.foldl_nil, List.cons.injEq, ← UInt8.toNat_inj,
    UInt32.toNat_toUInt8, UInt32.toNat_shiftRight, UInt32.toNat_add, UInt32.toNat_mul, UInt8.toNat_toUInt32,
    UInt32.reduceToNat, Nat.reduceMod, Nat.shiftRight_eq_div_pow]
  refine ⟨?_, ?_, ?_, ?_, trivial⟩ <;> omega

end Xdr

end LightNfs
