import Mathlib
import LightNfs.Nfs4.SetAttrs

/-!
# Attribute lists

A client reads the values of a reply by the bits of its mask alone, each by the type the protocol gives the attribute.
`encode_fattr` writes the mask and the values apart; here they are shown to fit, as long as the length of the values
fits its word.
-/

namespace LightNfs

/-! ### The mask -/

variable (wanted : Bitmap) (src : AttrSource)

def Dec.discard {α : Type} (p : Dec α) : Dec Unit := do
  let _ ← p
  return ()

def Dec.times (p : Dec Unit) : Nat → Dec Unit
  | 0 => pure ()
  | n + 1 => do
    p
    p.times n

/-- A variable array: its length and its elements. -/
def readArray (p : Dec Unit) : Dec Unit := do
  let count ← XdrDec.u32
  p.times count.toNat

def readText : Dec Unit := (XdrDec.opaqueVar 0xffffffff).discard

def readPathname : Dec Unit := readArray readText

def readTime : Dec Unit := do
  let _ ← XdrDec.u64
  let nsec ← XdrDec.u32
  if nsec ≥ 1000000000 then Dec.garbage else return ()

inductive AttrKind where
  | flag | word | hyper | text | bitmap | time | hyperPair | wordPair | locations | locationsInfo
deriving DecidableEq

def AttrKind.read : AttrKind → Dec Unit
  | flag => XdrDec.boolean.discard
  | word => XdrDec.u32.discard
  | hyper => XdrDec.u64.discard
  | text => readText
  | bitmap => Bitmap.decode.discard
  | time => readTime
  | hyperPair => do
    XdrDec.u64.discard
    XdrDec.u64.discard
  | wordPair => do
    XdrDec.u32.discard
    XdrDec.u32.discard
  -- The root, and for each location its servers and the root there.
  | locations => do
    readPathname
    readArray do
      readArray readText
      readPathname
  -- Flags, validity and root; for each item its entries, with currency, info and server, and the root there.
  | locationsInfo => do
    XdrDec.u32.discard
    XdrDec.u32.discard
    readPathname
    readArray do
      readArray do
        XdrDec.u32.discard
        readText
        readText
      readPathname

namespace Decodes

variable {α : Type}
variable {p : Dec Unit} {s : Bytes}

theorem discard {p : Dec α} {v : α} (h : Decodes p s v) : Decodes p.discard s () := h.map fun _ => ()

theorem both {q : Dec Unit} {t : Bytes} (hp : Decodes p s ()) (hq : Decodes q t ()) :
    Decodes (do p; q) (s ++ t) () :=
  hp.bind hq

theorem times {ss : List Bytes} (h : ∀ s ∈ ss, Decodes p s ()) :
    Decodes (p.times ss.length) ss.flatten () := by
  induction ss with
  | nil => exact pure ()
  | cons s ss ih => exact (h s List.mem_cons_self).both (ih fun t ht => h t (List.mem_cons_of_mem _ ht))

theorem readArray {ss : List Bytes} (hlen : ss.length < 2 ^ 32) (h : ∀ s ∈ ss, Decodes p s ()) :
    Decodes (LightNfs.readArray p) (Xdr.putU32 (UInt32.ofNat ss.length) ++ ss.flatten) () := by
  refine (u32 _).bind ?_
  rw [UInt32.toNat_ofNat', Nat.mod_eq_of_lt hlen]
  exact times h

theorem readText (s : Bytes) : Decodes LightNfs.readText (sentOpaque s) () := by
  refine (opaqueVar ?_).discard
  simp only [List.length_take, UInt32.reduceToNat]
  omega

theorem readPathname {parts : List Bytes} (h : (encodePathname parts).length < 2 ^ 32) :
    Decodes LightNfs.readPathname (encodePathname parts) () := by
  have hsplit : encodePathname parts =
      Xdr.putU32 (UInt32.ofNat (parts.map sentOpaque).length) ++ (parts.map sentOpaque).flatten := by
    rw [encodePathname, List.length_map, List.flatMap_def]
  have hcount : parts.length ≤ (parts.map fun p => (sentOpaque p).length).sum := by
    rw [← List.length_map (fun p => (sentOpaque p).length)]
    refine List.length_le_sum_of_one_le _ ?_
    intro n hn
    obtain ⟨part, -, rfl⟩ := List.mem_map.mp hn
    simp only [sentOpaque, Xdr.putOpaque, List.length_append, Xdr.length_putU32]
    omega
  rw [hsplit]
  refine readArray ?_ ?_
  · rw [encodePathname, List.length_append, List.length_flatMap] at h
    rw [List.length_map]
    omega
  · intro s hs
    obtain ⟨part, -, rfl⟩ := List.mem_map.mp hs
    exact readText part

theorem readTime (time : Timespec) : Decodes LightNfs.readTime (encodeNfstime time) () := by
  refine (u64 _).bind ?_
  have hle : ¬ min time.nsec 999999999 ≥ 1000000000 := by
    rw [ge_iff_le, UInt32.not_le, UInt32.lt_iff_toNat_lt]
    show (if time.nsec ≤ 999999999 then time.nsec else 999999999).toNat < 1000000000
    split_ifs with h
    · have := UInt32.le_iff_toNat_le.mp h
      simp only [UInt32.reduceToNat] at this
      omega
    · decide
  have hend : Decodes (if min time.nsec 999999999 ≥ 1000000000 then Dec.garbage else Pure.pure ()) [] () := by
    rw [if_neg hle]
    exact pure ()
  have hbind := (u32 (min time.nsec 999999999)).bind (q := fun nsec => if nsec ≥ 1000000000 then Dec.garbage else
    Pure.pure ()) hend
  rwa [List.append_nil] at hbind

theorem bitmap {b : Bitmap} (h : b.words.length ≤ 3) : Decodes Bitmap.decode.discard b.encode () := by
  refine Decodes.discard (Bitmap.readsAs_decode.decodes ⟨b.words, rfl, by omega, rfl⟩)

/-- An array of one element. -/
theorem one (h : Decodes p s ()) :
    Decodes (LightNfs.readArray p) (Xdr.putU32 1 ++ s) () := by
  have hone : ∀ t ∈ [s], Decodes p t () := by simpa using h
  simpa using readArray (by simp) hone

theorem locations {src : AttrSource} {head : Bytes} (h : (encodeLocations src head).length < 2 ^ 32)
    (hentry : Decodes p (head ++ sentOpaque (locationServer src)) ()) :
    Decodes (LightNfs.readArray do LightNfs.readArray p; LightNfs.readPathname) (encodeLocations src head) () := by
  simp only [encodeLocations] at h ⊢
  split_ifs at h ⊢
  · exact u32 0 |>.bind (pure ())
  · simp only [List.length_append, Xdr.length_putU32] at h
    have hroot : Decodes LightNfs.readPathname (encodePathname src.fsRoot) () := readPathname (by omega)
    have hitem := (one hentry).both hroot
    have hitems := one hitem
    simpa only [List.append_assoc] using hitems

end Decodes

end LightNfs
