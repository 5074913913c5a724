import Mathlib
import LightNfs.Nfs4.Attrs
import LightNfs.Nfs4.Status
import LightNfs.Xdr.Exact

/-!
# Settable attributes

`decode_settable_fattr` reads a bitmap and an opaque and then reads the opaque as one value for each bit. It is shown
to accept exactly the lists of settable values, with the limits the code has: at most 64 words of bitmap, owners of at
most ten digits, and padding that nobody looks at.
-/

namespace LightNfs

/-! ### The decoder -/

/-- A decoder call that answers with a status when it fails. -/
def SetDec (α : Type) : Type := XdrDec → Except Status α × XdrDec

namespace SetDec

variable {α β : Type}

instance : Monad SetDec where
  pure a := fun d => (.ok a, d)
  bind p q := fun d =>
    match p d with
    | (.ok a, d') => q a d'
    | (.error e, d') => (.error e, d')

/-- A call of `XdrDec`, with BADXDR for what it refuses. -/
def orBadxdr (p : Dec α) : SetDec α := fun d =>
  match p d with
  | (some a, d') => (.ok a, d')
  | (none, d') => (.error .badxdr, d')

def refuse (status : Status) : SetDec α := fun d => (.error status, d)

def answer (result : Except Status α) : SetDec α := fun d => (result, d)

/-- The call without the status. -/
def toDec (p : SetDec α) : Dec α := fun d => ((p d).1.toOption, (p d).2)

end SetDec

open SetDec

namespace Bitmap

/-- What word `i` of the wire adds. -/
def push (i : Nat) (out : Bitmap) (word : UInt32) : Bitmap :=
  if i < 3 then { out with words := out.words ++ [word] }
  else if word ≠ 0 then { out with beyondKnown := true }
  else out

/-- The loop of `Bitmap::decode` from word `i` on. -/
def decodeWords : Nat → Nat → Bitmap → Dec Bitmap
  | 0, _, out => pure out
  | n + 1, i, out => do
    let word ← XdrDec.u32
    decodeWords n (i + 1) (out.push i word)

def decode : Dec Bitmap := do
  let count ← XdrDec.u32
  if count > 64 then Dec.garbage else decodeWords count.toNat 0 {}

end Bitmap

def decimalValue (s : Bytes) : Nat := s.foldl (fun n c => n * 10 + (c.toNat - 48)) 0

def parseNumericOwner (s : Bytes) : Option UInt32 :=
  if s = [] ∨ s.length > 10 then none
  else if !s.all fun c => 48 ≤ c && c ≤ 57 then none
  else if decimalValue s > 0xffffffff then none
  else some (UInt32.ofNat (decimalValue s))

def readOwner : SetDec UInt32 := do
  let s ← orBadxdr (XdrDec.string 1024)
  (parseNumericOwner s).elim (refuse .badowner) pure

/-- `SET_TO_CLIENT_TIME4` with its time, or `SET_TO_SERVER_TIME4`. -/
def readTimeHow : SetDec (TimeHow × Timespec) := do
  let how ← orBadxdr XdrDec.u32
  if how > 1 then refuse .badxdr
  else if how = 1 then do
    let sec ← orBadxdr XdrDec.u64
    let nsec ← orBadxdr XdrDec.u32
    if nsec ≥ 1000000000 then refuse .inval else return (.client, { sec := sec.toInt64, nsec })
  else return (.server, {})

def readValue (bit : Nat) (out : SetAttr) : SetDec SetAttr :=
  if bit = AttrId.size then do
    let n ← orBadxdr XdrDec.u64
    return { out with size := some n }
  else if bit = AttrId.mode then do
    let n ← orBadxdr XdrDec.u32
    if n &&& ~~~0o7777 ≠ 0 then refuse .inval else return { out with mode := some n }
  else if bit = AttrId.owner ∨ bit = AttrId.ownerGroup then do
    let id ← readOwner
    return if bit = AttrId.owner then { out with uid := some id } else { out with gid := some id }
  else if bit = AttrId.timeAccessSet ∨ bit = AttrId.timeModifySet then do
    let time ← readTimeHow
    return if bit = AttrId.timeAccessSet then { out with atimeHow := time.1, atime := time.2 }
      else { out with mtimeHow := time.1, mtime := time.2 }
  else refuse .attrnotsupp

def readBits (mask : Bitmap) : List Nat → SetAttr × Bitmap → SetDec (SetAttr × Bitmap)
  | [], acc => pure acc
  | bit :: bits, acc =>
    if !mask.test bit then readBits mask bits acc
    else if !settableAttrs.test bit then
      refuse (if (supportedAttrs false).test bit then .inval else .attrnotsupp)
    else do
      let out ← readValue bit acc.1
      readBits mask bits (out, acc.2.set bit)

/-- The values, read from the opaque by a decoder of their own up to its end. -/
def readList (mask : Bitmap) (vals : Bytes) (acc : SetAttr × Bitmap) : Except Status (SetAttr × Bitmap) :=
  match readBits mask (List.range 96) acc (.ofFlat vals) with
  | (.ok acc, v) => if v.remaining = 0 then .ok acc else .error .badxdr
  | (.error e, _) => .error e

/-- `decode_settable_fattr`, from the attributes and the bits that are set before. -/
def decodeSettableFattr (out : SetAttr) (set : Bitmap) : SetDec (SetAttr × Bitmap) := do
  let mask ← orBadxdr Bitmap.decode
  let vals ← orBadxdr (XdrDec.opaqueVar 0x100000)
  if mask.beyondKnown then refuse .attrnotsupp else answer (readList mask vals (out, set))

/-! ### What it accepts -/

/-- One to ten digits that say this number. -/
def OwnerText (s : Bytes) (id : UInt32) : Prop :=
  s ≠ [] ∧ s.length ≤ 10 ∧ (∀ c ∈ s, 48 ≤ c ∧ c ≤ 57) ∧ decimalValue s = id.toNat

inductive TimeText : Bytes → TimeHow × Timespec → Prop
  | server : TimeText (Xdr.putU32 0) (.server, {})
  | client (sec : UInt64) (nsec : UInt32) (h : nsec < 1000000000) :
    TimeText (Xdr.putU32 1 ++ Xdr.putU64 sec ++ Xdr.putU32 nsec) (.client, { sec := sec.toInt64, nsec })

/-- The bytes are the value of the attribute, and this is what it sets. -/
inductive Assigns : Nat → Bytes → (SetAttr → SetAttr) → Prop
  | size (n : UInt64) : Assigns AttrId.size (Xdr.putU64 n) fun out => { out with size := some n }
  | mode (n : UInt32) (h : n.toNat ≤ 0o7777) : Assigns AttrId.mode (Xdr.putU32 n) fun out => { out with mode := some n }
  | owner {s text : Bytes} {id : UInt32} (hs : ReadsAs.IsOpaque 1024 s text) (h : OwnerText text id) :
    Assigns AttrId.owner s fun out => { out with uid := some id }
  | ownerGroup {s text : Bytes} {id : UInt32} (hs : ReadsAs.IsOpaque 1024 s text) (h : OwnerText text id) :
    Assigns AttrId.ownerGroup s fun out => { out with gid := some id }
  | atime {s : Bytes} {how : TimeHow} {time : Timespec} (h : TimeText s (how, time)) :
    Assigns AttrId.timeAccessSet s fun out => { out with atimeHow := how, atime := time }
  | mtime {s : Bytes} {how : TimeHow} {time : Timespec} (h : TimeText s (how, time)) :
    Assigns AttrId.timeModifySet s fun out => { out with mtimeHow := how, mtime := time }

/-- One value for each attribute, in order, and nothing else. -/
inductive AssignsAll : List Nat → Bytes → SetAttr → SetAttr → Prop
  | nil (out : SetAttr) : AssignsAll [] [] out out
  | cons {bit : Nat} {bits : List Nat} {s rest : Bytes} {f : SetAttr → SetAttr} {out after : SetAttr}
    (h : Assigns bit s f) (tail : AssignsAll bits rest (f out) after) : AssignsAll (bit :: bits) (s ++ rest) out after

/-- The attributes that the words name, ascending. -/
def named (words : List UInt32) : List Nat := (List.range 96).filter (Bitmap.test { words })

/-- A bitmap that names settable attributes only and an opaque with their values. -/
def SettableList (out : SetAttr) (set : Bitmap) (s : Bytes) (result : SetAttr × Bitmap) : Prop :=
  ∃ (words : List UInt32) (vals list : Bytes),
    s = Xdr.putU32 (UInt32.ofNat words.length) ++ words.flatMap Xdr.putU32 ++ list ∧
    words.length ≤ 64 ∧ (∀ word ∈ words.drop 3, word = 0) ∧ ReadsAs.IsOpaque 0x100000 list vals ∧
    (∀ bit ∈ named (words.take 3), settableAttrs.test bit) ∧
    AssignsAll (named (words.take 3)) vals out result.1 ∧ result.2 = (named (words.take 3)).foldl Bitmap.set set

/-! ### Reading without the status -/

namespace SetDec

variable {α β : Type}

theorem toDec_pure (a : α) : toDec (pure a : SetDec α) = (pure a : Dec α) := rfl

theorem toDec_bind (p : SetDec α) (q : α → SetDec β) : toDec (p >>= q) = toDec p >>= fun a => toDec (q a) := by
  funext d
  simp only [toDec, Bind.bind]
  cases h : p d with
  | mk result d' => cases result <;> rfl

theorem toDec_orBadxdr (p : Dec α) : toDec (orBadxdr p) = p := by
  funext d
  simp only [toDec, orBadxdr]
  cases h : p d with
  | mk result d' => cases result <;> rfl

theorem toDec_refuse (status : Status) : toDec (refuse status : SetDec α) = Dec.garbage := rfl

/-- A test that refuses, or goes on with the call. -/
theorem toDec_ite {c : Prop} [Decidable c] (p q : SetDec α) :
    toDec (if c then p else q) = if c then toDec p else toDec q := by
  split_ifs <;> rfl

end SetDec

theorem parseNumericOwner_iff {s : Bytes} {id : UInt32} : parseNumericOwner s = some id ↔ OwnerText s id := by
  unfold parseNumericOwner OwnerText
  split_ifs with hlen hdigits hbig
  · simp only [false_iff]
    rintro ⟨hne, hle, -⟩
    rcases hlen with hnil | hlong
    · exact hne hnil
    · omega
  · simp only [false_iff]
    rintro ⟨-, -, hall, -⟩
    simp only [Bool.not_eq_true', List.all_eq_false, Bool.and_eq_true, decide_eq_true_eq] at hdigits
    obtain ⟨c, hc, hbad⟩ := hdigits
    exact hbad (hall c hc)
  · simp only [false_iff]
    rintro ⟨-, -, -, heq⟩
    have := id.toNat_lt
    omega
  · have hall : ∀ c ∈ s, 48 ≤ c ∧ c ≤ 57 := by simpa using hdigits
    have hvalue : (UInt32.ofNat (decimalValue s)).toNat = decimalValue s := by
      rw [UInt32.toNat_ofNat']
      exact Nat.mod_eq_of_lt (by omega)
    rw [Option.some.injEq, ← UInt32.toNat_inj, hvalue]
    push Not at hlen
    exact ⟨fun h => ⟨hlen.1, hlen.2, hall, h⟩, fun h => h.2.2.2⟩

/-- No bit beyond the twelve of a mode. -/
theorem mode_bits {n : UInt32} : n &&& ~~~0o7777 = 0 ↔ n.toNat ≤ 0o7777 := by
  have hn := n.toNat_lt
  have hcut : n.toNat &&& (2 ^ 20 - 1) * 2 ^ 12 = n.toNat / 2 ^ 12 * 2 ^ 12 := by
    apply Nat.eq_of_testBit_eq
    intro i
    rw [Nat.testBit_and, Nat.testBit_mul_two_pow, Nat.testBit_mul_two_pow, Nat.testBit_two_pow_sub_one,
      Nat.testBit_div_two_pow]
    by_cases hlow : 12 ≤ i
    · rw [Nat.sub_add_cancel hlow]
      by_cases hhigh : i < 32
      · simp [hlow, show i - 12 < 20 by omega]
      · have hzero : n.toNat.testBit i = false :=
          Nat.testBit_lt_two_pow (hn.trans_le (Nat.pow_le_pow_right (by omega) (by omega)))
        simp [hzero]
    · simp [hlow]
  rw [← UInt32.toNat_inj, UInt32.toNat_and, show (~~~(0o7777 : UInt32)).toNat = (2 ^ 20 - 1) * 2 ^ 12 from rfl, hcut]
  simp only [UInt32.reduceToNat]
  omega

theorem readsAs_timeHow : ReadsAs (toDec readTimeHow) TimeText := by
  simp only [readTimeHow, toDec_bind, toDec_orBadxdr, toDec_ite, toDec_refuse, toDec_pure]
  refine (ReadsAs.u32.bind fun how => ReadsAs.guarded (.ite (.bind .u64 fun sec => .bind .u32 fun nsec =>
    .guarded (.pure _)) (.pure _))).congr fun s v => ?_
  constructor
  · rintro ⟨how, _, back, rfl, rfl, hle, hback⟩
    split_ifs at hback with hhow
    · obtain ⟨sec, _, tail, rfl, rfl, nsec, _, last, rfl, rfl, hnsec, rfl, rfl⟩ := hback
      rw [hhow, List.append_nil, ← List.append_assoc]
      exact .client sec nsec (UInt32.not_le.mp hnsec)
    · obtain ⟨rfl, rfl⟩ := hback
      have hzero : how = 0 := by
        rw [gt_iff_lt, UInt32.lt_iff_toNat_lt] at hle
        rw [← UInt32.toNat_inj] at hhow ⊢
        simp only [UInt32.reduceToNat] at hle hhow ⊢
        omega
      rw [hzero, List.append_nil]
      exact .server
  · intro h
    cases h with
    | server => exact ⟨0, _, [], by simp, rfl, by decide, by simp⟩
    | client sec nsec h =>
      refine ⟨1, _, Xdr.putU64 sec ++ Xdr.putU32 nsec, by simp, rfl, by decide, ?_⟩
      rw [if_pos rfl]
      exact ⟨sec, _, Xdr.putU32 nsec, rfl, rfl, nsec, _, [], by simp, rfl, UInt32.not_le.mpr h, rfl, rfl⟩

theorem readsAs_owner :
    ReadsAs (toDec readOwner) fun s id => ∃ text, ReadsAs.IsOpaque 1024 s text ∧ OwnerText text id := by
  have hvalue : ∀ text, ReadsAs (toDec ((parseNumericOwner text).elim (refuse .badowner) pure))
      fun s id => s = [] ∧ OwnerText text id := by
    intro text
    cases hparse : parseNumericOwner text with
    | none =>
      refine ReadsAs.garbage.congr fun s id => ⟨False.elim, ?_⟩
      rintro ⟨-, hid⟩
      rw [parseNumericOwner_iff.mpr hid] at hparse
      cases hparse
    | some id =>
      refine (ReadsAs.pure id).congr fun s v => and_congr_right fun _ => ?_
      rw [← parseNumericOwner_iff, hparse, Option.some.injEq]
      exact eq_comm
  rw [readOwner, toDec_bind, toDec_orBadxdr]
  refine ((ReadsAs.opaqueVar 1024).bind hvalue).congr fun s id => ?_
  constructor
  · rintro ⟨text, front, back, rfl, hfront, rfl, hid⟩
    exact ⟨text, by simpa using hfront, hid⟩
  · rintro ⟨text, hs, hid⟩
    exact ⟨text, s, [], by simp, hs, rfl, hid⟩

/-- The reader of one attribute accepts its values, each with what it sets. -/
theorem readsAs_value (bit : Nat) (out : SetAttr) :
    ReadsAs (toDec (readValue bit out)) fun s v => ∃ f, Assigns bit s f ∧ v = f out := by
  unfold readValue
  by_cases hsize : bit = AttrId.size
  · rw [if_pos hsize, toDec_bind, toDec_orBadxdr]
    refine (ReadsAs.u64.map fun n => { out with size := some n }).congr fun s v => ?_
    constructor
    · rintro ⟨n, rfl, rfl⟩
      exact ⟨_, hsize ▸ Assigns.size n, rfl⟩
    · rintro ⟨f, h, rfl⟩
      cases h with
      | size n => exact ⟨n, rfl, rfl⟩
      | _ => exact absurd hsize (by decide)
  rw [if_neg hsize]
  by_cases hmode : bit = AttrId.mode
  · rw [if_pos hmode]
    simp only [toDec_bind, toDec_orBadxdr, toDec_ite, toDec_refuse, toDec_pure]
    refine (ReadsAs.u32.bind fun n => ReadsAs.guarded (.pure _)).congr fun s v => ?_
    constructor
    · rintro ⟨n, _, _, rfl, rfl, hn, rfl, rfl⟩
      rw [List.append_nil]
      exact ⟨_, hmode ▸ Assigns.mode n (mode_bits.mp (not_not.mp hn)), rfl⟩
    · rintro ⟨f, h, rfl⟩
      cases h with
      | mode n hn => exact ⟨n, _, [], by simp, rfl, not_not.mpr (mode_bits.mpr hn), rfl, rfl⟩
      | _ => exact absurd hmode (by decide)
  rw [if_neg hmode]
  by_cases howner : bit = AttrId.owner ∨ bit = AttrId.ownerGroup
  · rw [if_pos howner, toDec_bind]
    refine (readsAs_owner.map fun id => if bit = AttrId.owner then { out with uid := some id }
      else { out with gid := some id }).congr fun s v => ?_
    constructor
    · rintro ⟨id, ⟨text, hs, hid⟩, rfl⟩
      rcases howner with rfl | rfl
      · exact ⟨_, .owner hs hid, rfl⟩
      · exact ⟨_, .ownerGroup hs hid, rfl⟩
    · rintro ⟨f, h, rfl⟩
      cases h with
      | owner hs hid => exact ⟨_, ⟨_, hs, hid⟩, rfl⟩
      | ownerGroup hs hid => exact ⟨_, ⟨_, hs, hid⟩, rfl⟩
      | _ => exact absurd howner (by decide)
  rw [if_neg howner]
  by_cases htime : bit = AttrId.timeAccessSet ∨ bit = AttrId.timeModifySet
  · rw [if_pos htime, toDec_bind]
    refine (readsAs_timeHow.map fun time => if bit = AttrId.timeAccessSet then
      { out with atimeHow := time.1, atime := time.2 } else { out with mtimeHow := time.1, mtime := time.2 }).congr
        fun s v => ?_
    constructor
    · rintro ⟨⟨how, time⟩, hs, rfl⟩
      rcases htime with rfl | rfl
      · exact ⟨_, .atime hs, rfl⟩
      · exact ⟨_, .mtime hs, rfl⟩
    · rintro ⟨f, h, rfl⟩
      cases h with
      | atime hs => exact ⟨_, hs, rfl⟩
      | mtime hs => exact ⟨_, hs, rfl⟩
      | _ => exact absurd htime (by decide)
  rw [if_neg htime]
  refine ReadsAs.garbage.congr fun s v => ⟨False.elim, ?_⟩
  rintro ⟨f, h, rfl⟩
  cases h with
  | size => exact hsize rfl
  | mode => exact hmode rfl
  | owner => exact howner (.inl rfl)
  | ownerGroup => exact howner (.inr rfl)
  | atime => exact htime (.inl rfl)
  | mtime => exact htime (.inr rfl)

/-- The loop accepts one value for each attribute of the mask, all of them settable. -/
theorem readsAs_bits (mask : Bitmap) (bits : List Nat) (acc : SetAttr × Bitmap) :
    ReadsAs (toDec (readBits mask bits acc)) fun s v =>
      (∀ bit ∈ bits.filter mask.test, settableAttrs.test bit) ∧ AssignsAll (bits.filter mask.test) s acc.1 v.1 ∧
        v.2 = (bits.filter mask.test).foldl Bitmap.set acc.2 := by
  induction bits generalizing acc with
  | nil =>
    obtain ⟨out, set⟩ := acc
    refine (ReadsAs.pure (out, set)).congr fun s v => ?_
    obtain ⟨after, bits⟩ := v
    constructor
    · rintro ⟨rfl, h⟩
      cases h
      exact ⟨by simp, .nil _, rfl⟩
    · rintro ⟨-, hall, rfl⟩
      cases hall
      exact ⟨rfl, rfl⟩
  | cons bit bits ih =>
    rw [readBits]
    cases hmask : mask.test bit with
    | false =>
      rw [if_pos (by rfl), List.filter_cons_of_neg (by simp [hmask])]
      exact ih acc
    | true =>
      rw [if_neg (by simp), List.filter_cons_of_pos hmask]
      cases hsettable : settableAttrs.test bit with
      | false =>
        rw [if_pos (by rfl)]
        refine ReadsAs.garbage.congr fun s v => ⟨False.elim, ?_⟩
        rintro ⟨hall, -⟩
        have := hall bit List.mem_cons_self
        rw [hsettable] at this
        cases this
      | true =>
        rw [if_neg (by simp), toDec_bind]
        refine ((readsAs_value bit acc.1).bind fun out => ih (out, acc.2.set bit)).congr fun s v => ?_
        constructor
        · rintro ⟨out, front, back, rfl, ⟨f, hf, rfl⟩, hall, hback, hset⟩
          exact ⟨List.forall_mem_cons.mpr ⟨hsettable, hall⟩, .cons hf hback, hset⟩
        · rintro ⟨hall, hassigns, hset⟩
          cases hassigns with
          | cons hf hback =>
            exact ⟨_, _, _, rfl, ⟨_, hf, rfl⟩, (List.forall_mem_cons.mp hall).2, hback, hset⟩

theorem readList_iff {mask : Bitmap} {vals : Bytes} {acc result : SetAttr × Bitmap} :
    readList mask vals acc = .ok result ↔
      (∀ bit ∈ (List.range 96).filter mask.test, settableAttrs.test bit) ∧
        AssignsAll ((List.range 96).filter mask.test) vals acc.1 result.1 ∧
        result.2 = ((List.range 96).filter mask.test).foldl Bitmap.set acc.2 := by
  have hreads := readsAs_bits mask (List.range 96) acc
  have hstart := stands_ofFlat vals
  constructor
  · intro h
    unfold readList at h
    cases hrun : readBits mask (List.range 96) acc (.ofFlat vals) with
    | mk outcome v =>
      rw [hrun] at h
      cases outcome with
      | error e => cases h
      | ok found =>
        have hsome : toDec (readBits mask (List.range 96) acc) (.ofFlat vals) = (some found, v) := by
          rw [toDec, hrun]
          rfl
        obtain ⟨s, rest, rfl, hs, hrest⟩ := hreads.accepted hstart hsome
        -- Nothing is left, so the list is what was read.
        simp only at h
        split_ifs at h with hend
        cases h
        have hnil : rest = [] := List.eq_nil_of_length_eq_zero (hrest.remaining ▸ hend)
        rw [hnil, List.append_nil]
        exact hs
  · intro h
    rw [← List.append_nil vals] at hstart
    obtain ⟨v, hrun, hrest⟩ := hreads.decodes h _ _ hstart
    rw [List.append_nil] at hrun
    unfold readList
    cases hbits : readBits mask (List.range 96) acc (.ofFlat vals) with
    | mk outcome v' =>
      rw [toDec, hbits] at hrun
      cases outcome with
      | error e => cases hrun
      | ok found =>
        cases hrun
        have hend : v'.remaining = 0 := hrest.remaining
        simp only
        rw [if_pos hend]

namespace Bitmap

/-- The words from word `i` on. -/
def pushAll : Nat → Bitmap → List UInt32 → Bitmap
  | _, out, [] => out
  | i, out, word :: words => pushAll (i + 1) (out.push i word) words

theorem pushAll_eq (i : Nat) (out : Bitmap) (words : List UInt32) :
    pushAll i out words =
      { words := out.words ++ words.take (3 - i)
        beyondKnown := out.beyondKnown || (words.drop (3 - i)).any (· ≠ 0) } := by
  induction words generalizing i out with
  | nil => simp [pushAll]
  | cons word words ih =>
    rw [pushAll, ih]
    by_cases hi : i < 3
    · have hleft : 3 - i = (3 - (i + 1)) + 1 := by omega
      simp [push, hi, hleft]
    · have hnone : 3 - i = 0 := by omega
      have hnext : 3 - (i + 1) = 0 := by omega
      rw [push, if_neg hi, hnone, hnext]
      by_cases hword : word = 0 <;> simp [hword]

theorem readsAs_words (n i : Nat) (out : Bitmap) :
    ReadsAs (decodeWords n i out) fun s v =>
      ∃ words, words.length = n ∧ s = words.flatMap Xdr.putU32 ∧ v = pushAll i out words := by
  induction n generalizing i out with
  | zero =>
    refine (ReadsAs.pure out).congr fun s v => ?_
    constructor
    · rintro ⟨rfl, rfl⟩
      exact ⟨[], rfl, rfl, rfl⟩
    · rintro ⟨words, hlen, rfl, rfl⟩
      rw [List.eq_nil_of_length_eq_zero hlen]
      exact ⟨rfl, rfl⟩
  | succ n ih =>
    rw [decodeWords]
    refine (ReadsAs.u32.bind fun word => ih (i + 1) (out.push i word)).congr fun s v => ?_
    constructor
    · rintro ⟨word, front, back, rfl, rfl, words, hlen, rfl, rfl⟩
      exact ⟨word :: words, by simp [hlen], by simp, rfl⟩
    · rintro ⟨words, hlen, rfl, rfl⟩
      cases words with
      | nil => cases hlen
      | cons word words =>
        exact ⟨word, _, words.flatMap Xdr.putU32, by simp, rfl, words, by simpa using hlen, rfl, rfl⟩

theorem readsAs_decode :
    ReadsAs decode fun s v => ∃ words : List UInt32,
      s = Xdr.putU32 (UInt32.ofNat words.length) ++ words.flatMap Xdr.putU32 ∧ words.length ≤ 64 ∧
        v = { words := words.take 3, beyondKnown := (words.drop 3).any (· ≠ 0) } := by
  refine (ReadsAs.u32.bind fun count => (readsAs_words count.toNat 0 {}).guarded).congr fun s v => ?_
  constructor
  · rintro ⟨count, front, back, rfl, rfl, hle, words, hlen, rfl, rfl⟩
    refine ⟨words, by rw [hlen, UInt32.ofNat_toNat], ?_, by simp [pushAll_eq]⟩
    rw [hlen]
    exact UInt32.le_iff_toNat_le.mp (UInt32.not_lt.mp hle)
  · rintro ⟨words, rfl, hle, rfl⟩
    have hlen : (UInt32.ofNat words.length).toNat = words.length := by
      rw [UInt32.toNat_ofNat']
      exact Nat.mod_eq_of_lt (by omega)
    refine ⟨_, _, _, rfl, rfl, ?_, words, hlen.symm, rfl, by simp [pushAll_eq]⟩
    rw [gt_iff_lt, UInt32.lt_iff_toNat_lt, hlen]
    simp only [UInt32.reduceToNat]
    omega

end Bitmap

/-- A decoder stands for one text only. -/
theorem Stands.unique {d : XdrDec} {a b : Bytes} (ha : Stands d a) (hb : Stands d b) : a = b := by
  have hsource := ha.source
  have hsource' := hb.source
  cases heq : d.source with
  | flat bytes =>
    simp only [heq] at hsource hsource'
    exact hsource.symm.trans hsource'
  | chain segs =>
    simp only [heq] at hsource hsource'
    exact hsource.2.symm.trans hsource'.2

theorem named_eq (words : List UInt32) (beyondKnown : Bool) :
    (List.range 96).filter (Bitmap.test { words, beyondKnown }) = named words := rfl

theorem readsAs_settable (out : SetAttr) (set : Bitmap) :
    ReadsAs (toDec (decodeSettableFattr out set)) (SettableList out set) := by
  have hlist : ∀ mask vals, ReadsAs (toDec (answer (readList mask vals (out, set)))) fun s v =>
      s = [] ∧ readList mask vals (out, set) = .ok v := by
    intro mask vals
    cases hread : readList mask vals (out, set) with
    | error e => exact ReadsAs.garbage.congr fun s v => by simp
    | ok found => exact (ReadsAs.pure found).congr fun s v => by simp [eq_comm]
  simp only [decodeSettableFattr, toDec_bind, toDec_orBadxdr, toDec_ite, toDec_refuse]
  refine (Bitmap.readsAs_decode.bind fun mask => (ReadsAs.opaqueVar 0x100000).bind fun vals =>
    (hlist mask vals).guarded).congr fun s v => ?_
  constructor
  · rintro ⟨mask, front, _, rfl, ⟨words, rfl, hcount, rfl⟩, vals, list, _, rfl, hopaque, hknown, rfl, hread⟩
    rw [readList_iff, named_eq] at hread
    refine ⟨words, vals, list, by simp, hcount, ?_, hopaque, hread⟩
    simpa using hknown
  · rintro ⟨words, vals, list, rfl, hcount, hknown, hopaque, hread⟩
    refine ⟨_, _, list, rfl, ⟨words, rfl, hcount, rfl⟩, vals, list, [], by simp, hopaque, ?_, rfl, ?_⟩
    · simpa using hknown
    · rw [readList_iff, named_eq]
      exact hread

/-- Where these bytes are left, the decoder answers OK with this result and leaves the rest exactly when the bytes
before the rest are a list of settable values that says so. -/
theorem settable_decoded_exactly {d : XdrDec} {bytes : Bytes} (stands : Stands d bytes) (out : SetAttr) (set : Bitmap)
    (result : SetAttr × Bitmap) (rest : Bytes) :
    (∃ d', decodeSettableFattr out set d = (.ok result, d') ∧ Stands d' rest) ↔
      ∃ s, bytes = s ++ rest ∧ SettableList out set s result := by
  have hreads := readsAs_settable out set
  constructor
  · rintro ⟨d', hrun, hrest⟩
    have hsome : toDec (decodeSettableFattr out set) d = (some result, d') := by
      rw [toDec, hrun]
      rfl
    obtain ⟨s, left, rfl, hs, hleft⟩ := hreads.accepted stands hsome
    exact ⟨s, by rw [hleft.unique hrest], hs⟩
  · rintro ⟨s, rfl, hs⟩
    obtain ⟨d', hrun, hrest⟩ := hreads.decodes hs d rest stands
    refine ⟨d', ?_, hrest⟩
    cases hresult : decodeSettableFattr out set d with
    | mk outcome after =>
      rw [toDec, hresult] at hrun
      cases outcome with
      | error e => cases hrun
      | ok found =>
        cases hrun
        rfl

/-- A mode of 0644 and a size of zero in the middle of a message. -/
theorem settable_decoded_exactly_chmod :
    let words : List UInt32 := [16, 2]
    let vals := Xdr.putU64 0 ++ Xdr.putU32 0o644
    let bytes := Xdr.putU32 2 ++ words.flatMap Xdr.putU32 ++ (Xdr.putU32 12 ++ vals)
    ∃ d', decodeSettableFattr {} {} (.ofChain [bytes, [1, 2]]) =
      (.ok ({ size := some 0, mode := some 0o644 }, { words := words }), d') ∧ Stands d' [1, 2] := by
  intro words vals bytes
  refine (settable_decoded_exactly (stands_ofChain [bytes, [1, 2]]) {} {} _ [1, 2]).mpr ⟨bytes, by simp, ?_⟩
  have hnamed : named (words.take 3) = [AttrId.size, AttrId.mode] := by decide +kernel
  refine ⟨words, vals, Xdr.putU32 12 ++ vals, rfl, by simp [words], by simp [words], ⟨[], rfl, ?_, ?_⟩, ?_, ?_, ?_⟩
  · simp [vals]
  · simp [vals, Xdr.pad4]
  · rw [hnamed]
    decide
  · rw [hnamed]
    exact .cons (.size 0) (.cons (.mode 0o644 (by decide)) (.nil _))
  · rw [hnamed]
    decide

/-- Sixty-five words of zeros name no attribute, and the empty list has every value there is to name. -/
theorem long_bitmap_refused :
    let words : List UInt32 := List.replicate 65 0
    named (words.take 3) = [] ∧ (∀ word ∈ words, word = 0) ∧
      (decodeSettableFattr {} {} (.ofFlat (Xdr.putU32 65 ++ words.flatMap Xdr.putU32 ++ Xdr.putU32 0))).1.toOption =
        none := by
  refine ⟨by decide +kernel, by simp, ?_⟩
  decide +kernel

end LightNfs
