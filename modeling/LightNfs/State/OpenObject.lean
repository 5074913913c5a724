import LightNfs.Lib.Linearize
import LightNfs.State.Registry

/-!
# The live opens as a sequential object

What OPEN, OPEN_DOWNGRADE and CLOSE are for: a table of opens, each under a client, a file and an open owner, that
one call at a time creates, merges, narrows or removes. Besides the calls, a client may be retired, which takes all
its opens away, and a single open may be removed by a release or by the reclaim of its client's states.
-/

namespace LightNfs

structure OpenEntry where
  clientid : UInt64
  file : FileKey
  owner : Bytes
  other : StateOther
  access : ShareBits
  deny : ShareBits
  seqid : UInt32

abbrev OpenTable := StateRef → Option OpenEntry

inductive OpenCall where
  | open (clientid : UInt64) (file : FileKey) (owner : Bytes) (access deny : ShareBits)
  | downgrade (sid : Stateid) (clientid : UInt64) (access deny : ShareBits) (expect : Option FileKey)
  | close (sid : Stateid) (clientid : UInt64) (expect : Option FileKey)

inductive OpenAct where
  | retired (clientid : UInt64)
  | removed (other : StateOther)
deriving DecidableEq

namespace OpenTable

/-- The bits fit those of every open of the file under another client or owner. -/
def Admits (t : OpenTable) (clientid : UInt64) (file : FileKey) (owner : Bytes) (access deny : ShareBits) : Prop :=
  ∀ r e, t r = some e → e.file = file → ¬(e.clientid = clientid ∧ e.owner = owner) →
    access &&& e.deny = 0 ∧ e.access &&& deny = 0

end OpenTable

/-- The entry a stateid of the client names, on the expected file and with the current seqid or 0. -/
structure OpenEntry.Quoted (e : OpenEntry) (sid : Stateid) (clientid : UInt64) (expect : Option FileKey) : Prop where
  other : e.other = sid.other
  client : e.clientid = clientid
  file : ∀ file, expect = some file → e.file = file
  seqid : sid.seqid = 0 ∨ sid.seqid = e.seqid

inductive OpenCall.Effect (t : OpenTable) : OpenCall → Answer → OpenTable → Prop
  | create {clientid : UInt64} {file : FileKey} {owner : Bytes} {access deny : ShareBits} {r : StateRef}
      {other : StateOther} (hfree : t r = none)
      (hnone : ∀ r e, t r = some e → ¬(e.clientid = clientid ∧ e.file = file ∧ e.owner = owner))
      (hadmits : t.Admits clientid file owner access deny) :
      Effect t (.open clientid file owner access deny) (.opened ⟨1, other⟩ false)
        (Function.update t r (some ⟨clientid, file, owner, other, access, deny, 1⟩))
  | merge {e : OpenEntry} {access deny : ShareBits} {r : StateRef} (he : t r = some e) (hmax : e.seqid ≠ 0xffffffff)
      (hadmits : t.Admits e.clientid e.file e.owner access deny) :
      Effect t (.open e.clientid e.file e.owner access deny) (.opened ⟨e.seqid + 1, e.other⟩ true)
        (Function.update t r
          (some { e with access := e.access ||| access, deny := e.deny ||| deny, seqid := e.seqid + 1 }))
  | downgrade {e : OpenEntry} {sid : Stateid} {clientid : UInt64} {access deny : ShareBits} {expect : Option FileKey}
      {r : StateRef} (he : t r = some e) (hquoted : e.Quoted sid clientid expect) (hmax : e.seqid ≠ 0xffffffff)
      (hnarrow : access ≠ 0 ∧ access &&& ~~~e.access = 0 ∧ deny &&& ~~~e.deny = 0) :
      Effect t (.downgrade sid clientid access deny expect) (.stateid ⟨e.seqid + 1, sid.other⟩)
        (Function.update t r (some { e with access := access, deny := deny, seqid := e.seqid + 1 }))
  | close {e : OpenEntry} {sid : Stateid} {clientid : UInt64} {expect : Option FileKey} {r : StateRef}
      (he : t r = some e) (hquoted : e.Quoted sid clientid expect) :
      Effect t (.close sid clientid expect) (.stateid ⟨e.seqid + 1, sid.other⟩) (Function.update t r none)

inductive OpenAct.Effect (t : OpenTable) : OpenAct → OpenTable → Prop
  | retired {clientid : UInt64} :
      Effect t (.retired clientid) fun r => (t r).filter fun e => e.clientid ≠ clientid
  | removed {r : StateRef} {e : OpenEntry} (he : t r = some e) : Effect t (.removed e.other) (Function.update t r none)

def openObject : Machine.SeqObject OpenTable OpenCall Answer OpenAct where
  call := OpenCall.Effect
  event := OpenAct.Effect

/-- The entry removes the open that an OPEN of the client answered with the stateid `(other, n)`: a CLOSE that quotes
0 or at least `n`, the end of the client, or a removal of the open. -/
def EndsOpen (clientid : UInt64) (other : StateOther) (n : UInt32) : Machine.Entry OpenCall Answer OpenAct → Prop
  | .call _ (.close sid _ _) _ => sid.other = other ∧ (sid.seqid = 0 ∨ n ≤ sid.seqid)
  | .event (.retired c) => c = clientid
  | .event (.removed o) => o = other
  | _ => False

def OpenTable.Names (t : OpenTable) (clientid : UInt64) (other : StateOther) (n : UInt32) : Prop :=
  ∃ r e, t r = some e ∧ e.clientid = clientid ∧ e.other = other ∧ n ≤ e.seqid

namespace OpenTable.Names

variable {t t' : OpenTable} {clientid : UInt64} {other : StateOther} {n : UInt32}

theorem update {r : StateRef} {e : OpenEntry} (h : t.Names clientid other n) {e' : OpenEntry} (he : t r = some e)
    (hclient : e'.clientid = e.clientid) (hother : e'.other = e.other) (hseqid : e.seqid ≤ e'.seqid) :
    OpenTable.Names (Function.update t r (some e')) clientid other n := by
  obtain ⟨q, d, hd, hdclient, hdother, hle⟩ := h
  by_cases hq : q = r
  · subst hq
    obtain rfl := Option.some.inj (he.symm.trans hd)
    exact ⟨q, e', by simp, hclient.trans hdclient, hother.trans hdother, UInt32.le_trans hle hseqid⟩
  · exact ⟨q, d, by rw [Function.update_of_ne hq, hd], hdclient, hdother, hle⟩

theorem erase {r : StateRef} {e : OpenEntry} (h : t.Names clientid other n) (he : t r = some e) :
    OpenTable.Names (Function.update t r none) clientid other n ∨ e.other = other ∧ n ≤ e.seqid := by
  obtain ⟨q, d, hd, hdclient, hdother, hle⟩ := h
  by_cases hq : q = r
  · subst hq
    obtain rfl := Option.some.inj (he.symm.trans hd)
    exact Or.inr ⟨hdother, hle⟩
  · exact Or.inl ⟨q, d, by rw [Function.update_of_ne hq, hd], hdclient, hdother, hle⟩

theorem step {x : Machine.Entry OpenCall Answer OpenAct} (h : t.Names clientid other n) (hx : openObject.Step t x t') :
    t'.Names clientid other n ∨ EndsOpen clientid other n x := by
  cases x with
  | call i q a =>
    cases hx with
    | @create c file owner access deny r o hfree =>
      obtain ⟨q, d, hd, hkeep⟩ := h
      have hq : q ≠ r := by
        rintro rfl
        exact absurd (hfree.symm.trans hd) (by simp)
      exact Or.inl ⟨q, d, by rw [Function.update_of_ne hq, hd], hkeep⟩
    | merge he hmax => exact Or.inl (h.update he rfl rfl (by show _ ≤ _ + 1; lia))
    | downgrade he _ hmax => exact Or.inl (h.update he rfl rfl (by show _ ≤ _ + 1; lia))
    | close he hquoted =>
      refine (h.erase he).imp_right fun hgone => ⟨hquoted.other.symm.trans hgone.1, ?_⟩
      rcases hquoted.seqid with hzero | hcurrent
      · exact Or.inl hzero
      · exact Or.inr (hcurrent.symm ▸ hgone.2)
  | event e =>
    cases hx with
    | @retired c =>
      obtain ⟨q, d, hd, hdclient, hkeep⟩ := h
      by_cases hc : c = clientid
      · exact Or.inr hc
      · refine Or.inl ⟨q, d, ?_, hdclient, hkeep⟩
        have hne : d.clientid ≠ c := fun heq => hc (heq.symm.trans hdclient)
        simp [hd, hne]
    | removed he => exact (h.erase he).imp_right fun hgone => hgone.1

theorem of_open {file : FileKey} {owner : Bytes} {access deny : ShareBits} {merged : Bool}
    (h : OpenCall.Effect t (.open clientid file owner access deny) (.opened ⟨n, other⟩ merged) t') :
    t'.Names clientid other n := by
  cases h with
  | create => exact ⟨_, _, Function.update_self .., rfl, rfl, UInt32.le_refl _⟩
  | merge => exact ⟨_, _, Function.update_self .., rfl, rfl, UInt32.le_refl _⟩

end OpenTable.Names

theorem opened_stays {t t' : OpenTable} {log log' : List (Machine.Entry OpenCall Answer OpenAct)} {i : Nat}
    {clientid : UInt64} {file : FileKey} {owner : Bytes} {access deny : ShareBits} {other : StateOther} {n : UInt32}
    {merged : Bool}
    (h : openObject.Performs t
      (log ++ Machine.Entry.call i (.open clientid file owner access deny) (.opened ⟨n, other⟩ merged) :: log') t') :
    t'.Names clientid other n ∨ ∃ x ∈ log', EndsOpen clientid other n x := by
  obtain ⟨u, -, v, hopen, hlater⟩ := Machine.SeqObject.performs_append.mp h
  have hstep : ∀ t x t', OpenTable.Names t clientid other n → openObject.Step t x t' →
      OpenTable.Names t' clientid other n ∨ EndsOpen clientid other n x := fun _ _ _ hnames hx => hnames.step hx
  exact hlater.keeps hstep (OpenTable.Names.of_open hopen)

end LightNfs
