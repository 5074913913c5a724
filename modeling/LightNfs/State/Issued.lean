import LightNfs.State.Registry

/-!
# State ids

A state id is taken from a counter and enters a record in the same lock section, except for delegations, whose
id is taken one section earlier. No other section takes an id or makes a record.
-/

namespace LightNfs

namespace Tables

variable {cfg : Config} {t t' : Tables} {f : Frame}

/-- The sections that take a new id, or give one to a new record. -/
inductive Mints (cfg : Config) (t : Tables) : Frame → Tables → Prop
  | opened {c : ClientRef} {args : OpenArgs} {attempt : Nat} :
      Mints cfg t (.openArbitrate c args attempt) (t.mint.publish (openView c args (t.newOther cfg .kOpen)))
  | reserved {c : ClientRef} {args : GrantArgs} : Mints cfg t (.grantClient c args) t.mint
  | granted {c : ClientRef} {other : StateOther} {args : GrantArgs} :
      Mints cfg t (.grantFile c other args) (t.publish (delegView c args other))
  | locked {ctx : LockCtx} : Mints cfg t (.lockFile ctx) (t.mint.publish (lockView ctx (t.newOther cfg .kLock)))

theorem mints_of_change (hc : Change cfg t f t') :
    t'.stateRefs = t.stateRefs ∧ t'.nextState = t.nextState ∨ Mints cfg t f t' := by
  have honly : t.OnlyClients t' → t'.stateRefs = t.stateRefs ∧ t'.nextState = t.nextState := fun h =>
    ⟨h.eq_of_read _ fun _ => rfl, h.eq_of_read _ fun _ => rfl⟩
  cases hc with
  | openNew => exact Or.inr .opened
  | grantMint => exact Or.inr .reserved
  | grantNew => exact Or.inr .granted
  | lockNew => exact Or.inr .locked
  | exchangeFull hu => exact Or.inl (honly ((OnlyClients.exchanged hu).trans rfl))
  | exchangeNew hu => exact Or.inl (honly ((OnlyClients.exchanged hu).trans rfl))
  | @createFirst c =>
    have hconfirm := OnlyClients.confirmIncarnation cfg t c
    exact Or.inl ⟨hconfirm.eq_of_read Tables.stateRefs fun _ => rfl, hconfirm.eq_of_read Tables.nextState fun _ => rfl⟩
  | destroyClient | scanLapsed => exact Or.inl (honly (OnlyClients.remove cfg t _))
  | unpersist => exact Or.inl (honly (OnlyClients.unpersist cfg t _))
  | @dropFromFile r =>
    obtain ⟨files, heq⟩ := t.dropFromFile_eq r
    rw [heq]
    exact Or.inl ⟨rfl, rfl⟩
  | _ => exact Or.inl ⟨rfl, rfl⟩

end Tables

end LightNfs
