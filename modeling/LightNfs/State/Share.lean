import LightNfs.State.Filed

/-!
# Share reservations

OPEN arbitrates its access and deny bits against every live open of the file while it holds the file's lock.
OPEN_DOWNGRADE does not: it checks that the new bits are a subset of the record's bits before it takes the
lock, so the bits it writes may come from a check that another OPEN_DOWNGRADE has overtaken. Runs in which
each downgrade still narrows the record when it writes keep all reservations compatible.
-/

namespace LightNfs

open Function

namespace Tables

/-- Neither side accesses what the other denies. -/
def Compatible (a b : StateView) : Prop := a.access &&& b.deny = 0 ∧ b.access &&& a.deny = 0

/-- A live open of the file. -/
structure OpenOn (t : Tables) (key : FileKey) (r : StateRef) : Prop where
  allocated : r < t.stateRefs
  type : (t.states r).type = .kOpen
  key : (t.states r).key = key
  live : t.Live r

/-- Live opens of different owners on one file are compatible. -/
def SharesAgree (t : Tables) : Prop :=
  ∀ key a b, t.OpenOn key a → t.OpenOn key b →
    ¬((t.states a).client = (t.states b).client ∧ (t.states a).owner = (t.states b).owner) →
    Compatible (t.states a) (t.states b)

/-- Every live open of `t'` is one of `t`, with no more bits than it had. -/
structure Narrows (t t' : Tables) : Prop where
  openOn : ∀ key r, t'.OpenOn key r → t.OpenOn key r
  holder : ∀ key r, t'.OpenOn key r → (t'.states r).client = (t.states r).client ∧
    (t'.states r).owner = (t.states r).owner
  access : ∀ key r, t'.OpenOn key r → (t'.states r).access &&& ~~~(t.states r).access = 0
  deny : ∀ key r, t'.OpenOn key r → (t'.states r).deny &&& ~~~(t.states r).deny = 0

variable {c : ClientRef} {args : OpenArgs}

theorem Compatible.symm {a b : StateView} (h : Compatible a b) : Compatible b a := ⟨h.2, h.1⟩

theorem and_eq_zero_of_narrow {a b a' b' : ShareBits} (h : a &&& b = 0) (ha : a' &&& ~~~a = 0) (hb : b' &&& ~~~b = 0) :
    a' &&& b' = 0 := by grind

theorem or_and_eq_zero {a b c : ShareBits} (h : a &&& c = 0) (h' : b &&& c = 0) : (a ||| b) &&& c = 0 := by grind

variable {cfg : Config} {t t' : Tables}

theorem SharesAgree.narrow (h : t.SharesAgree) (hn : t.Narrows t') : t'.SharesAgree := by
  intro key a b ha hb hdiff
  rw [(hn.holder key a ha).1, (hn.holder key a ha).2, (hn.holder key b hb).1, (hn.holder key b hb).2] at hdiff
  obtain ⟨hab, hba⟩ := h key a b (hn.openOn key a ha) (hn.openOn key b hb) hdiff
  exact ⟨and_eq_zero_of_narrow hab (hn.access key a ha) (hn.deny key b hb),
    and_eq_zero_of_narrow hba (hn.access key b hb) (hn.deny key a ha)⟩

theorem Narrows.of_extends (hwf : t.Wf cfg) (he : t.Extends t') (hold : ∀ key r, t'.OpenOn key r → r < t.stateRefs)
    (hbits : ∀ r < t.stateRefs, (t'.states r).access &&& ~~~(t.states r).access = 0 ∧
      (t'.states r).deny &&& ~~~(t.states r).deny = 0) : t.Narrows t' where
  openOn key r hr := by
    have hlt := hold key r hr
    refine ⟨hlt, (he.type hlt).symm.trans hr.type, (he.key hlt).symm.trans hr.key, ?_, ?_⟩
    · rw [Bool.eq_false_iff]
      intro hclosed
      exact absurd (he.closed hlt hclosed) (by simp [hr.live.1])
    · rw [Bool.eq_false_iff]
      intro hexp
      have hexp' := he.expired _ (hwf.records r hlt).1 hexp
      rw [← he.client hlt, hr.live.2] at hexp'
      exact absurd hexp' (by simp)
  holder key r hr := ⟨he.client (hold key r hr), he.owner (hold key r hr)⟩
  access key r hr := (hbits r (hold key r hr)).1
  deny key r hr := (hbits r (hold key r hr)).2

theorem Narrows.publish (hwf : t.Wf cfg) (he : t.Extends t') {v : StateView} (hv : v.type ≠ .kOpen)
    (hstates : t'.states = update t.states t.stateRefs v) (hrefs : t'.stateRefs = t.stateRefs + 1) :
    t.Narrows t' := by
  have hne : ∀ key r, t'.OpenOn key r → r < t.stateRefs := by
    intro key r hr
    have hlt := hr.allocated
    rw [hrefs] at hlt
    have hle : r ≤ t.stateRefs := Nat.lt_succ_iff.mp hlt
    refine Nat.lt_of_le_of_ne hle fun heq => hv ?_
    rw [← hr.type, hstates, heq, update_self]
  refine .of_extends hwf he hne fun r hr => ?_
  rw [hstates, update_of_ne (Nat.ne_of_lt hr)]
  exact ⟨BitVec.and_not_self _, BitVec.and_not_self _⟩

/-! ### OPEN -/

theorem SharesAgree.except (h : t.SharesAgree) {r : StateRef}
    (hold : ∀ key a, t'.OpenOn key a → a ≠ r → t.OpenOn key a ∧ t'.states a = t.states a)
    (hr : ∀ key b, t'.OpenOn key r → t.OpenOn key b → b ≠ r →
      ¬((t'.states r).client = (t.states b).client ∧ (t'.states r).owner = (t.states b).owner) →
      Compatible (t'.states r) (t.states b)) : t'.SharesAgree := by
  intro key a b ha hb hdiff
  by_cases har : a = r
  · subst har
    by_cases hbr : b = a
    · exact absurd ⟨by rw [hbr], by rw [hbr]⟩ hdiff
    · obtain ⟨hb', heq⟩ := hold key b hb hbr
      rw [heq] at hdiff ⊢
      exact hr key b ha hb' hbr hdiff
  · obtain ⟨ha', heq⟩ := hold key a ha har
    rw [heq] at hdiff ⊢
    by_cases hbr : b = r
    · subst hbr
      exact (hr key a hb ha' har fun hsame => hdiff ⟨hsame.1.symm, hsame.2.symm⟩).symm
    · obtain ⟨hb', heq'⟩ := hold key b hb hbr
      rw [heq'] at hdiff ⊢
      exact h key a b ha' hb' hdiff

theorem Admits.compatible (h : t.Admits c args) (hfiled : t.Filed) {b : StateRef}
    (hb : t.OpenOn args.file b) (hdiff : ¬(c = (t.states b).client ∧ args.owner = (t.states b).owner)) :
    args.access &&& (t.states b).deny = 0 ∧ (t.states b).access &&& args.deny = 0 := by
  have hlisted := hfiled b hb.allocated hb.live.1
  rw [Listed, hb.key, hb.type] at hlisted
  obtain ⟨hacc, hdeny⟩ := h b hlisted hb.live fun hsame => hdiff ⟨hsame.1.symm, hsame.2.symm⟩
  rw [BitVec.and_comm] at hdeny
  exact ⟨hacc, hdeny⟩

theorem SharesAgree.openMerge (h : t.SharesAgree) (hwf : t.Wf cfg) (hfiled : t.Filed)
    {r : StateRef} (hadmits : t.Admits c args) (hr : r ∈ (t.fileAt args.file).opens) (hlive : t.Live r)
    (hclient : (t.states r).client = c) (howner : (t.states r).owner = args.owner) :
    (t.setShare r ((t.states r).access ||| args.access) ((t.states r).deny ||| args.deny)).SharesAgree := by
  obtain ⟨hlt, htype, hkey⟩ := hwf.files _ .kOpen r hr
  refine h.except (r := r) (fun key a ha hne => ?_) fun key b hrOpen hb hne hdiff => ?_
  · have heq : (t.setShare r ((t.states r).access ||| args.access) ((t.states r).deny ||| args.deny)).states a =
        t.states a := update_of_ne hne _ _
    obtain ⟨halloc, hatype, hakey, halive⟩ := ha
    rw [Live, heq] at halive
    rw [heq] at hatype hakey
    exact ⟨⟨halloc, hatype, hakey, halive⟩, heq⟩
  · simp only [setShare, setState, update_self] at hdiff ⊢
    have hfile : key = args.file := by
      rw [← hrOpen.key, ← hkey]
      simp [setShare, setState]
    subst hfile
    have hold := h args.file r b ⟨hlt, htype, hkey, hlive⟩ hb hdiff
    rw [hclient, howner] at hdiff
    have hnew := hadmits.compatible hfiled hb hdiff
    refine ⟨or_and_eq_zero hold.1 hnew.1, ?_⟩
    rw [BitVec.and_comm]
    exact or_and_eq_zero (by rw [BitVec.and_comm]; exact hold.2) (by rw [BitVec.and_comm]; exact hnew.2)

theorem SharesAgree.openNew (h : t.SharesAgree) (hfiled : t.Filed)
    (hadmits : t.Admits c args) (other : StateOther) : (t.mint.publish (openView c args other)).SharesAgree := by
  have hstates : ∀ a, (t.mint.publish (openView c args other)).states a =
      if a = t.stateRefs then openView c args other else t.states a := states_publish t.mint _
  refine h.except (r := t.stateRefs) (fun key a ha hne => ?_) fun key b hrOpen hb hne hdiff => ?_
  · have heq := (hstates a).trans (if_neg hne)
    obtain ⟨halloc, hatype, hakey, halive⟩ := ha
    rw [Live, heq] at halive
    rw [heq] at hatype hakey
    exact ⟨⟨Nat.lt_of_le_of_ne (Nat.lt_succ_iff.mp halloc) hne, hatype, hakey, halive⟩, heq⟩
  · have hfile : key = args.file := by
      rw [← hrOpen.key, hstates, if_pos rfl]
      rfl
    subst hfile
    rw [hstates, if_pos rfl] at hdiff ⊢
    exact hadmits.compatible hfiled hb hdiff

/-! ### Every frame -/

/-- A downgrade about to write bits that the record still has. -/
def StillNarrows (t : Tables) : Frame → Prop
  | .downgradeWrite r _ access deny =>
    access &&& ~~~(t.states r).access = 0 ∧ deny &&& ~~~(t.states r).deny = 0
  | _ => True

theorem SharesAgree.change (h : t.SharesAgree) (hwf : t.Wf cfg) (hfiled : t.Filed) {f : Frame}
    (hnarrow : t.StillNarrows f) (hc : Change cfg t f t') : t'.SharesAgree := by
  have he : t.Extends t' := Extends.of_change hc
  have hkeep : t'.stateRefs = t.stateRefs → (∀ r < t.stateRefs,
      (t'.states r).access = (t.states r).access ∧ (t'.states r).deny = (t.states r).deny) → t'.SharesAgree := by
    intro hrefs hbits
    refine h.narrow (.of_extends hwf he (fun key r hr => hrefs ▸ hr.allocated) fun r hr => ?_)
    rw [(hbits r hr).1, (hbits r hr).2]
    exact ⟨BitVec.and_not_self _, BitVec.and_not_self _⟩
  by_cases hrec : f.OnRecords
  · cases hc with
    | close =>
      refine hkeep rfl fun r _ => ?_
      simp only [close, setState, update_apply]
      split
      · rename_i heq
        subst heq
        exact ⟨rfl, rfl⟩
      · exact ⟨rfl, rfl⟩
    | dropFromFile =>
      refine hkeep (stateRefs_dropFromFile t _) fun r _ => ?_
      rw [states_dropFromFile]
      exact ⟨rfl, rfl⟩
    | openMerge hadmits hr hlive hclient howner => exact h.openMerge hwf hfiled hadmits hr hlive hclient howner
    | openNew hadmits => exact h.openNew hfiled hadmits _
    | grantNew => exact h.narrow (.publish hwf he (by simp [delegView]) rfl rfl)
    | lockNew => exact h.narrow (.publish hwf he (by simp [lockView]) rfl rfl)
    | downgrade =>
      refine h.narrow (.of_extends hwf he (fun key r hr => hr.allocated) fun r hr => ?_)
      simp only [setShare, setState, update_apply]
      split
      · rename_i heq
        subst heq
        exact hnarrow
      · exact ⟨BitVec.and_not_self _, BitVec.and_not_self _⟩
    | lockReuse => exact hkeep rfl fun r _ => ⟨rfl, rfl⟩
    | quiet | unlinkAgain | openRefused | grantBlocked | trackRefused => exact h
    | insert hins => cases hins <;> exact hrec.elim
    | track htrack => cases htrack <;> exact hrec.elim
    | _ => exact hrec.elim
  · have hsame := SameRecords.of_change hc hrec
    refine hkeep hsame.stateRefs fun r _ => ?_
    rw [hsame.states]
    exact ⟨rfl, rfl⟩

end Tables

/-! ### Runs -/

namespace Shared

/-- A live open record of the file: not closed, and its client not expired. -/
def LiveOpen (s : Shared) (key : FileKey) (r : StateRef) : Prop :=
  r < s.stateRefs ∧ (s.states r).type = .kOpen ∧ (s.states r).key = key ∧ s.dead r = false

instance (s : Shared) (key : FileKey) (r : StateRef) : Decidable (s.LiveOpen key r) :=
  inferInstanceAs (Decidable (_ ∧ _))

/-- Live opens of one file under different client ids or open owners do not deny each other's access. -/
def SharesCompatible (s : Shared) : Prop :=
  ∀ key a b, s.LiveOpen key a → s.LiveOpen key b →
    ((s.holder a).clientid, (s.states a).owner) ≠ ((s.holder b).clientid, (s.states b).owner) →
    (s.states a).access &&& (s.states b).deny = 0 ∧ (s.states b).access &&& (s.states a).deny = 0

theorem sharesCompatible_of_tables {s : Shared} (h : s.tables.SharesAgree) : s.SharesCompatible := by
  intro key a b ha hb hdiff
  refine h key a b ?_ ?_ fun hsame => hdiff ?_
  · exact ⟨ha.1, ha.2.1, ha.2.2.1, (not_dead_iff s a).mp ha.2.2.2⟩
  · exact ⟨hb.1, hb.2.1, hb.2.2.1, (not_dead_iff s b).mp hb.2.2.2⟩
  · have hclient : (s.states a).client = (s.states b).client := hsame.1
    rw [holder, holder, hclient]
    exact congrArg _ hsame.2

end Shared

instance (t : Tables) (f : Frame) : Decidable (t.StillNarrows f) := by
  apply @Frame.casesOn _ f <;> intros <;> dsimp only [Tables.StillNarrows] <;> infer_instance

/-- Runs in which a downgrade, when it writes, still takes bits away. -/
abbrev downgradesNarrow : Machine.Rules Shared Frame Input where
  spawn _ _ f := f.Request
  step s _ _ f := s.tables.StillNarrows f

structure ShareInv (cfg : Config) (s : Shared) (fs : List Frame) : Prop where
  live : Live cfg s fs
  filed : s.tables.Filed
  agree : s.tables.SharesAgree

theorem ShareInv.step {cfg : Config} {s : Shared} {pre post : List Frame} {f : Frame}
    (h : ShareInv cfg s (pre ++ f :: post)) (hnarrow : s.tables.StillNarrows f) (input : Input) :
    ShareInv cfg (s.exec cfg input f).1 (pre ++ ((s.exec cfg input f).2 ++ post)) where
  live := h.live.step input
  filed := h.filed.change h.live.current (Shared.exec_change s cfg input f)
  agree := h.agree.change h.live.tables h.filed hnarrow (Shared.exec_change s cfg input f)

/-- Any two live opens of a file under different owners are compatible, at every point of every run whose
downgrades narrow their record when they write. -/
theorem share_reservations_compatible (cfg : Config) (events : List (Machine.Event Frame Input))
    (hrun : downgradesNarrow.Permits (server cfg) boot events) :
    ((server cfg).run boot events).state.SharesCompatible := by
  have hboot : ShareInv cfg boot.state boot.frames :=
    { live := Live.boot cfg
      filed := fun r hr => absurd hr (Nat.not_lt_zero r)
      agree := fun _ a _ ha => absurd ha.allocated (Nat.not_lt_zero a) }
  have hinv : ShareInv cfg ((server cfg).run boot events).state ((server cfg).run boot events).frames :=
    Machine.run_invariant (fun _ _ _ h hf => ⟨h.live.spawn hf, h.filed, h.agree⟩)
      (fun _ _ _ _ input h hnarrow => h.step hnarrow input) hboot hrun
  exact Shared.sharesCompatible_of_tables hinv.agree

/-- Client A opens for reading and writing; the first check of two downgrades is then made. -/
def downgradeRaceStart (file : FileKey) : List (Machine.Event Frame Input) :=
  join 0 [65] 0x100000001 ++ join 3 [66] 0x100000002 ++
    request 6 (.openState { clientid := 0x100000001, file := file, owner := [97], access := 3, deny := 0 }) 8 ++
    request 7 (.openDowngrade ⟨1, ⟨1, 1, 1⟩⟩ 0x100000001 3 0 none) 2

/-- Client A downgrades to read only, and client B opens for reading, denying writes. -/
def downgradeRaceEnd (file : FileKey) : List (Machine.Event Frame Input) :=
  request 8 (.openDowngrade ⟨1, ⟨1, 1, 1⟩⟩ 0x100000001 1 0 none) 5 ++
    request 9 (.openState { clientid := 0x100000002, file := file, owner := [98], access := 1, deny := 2 }) 8

def raceFile : FileKey := ⟨1, ⟨[1], length_one_le⟩⟩

theorem share_reservations_compatible_two_clients :
    ((server {}).run boot (downgradeRaceStart raceFile ++ downgradeRaceEnd raceFile)).state.LiveOpen raceFile 0 ∧
      ((server {}).run boot (downgradeRaceStart raceFile ++ downgradeRaceEnd raceFile)).state.LiveOpen raceFile 1 ∧
      ((server {}).run boot (downgradeRaceStart raceFile ++ downgradeRaceEnd raceFile)).state.SharesCompatible :=
  ⟨by decide +kernel, by decide +kernel, share_reservations_compatible {} _ (by decide +kernel)⟩

/-- The downgrade that checked first writes last: A has write access again while B denies it. -/
theorem share_reservations_broken_by_late_downgrade :
    anyRun.Permits (server {}) boot
        (downgradeRaceStart raceFile ++ downgradeRaceEnd raceFile ++ List.replicate 3 (Machine.Event.step 7 ({} : Input))) ∧
      ¬((server {}).run boot
        (downgradeRaceStart raceFile ++ downgradeRaceEnd raceFile ++ List.replicate 3 (Machine.Event.step 7 ({} : Input)))).state.SharesCompatible := by
  refine ⟨by decide +kernel, fun h => ?_⟩
  have hcompat := h raceFile 0 1 (by decide +kernel) (by decide +kernel) (by decide +kernel)
  exact absurd hcompat (by decide +kernel)

end LightNfs
