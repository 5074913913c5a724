import LightNfs.State.Details
import LightNfs.State.Share

/-!
# Read delegations against write opens

A grant looks for write opens of other clients, and an OPEN for writing recalls the file's delegations before
it is let in; both decide under the file's lock. Two ways lead around the gate: OPEN with CLAIM_DELEG_CUR_FH is
not gated at all, although the client that claims need not be the only holder, and OPEN_DOWNGRADE writes bits it
checked before it took the lock.
-/

namespace LightNfs

namespace Tables

/-- A live delegation that nobody has asked back. -/
structure Held (t : Tables) (d : Details) (g : StateRef) : Prop where
  allocated : g < t.stateRefs
  type : (t.states g).type = .kDeleg
  live : t.Live g
  kept : d.recalled g = false

/-- No other client has a held delegation's file open for writing. -/
def Undisturbed (t : Tables) (d : Details) : Prop :=
  ∀ g r, t.Held d g → t.OpenOn (t.states g).key r → (t.states r).client ≠ (t.states g).client →
    (t.states r).access &&& kShareWrite = 0

variable {cfg : Config} {t t' : Tables} {d d' : Details}

theorem live_of_extends (hwf : t.Wf cfg) (he : t.Extends t') {r : StateRef} (hr : r < t.stateRefs) (h : t'.Live r) :
    t.Live r := by
  refine ⟨Bool.eq_false_iff.mpr fun hclosed => ?_, Bool.eq_false_iff.mpr fun hexp => ?_⟩
  · exact absurd (he.closed hr hclosed) (by simp [h.1])
  · have hexp' := he.expired _ (hwf.records r hr).1 hexp
    rw [← he.client hr, h.2] at hexp'
    cases hexp'

theorem OpenOn.of_extends (hwf : t.Wf cfg) (he : t.Extends t') {key : FileKey} {r : StateRef} (hr : r < t.stateRefs)
    (h : t'.OpenOn key r) : t.OpenOn key r :=
  ⟨hr, (he.type hr).symm.trans h.type, (he.key hr).symm.trans h.key, live_of_extends hwf he hr h.live⟩

theorem Held.of_extends (hwf : t.Wf cfg) (he : t.Extends t') (hkept : ∀ g < t.stateRefs, d.recalled g = true →
    d'.recalled g = true) {g : StateRef} (hg : g < t.stateRefs) (h : t'.Held d' g) : t.Held d g := by
  refine ⟨hg, (he.type hg).symm.trans h.type, live_of_extends hwf he hg h.live, Bool.eq_false_iff.mpr fun hrec => ?_⟩
  exact absurd (hkept g hg hrec) (by simp [h.kept])

theorem Undisturbed.of_extends (h : t.Undisturbed d) (hwf : t.Wf cfg) (he : t.Extends t')
    (hkept : ∀ g < t.stateRefs, d.recalled g = true → d'.recalled g = true) {g r : StateRef} (hg : t'.Held d' g)
    (hgold : g < t.stateRefs) (hr : t'.OpenOn (t'.states g).key r) (hrold : r < t.stateRefs)
    (hne : (t'.states r).client ≠ (t'.states g).client) : (t.states r).access &&& kShareWrite = 0 := by
  have hrOpen := hr.of_extends hwf he hrold
  rw [he.key hgold] at hrOpen
  rw [he.client hrold, he.client hgold] at hne
  exact h g r (hg.of_extends hwf he hkept hgold) hrOpen hne

theorem Undisturbed.same_records (h : t.Undisturbed d) (hwf : t.Wf cfg) (he : t.Extends t')
    (hkept : ∀ g < t.stateRefs, d.recalled g = true → d'.recalled g = true) (hrefs : t'.stateRefs = t.stateRefs)
    (haccess : ∀ r, (t'.states r).access &&& kShareWrite ≠ 0 → (t.states r).access &&& kShareWrite ≠ 0) :
    t'.Undisturbed d' := by
  intro g r hg hr hne
  have hgold : g < t.stateRefs := hrefs ▸ hg.allocated
  have hrold : r < t.stateRefs := hrefs ▸ hr.allocated
  by_contra hwrite
  exact haccess r hwrite (h.of_extends hwf he hkept hg hgold hr hrold hne)

end Tables

/-- Sections that may give an open write access or publish a delegation. -/
def Frame.Shares : Frame → Prop
  | openArbitrate _ _ _ | grantFile _ _ _ | downgradeWrite _ _ _ _ | lockFile _ => True
  | _ => False

theorem Change.access {cfg : Config} {t t' : Tables} {f : Frame} (h : Change cfg t f t') (hf : ¬f.Shares) :
    t'.stateRefs = t.stateRefs ∧ ∀ r, (t'.states r).access = (t.states r).access := by
  by_cases hrec : f.OnRecords
  · cases h with
    | close =>
      refine ⟨rfl, fun r => ?_⟩
      simp only [Tables.close, Tables.setState, Function.update_apply]
      split
      · next heq => rw [heq]
      · rfl
    | dropFromFile => exact ⟨Tables.stateRefs_dropFromFile _ _, fun r => by rw [Tables.states_dropFromFile]⟩
    | _ => first | exact ⟨rfl, fun _ => rfl⟩ | exact absurd trivial hf | exact hrec.elim
  · have hsame := Tables.SameRecords.of_change h hrec
    exact ⟨hsame.stateRefs, fun r => by rw [hsame.states]⟩

/-! ### The gate -/

namespace Shared

/-- A claim for writing finds every other client's delegation on the file under recall already, and a
downgrade writes no write access the record does not have. -/
def ClaimsAlone (s : Shared) : Frame → Prop
  | .openArbitrate c args _ => args.access &&& kShareWrite ≠ 0 → args.delegClaim = true →
      ∀ g ∈ s.liveDelegs args.file, (s.states g).client = c ∨ (s.states g).recalled = true
  | .downgradeWrite r _ access _ => access &&& kShareWrite ≠ 0 → (s.states r).access &&& kShareWrite ≠ 0
  | _ => True

instance (s : Shared) (f : Frame) : Decidable (s.ClaimsAlone f) := by
  apply @Frame.casesOn _ f <;> intros <;> dsimp only [ClaimsAlone] <;> infer_instance

variable {cfg : Config} {s : Shared}

theorem mem_liveDelegs (hfiled : s.tables.Filed) {g : StateRef} (hg : s.tables.Held s.details g) :
    g ∈ s.liveDelegs (s.states g).key := by
  have hlisted := hfiled g hg.allocated hg.live.1
  rw [Tables.Listed, hg.type] at hlisted
  have hdead := (not_dead_iff s g).mpr hg.live
  exact List.mem_filter.mpr ⟨hlisted, by simp [hdead]⟩

theorem client_of_held (hfiled : s.tables.Filed) {c : ClientRef} {args : OpenArgs} {attempt : Nat}
    (hclaim : s.ClaimsAlone (.openArbitrate c args attempt))
    (hgate : args.access &&& kShareWrite = 0 ∨ args.delegClaim = true ∨ s.liveDelegs args.file = [])
    (hwrite : args.access &&& kShareWrite ≠ 0) {g : StateRef} (hg : s.tables.Held s.details g)
    (hkey : (s.states g).key = args.file) : (s.states g).client = c := by
  have hmem := mem_liveDelegs hfiled hg
  rw [hkey] at hmem
  rcases hgate with hread | hdeleg | hnone
  · exact absurd hread hwrite
  · refine (hclaim hwrite hdeleg g hmem).resolve_right fun hrec => ?_
    have hkept : (s.states g).recalled = false := hg.kept
    rw [hrec] at hkept
    cases hkept
  · rw [hnone] at hmem
    exact absurd hmem List.not_mem_nil

end Shared

/-! ### One frame -/

namespace Tables

variable {cfg : Config} {s : Shared} {f : Frame} {t t' : Tables} {d d' : Details}

theorem Undisturbed.openMerge (h : s.tables.Undisturbed s.details) (hwf : s.tables.Wf cfg) (hfiled : s.tables.Filed)
    {c : ClientRef} {args : OpenArgs} {attempt : Nat} {r : StateRef}
    (hclaim : s.ClaimsAlone (.openArbitrate c args attempt))
    (hgate : args.access &&& kShareWrite = 0 ∨ args.delegClaim = true ∨ s.liveDelegs args.file = [])
    (hclient : (s.states r).client = c) (hr : r ∈ (s.fileAt args.file).opens) :
    (s.tables.setShare r ((s.states r).access ||| args.access) ((s.states r).deny ||| args.deny)).Undisturbed
      (s.details.bump r) := by
  have hkept : ∀ g < s.tables.stateRefs, s.details.recalled g = true → (s.details.bump r).recalled g = true :=
    fun _ _ hrec => hrec
  have he : s.tables.Extends (s.tables.setShare r ((s.states r).access ||| args.access)
      ((s.states r).deny ||| args.deny)) := .setState id
  obtain ⟨hlt, htype, hkey⟩ := hwf.files _ .kOpen r hr
  intro g r' hg hr' hne
  have hgold : g < s.tables.stateRefs := hg.allocated
  have hrold : r' < s.tables.stateRefs := hr'.allocated
  have hbefore := h.of_extends hwf he hkept hg hgold hr' hrold hne
  by_cases hsame : r' = r
  · subst hsame
    have haccess : ((s.tables.setShare r' ((s.states r').access ||| args.access)
        ((s.states r').deny ||| args.deny)).states r').access = (s.states r').access ||| args.access := by
      simp [setShare, setState]
    rw [haccess]
    refine or_and_eq_zero hbefore ?_
    by_contra hwrite
    rw [he.client hrold, he.client hgold] at hne
    have hfile : (s.states g).key = args.file := by
      have hkeys := hr'.key
      rw [he.key hrold, he.key hgold] at hkeys
      exact hkeys.symm.trans hkey
    have hown := Shared.client_of_held hfiled hclaim hgate hwrite (hg.of_extends hwf he hkept hgold) hfile
    exact hne (hclient.trans hown.symm)
  · have haccess : ((s.tables.setShare r ((s.states r).access ||| args.access)
        ((s.states r).deny ||| args.deny)).states r').access = (s.states r').access := by
      simp [setShare, setState, hsame, Shared.tables, StateRec.view]
    rw [haccess]
    exact hbefore

theorem Undisturbed.publish (h : t.Undisturbed d) (hwf : t.Wf cfg) {u : Tables} {v : StateView}
    (he : t.Extends (u.publish v)) (hstates : u.states = t.states) (hrefs : u.stateRefs = t.stateRefs)
    (hkept : ∀ g < t.stateRefs, d.recalled g = true → d'.recalled g = true)
    (hopen : v.type = .kOpen → ∀ g, t.Held d g → (t.states g).key = v.key → v.client ≠ (t.states g).client →
      v.access &&& kShareWrite = 0)
    (hdeleg : v.type = .kDeleg → ∀ r, t.OpenOn v.key r → (t.states r).client ≠ v.client →
      (t.states r).access &&& kShareWrite = 0) :
    (u.publish v).Undisturbed d' := by
  have hrec : ∀ a, (u.publish v).states a = if a = t.stateRefs then v else t.states a := fun a => by
    rw [states_publish, hstates, hrefs]
  have hold : ∀ {a}, a < (u.publish v).stateRefs → a ≠ t.stateRefs → a < t.stateRefs := fun hlt hne =>
    Nat.lt_of_le_of_ne (Nat.lt_succ_iff.mp (hrefs ▸ hlt)) hne
  intro g r hg hr hne
  by_cases hgnew : g = t.stateRefs
  · have hgrec : (u.publish v).states g = v := by rw [hrec, if_pos hgnew]
    have htype : v.type = .kDeleg := hgrec ▸ hg.type
    have hrnew : r ≠ t.stateRefs := fun heq => by
      have hropen := hr.type
      rw [hrec, if_pos heq, htype] at hropen
      cases hropen
    rw [hgrec] at hr hne
    rw [he.client (hold hr.allocated hrnew)] at hne
    rw [hrec, if_neg hrnew]
    exact hdeleg htype r (hr.of_extends hwf he (hold hr.allocated hrnew)) hne
  · have hgold := hold hg.allocated hgnew
    by_cases hrnew : r = t.stateRefs
    · have hrrec : (u.publish v).states r = v := by rw [hrec, if_pos hrnew]
      have hkey := hr.key
      rw [hrrec, he.key hgold] at hkey
      rw [hrrec, he.client hgold] at hne
      rw [hrrec]
      exact hopen (hrrec ▸ hr.type) g (hg.of_extends hwf he hkept hgold) hkey.symm hne
    · rw [hrec, if_neg hrnew]
      exact h.of_extends hwf he hkept hg hgold hr (hold hr.allocated hrnew) hne

theorem not_write_of_grantable (hfiled : s.tables.Filed) {c : ClientRef} {file : FileKey}
    (hfree : s.grantBlocked c file = false) {r : StateRef} (hr : s.tables.OpenOn file r)
    (hne : (s.states r).client ≠ c) : (s.states r).access &&& kShareWrite = 0 := by
  have hlisted := hfiled r hr.allocated hr.live.1
  rw [Listed, hr.key, hr.type] at hlisted
  have hdead := (Shared.not_dead_iff s r).mpr hr.live
  rw [Shared.grantBlocked, Bool.or_eq_false_iff, List.any_eq_false] at hfree
  by_contra hwrite
  refine hfree.1 r hlisted ?_
  simp only [hdead, Bool.not_false, Bool.true_and, Bool.and_eq_true, bne_iff_ne]
  exact ⟨hne, hwrite⟩

theorem Undisturbed.change (h : s.tables.Undisturbed s.details) (hwf : s.tables.Wf cfg) (hfiled : s.tables.Filed)
    (hclaim : s.ClaimsAlone f) (hchange : Change cfg s.tables f t') (heffect : Effect cfg s f t' d') :
    t'.Undisturbed d' := by
  have he : s.tables.Extends t' := .of_change hchange
  have hkept := heffect.recalled
  by_cases hshares : f.Shares
  · cases heffect with
    | openRefused => exact h
    | openMerge hgate hmerges =>
      obtain ⟨hr, -, hclient, -⟩ := Shared.merges_spec hmerges
      exact h.openMerge hwf hfiled hclaim hgate hclient hr
    | openNew hgate =>
      refine h.publish hwf he rfl rfl hkept (fun _ g hg hkey hne => ?_) (by simp [openView])
      by_contra hwrite
      exact hne (Shared.client_of_held hfiled hclaim hgate hwrite hg hkey).symm
    | grantBlocked => exact h
    | grantNew hfree =>
      exact h.publish hwf he rfl rfl hkept (by simp [delegView]) fun _ r hr hne => not_write_of_grantable hfiled hfree hr hne
    | @downgrade r other access deny =>
      refine h.same_records hwf he hkept rfl fun r' => ?_
      by_cases hr : r' = r
      · subst hr
        simp only [setShare, setState, Function.update_self]
        exact hclaim
      · simp only [setShare, setState, Function.update_of_ne hr]
        exact id
    | lockNew => exact h.publish hwf he rfl rfl hkept (by simp [lockView]) (by simp [lockView])
    | lockReuse => exact h.same_records hwf he hkept rfl fun _ => id
    | plain hf => cases f <;> first | exact hshares.elim | exact hf.elim
    | _ => exact hshares.elim
  · obtain ⟨hrefs, haccess⟩ := hchange.access hshares
    exact h.same_records hwf he hkept hrefs fun r => by rw [haccess]; exact id

end Tables

/-! ### Runs -/

namespace Shared

def LiveDeleg (s : Shared) (key : FileKey) (g : StateRef) : Prop :=
  g < s.stateRefs ∧ (s.states g).type = .kDeleg ∧ (s.states g).key = key ∧ s.dead g = false

instance (s : Shared) (key : FileKey) (g : StateRef) : Decidable (s.LiveDeleg key g) :=
  inferInstanceAs (Decidable (_ ∧ _))

/-- No live delegation that is not being recalled coexists with a write open of another client. -/
def DelegsExcludeWriters (s : Shared) : Prop :=
  ∀ key g r, s.LiveDeleg key g → (s.states g).recalled = false → s.LiveOpen key r →
    (s.states r).client ≠ (s.states g).client → (s.states r).access &&& kShareWrite = 0

end Shared

abbrev claimsAlone : Machine.Rules Shared Frame Input where
  spawn _ _ f := f.Request
  step s _ _ f := s.ClaimsAlone f

structure DelegShareInv (cfg : Config) (s : Shared) (fs : List Frame) : Prop where
  live : Live cfg s fs
  filed : s.tables.Filed
  undisturbed : s.tables.Undisturbed s.details

theorem DelegShareInv.step {cfg : Config} {s : Shared} {pre post : List Frame} {f : Frame}
    (h : DelegShareInv cfg s (pre ++ f :: post)) (hclaim : s.ClaimsAlone f) (input : Input) :
    DelegShareInv cfg (s.exec cfg input f).1 (pre ++ ((s.exec cfg input f).2 ++ post)) where
  live := h.live.step input
  filed := h.filed.change h.live.current (s.exec_change cfg input f)
  undisturbed := h.undisturbed.change h.live.tables h.filed hclaim (s.exec_change cfg input f) (s.exec_effect cfg input f)

/-- Read delegations exclude the write opens of other clients in every state of every run in which the two
ways around the recall gate are not used against a held delegation. -/
theorem delegations_exclude_foreign_writers (cfg : Config) (events : List (Machine.Event Frame Input))
    (hrun : claimsAlone.Permits (server cfg) boot events) :
    ((server cfg).run boot events).state.DelegsExcludeWriters := by
  have hboot : DelegShareInv cfg boot.state boot.frames :=
    { live := Live.boot cfg
      filed := fun r hr => absurd hr (Nat.not_lt_zero r)
      undisturbed := fun g _ hg => absurd hg.allocated (Nat.not_lt_zero g) }
  have hinv : DelegShareInv cfg ((server cfg).run boot events).state ((server cfg).run boot events).frames :=
    Machine.run_invariant (fun _ _ _ h hf => ⟨h.live.spawn hf, h.filed, h.undisturbed⟩)
      (fun _ _ _ _ input h hclaim => h.step hclaim input) hboot hrun
  intro key g r hg hkept hr hne
  refine hinv.undisturbed g r ⟨hg.1, hg.2.1, (Shared.not_dead_iff _ g).mp hg.2.2.2, hkept⟩ ?_ hne
  exact ⟨hr.1, hr.2.1, hr.2.2.1.trans hg.2.2.1.symm, (Shared.not_dead_iff _ r).mp hr.2.2.2⟩

/-! ### Two holders and one claim -/

/-- Clients A and B both hold a read delegation on the file. -/
def twoHolders (file : FileKey) : List (Machine.Event Frame Input) :=
  joinWithBackchannel 0 [65] 0x100000001 ++ joinWithBackchannel 3 [66] 0x100000002 ++
    request 6 (.grantReadDeleg { session := ⟨0x100000001, 1, 0⟩, file := file, fh := [], access := 1 }) 9 ++
    request 7 (.grantReadDeleg { session := ⟨0x100000002, 2, 0⟩, file := file, fh := [], access := 1 }) 9

/-- A returns its delegation before B claims its own for writing. -/
def claimAfterReturn (file : FileKey) : List (Machine.Event Frame Input) :=
  twoHolders file ++ request 8 (.delegreturn ⟨1, ⟨1, 3, 1⟩⟩ 0x100000001 file) 6 ++
    request 9 (.openDelegCur ⟨1, ⟨1, 3, 2⟩⟩
      { clientid := 0x100000002, file := file, owner := [98], access := 3, deny := 0 }) 9

theorem delegations_exclude_foreign_writers_after_return :
    let s := ((server {}).run boot (claimAfterReturn raceFile)).state
    s.LiveDeleg raceFile 1 ∧ s.LiveOpen raceFile 2 ∧ s.DelegsExcludeWriters := by
  intro s
  exact ⟨by decide +kernel, by decide +kernel,
    delegations_exclude_foreign_writers {} (claimAfterReturn raceFile) (by decide +kernel)⟩

/-- B answers a recall that never happened: its claim opens the file for writing while A's delegation is live
and nobody asks for it. -/
theorem delegation_survives_foreign_claim :
    let events := twoHolders raceFile ++ request 8 (.openDelegCur ⟨1, ⟨1, 3, 2⟩⟩
      { clientid := 0x100000002, file := raceFile, owner := [98], access := 3, deny := 0 }) 9
    anyRun.Permits (server {}) boot events ∧ ((server {}).run boot events).Quiescent ∧
      ¬((server {}).run boot events).state.DelegsExcludeWriters := by
  intro events
  refine ⟨by decide +kernel, by decide +kernel, fun h => ?_⟩
  have hread := h raceFile 0 2 (by decide +kernel) (by decide +kernel) (by decide +kernel) (by decide +kernel)
  exact absurd hread (by decide +kernel)

end LightNfs
