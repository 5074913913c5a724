import LightNfs.State.Issued
import LightNfs.State.OpenObject
import LightNfs.State.Seqids
import LightNfs.State.Share

/-!
# OPEN, OPEN_DOWNGRADE and CLOSE take effect one at a time

CLOSE and OPEN_DOWNGRADE check the quoted seqid in one section and act on the record in a later one; the answers
read the seqid back in yet another. A merging OPEN in between is lost: CLOSE removes the record under a seqid that is
no longer its own. When nobody acts on a record between the check and the act of another request, or between its act
and the answer, every run of the server is a run of the sequential object.
-/

namespace LightNfs

/-! ### What is observed -/

namespace Shared

def openEntry (s : Shared) (r : StateRef) : OpenEntry :=
  { clientid := (s.holder r).clientid, file := (s.states r).key, owner := (s.states r).owner
    other := (s.states r).other, access := (s.states r).access, deny := (s.states r).deny
    seqid := (s.states r).seqid }

def openTable (s : Shared) : OpenTable := fun r =>
  if r < s.stateRefs ∧ (s.states r).type = .kOpen ∧ s.dead r = false then some (s.openEntry r) else none

/-- The client whose states the frame begins to reclaim. -/
def retiree (s : Shared) : Frame → Option ClientRef
  | .expireSection c _ _ => some c
  | .createClient d args => if (s.clients d).confirmed = false ∧ s.Creates d args then s.oldIncarnation d else none
  | _ => none

end Shared

def openOf (args : OpenArgs) : OpenCall := .open args.clientid args.file args.owner args.access args.deny

/-- A client stops being live, or an open is removed by anything but a CLOSE. -/
def openAct (s : Shared) (f : Frame) (s' : Shared) : Option OpenAct :=
  match f with
  | .unlinkState r fromClient handover =>
    if fromClient = true ∧ handover = false then none else (s.openTable r).map fun e => .removed e.other
  | f => (s.retiree f).bind fun c =>
      if (s.clients c).expired = false ∧ (s'.clients c).expired = true then some (.retired (s.clients c).clientid)
      else none

def openObserver : Machine.Observer Shared Frame OpenCall Answer OpenAct where
  call
    | .openState args => some (openOf args)
    | .openDelegCur _ args => some (openOf args)
    | .closeState sid clientid expect => some (.close sid clientid expect)
    | .openDowngrade sid clientid access deny expect => some (.downgrade sid clientid access deny expect)
    | _ => none
  answer
    | .reply (.opened sid merged) => some (.opened sid merged)
    | .reply (.stateid sid) => some (.stateid sid)
    | _ => none
  event := openAct

variable {f : Frame} {cfg : Config} {t : Tables}

theorem event_openObserver : openObserver.event = openAct := rfl

/-! ### When nobody interferes -/

namespace Frame

/-- The record the frame acts on, after checks its request has already made. -/
def commits : Frame → Option StateRef
  | unlinkState r true false | downgradeWrite r _ _ _ => some r
  | _ => none

/-- The new record whose OPEN has still to register it with its client. -/
def places : Frame → Option StateRef
  | openInsert _ r | openTrack _ r => some r
  | _ => none

def NamesClient : Frame → Prop
  | closeState _ clientid _ => clientid ≠ 0
  | _ => True

instance : DecidablePred NamesClient := fun f => by apply @Frame.casesOn _ f <;> intros <;> dsimp only [NamesClient] <;> infer_instance

end Frame

def committed (fs : List Frame) : List StateRef := fs.filterMap Frame.commits

def placed (fs : List Frame) : List StateRef := fs.filterMap Frame.places

namespace Shared

/-- None of the other frames relies on the record's seqid. -/
def Settled (s : Shared) (others : List Frame) (r : StateRef) : Prop :=
  r ∉ committed others ∧ r ∉ owed others ∧ (s.states r).seqid ≠ 0xffffffff

/-- No client is retired whose opens are being acted on. -/
def Undisturbing (s : Shared) (others : List Frame) (c : ClientRef) : Prop :=
  (s.clients c).expired = false → ∀ r ∈ committed others ++ placed others, (s.states r).client ≠ c

/-- Who acts on an open finds it live, with no other request between its checks and its act, and, where the seqid
changes, with none that has still to answer it. -/
def Exclusive (s : Shared) (others : List Frame) : Frame → Prop
  | .openArbitrate c args attempt => ∀ r ∈ s.bumped (.openArbitrate c args attempt), s.Settled others r
  | .downgradeWrite r _ _ _ => s.dead r = false ∧ s.Settled others r
  | .closeCheck r _ _ _ => (s.states r).type = .kOpen
  | .unlinkState r fromClient handover => (s.states r).type = .kOpen →
      (fromClient = true ∧ handover = false → s.dead r = false) ∧ (s.dead r = false → r ∉ committed others)
  | f => ∀ c ∈ s.retiree f, s.Undisturbing others c

instance (s : Shared) (others : List Frame) (r : StateRef) : Decidable (s.Settled others r) :=
  inferInstanceAs (Decidable (_ ∧ _))

instance (s : Shared) (others : List Frame) (c : ClientRef) : Decidable (s.Undisturbing others c) :=
  inferInstanceAs (Decidable (_ → _))

instance (s : Shared) (others : List Frame) (f : Frame) : Decidable (s.Exclusive others f) := by
  apply @Frame.casesOn _ f <;> intros <;> dsimp only [Exclusive] <;> infer_instance

end Shared

abbrev opensExclusive : Machine.Rules Shared Frame Input where
  spawn _ _ f := f.Request ∧ f.NamesClient
  step s fs _ f := s.tables.ClientIdsLeft f ∧ s.Exclusive (fs.erase f) f

structure OpenInv (cfg : Config) (s : Shared) (fs : List Frame) : Prop where
  live : Live cfg s fs
  filed : s.tables.Filed
  indexed : s.tables.Indexed cfg

theorem OpenInv.step {s : Shared} {pre post : List Frame}
    (h : OpenInv cfg s (pre ++ f :: post)) (hids : s.tables.ClientIdsLeft f) (input : Input) :
    OpenInv cfg (s.exec cfg input f).1 (pre ++ ((s.exec cfg input f).2 ++ post)) where
  live := h.live.step input
  filed := h.filed.change h.live.current (s.exec_change cfg input f)
  indexed := h.indexed.change h.live.tables h.live.current hids (s.exec_change cfg input f)

/-! ### What a step does to an open -/

theorem Tables.ClientStep.expired {c : ClientRef} {v : ClientView} (h : t.ClientStep c f v) :
    v.expired = (t.clients c).expired ∨ t.Retires c f ∧ v.expired = true := by
  cases h with
  | retired hf => exact Or.inr ⟨hf, rfl⟩
  | _ => exact Or.inl rfl

namespace Shared

variable {cfg : Config} {s : Shared} {r : StateRef} {f : Frame}

theorem openTable_eq_some {e : OpenEntry} : s.openTable r = some e ↔
    (r < s.stateRefs ∧ (s.states r).type = .kOpen ∧ s.tables.Live r) ∧ s.openEntry r = e := by
  rw [← not_dead_iff]
  unfold openTable
  split
  · next h => simp [h]
  · next h => simp only [h, false_and, reduceCtorEq]

theorem openTable_eq_none (h : ¬(r < s.stateRefs ∧ (s.states r).type = .kOpen ∧ s.tables.Live r)) :
    s.openTable r = none := by
  rw [← not_dead_iff] at h
  exact if_neg h

theorem bumped_open (hwf : s.tables.Wf cfg) (hf : f.Wf s.tables) (hr : r ∈ s.bumped f)
    (htype : (s.states r).type = .kOpen) :
    (∃ c args attempt, f = .openArbitrate c args attempt ∧ s.tables.Live r) ∨
      ∃ other access deny, f = .downgradeWrite r other access deny := by
  have hlock : ∀ {l : StateRef}, (s.states l).type = .kLock → l ≠ r := by
    rintro l hl rfl
    exact absurd (hl.symm.trans htype) (by simp)
  cases f with
  | openArbitrate c args attempt =>
    exact Or.inl ⟨c, args, attempt, rfl, (merges_spec hr).2.1⟩
  | downgradeWrite q other access deny =>
    obtain rfl := Option.some.inj hr
    exact Or.inr ⟨other, access, deny, rfl⟩
  | lockuBump q other =>
    obtain rfl := Option.some.inj hr
    exact absurd rfl (hlock hf.2)
  | lockFile ctx =>
    rcases lockRecord_some hr with hnamed | ⟨-, hmem, -⟩
    · exact absurd rfl (hlock (hf.lockRec r hnamed).1.2.2)
    · exact absurd rfl (hlock (hwf.files ctx.args.file .kLock r hmem).2.1)
  | _ => cases hr

/-- OPEN changes no record but the one it merges into. -/
theorem states_openArbitrate {c : ClientRef} {args : OpenArgs} {attempt : Nat} (hr : r < s.stateRefs) (input : Input)
    (hb : s.merges c args ≠ some r) :
    (s.exec cfg input (.openArbitrate c args attempt)).1.tables.states r = s.tables.states r := by
  have heffect := s.exec_effect cfg input (.openArbitrate c args attempt)
  generalize (s.exec cfg input (.openArbitrate c args attempt)).1.tables = t at heffect ⊢
  generalize (s.exec cfg input (.openArbitrate c args attempt)).1.details = d at heffect
  cases heffect with
  | plain hf => cases hf
  | openRefused => rfl
  | openMerge _ hmerges =>
    refine Function.update_of_ne ?_ _ _
    rintro rfl
    exact hb hmerges
  | openNew => exact (Tables.states_publish _ _ r).trans (if_neg (Nat.ne_of_lt hr))

theorem openEntry_kept (hwf : s.tables.Wf cfg) (hr : r < s.stateRefs) (input : Input) (hb : r ∉ s.bumped f) :
    (s.exec cfg input f).1.openEntry r = s.openEntry r := by
  have he : s.tables.Extends (s.exec cfg input f).1.tables := .of_change (s.exec_change cfg input f)
  have hseqid : ((s.exec cfg input f).1.states r).seqid = (s.states r).seqid := by
    rcases (s.exec_effect cfg input f).seqid r with hsame | ⟨hbumped, -⟩ | ⟨hnew, -⟩
    · exact hsame
    · exact absurd hbumped hb
    · exact absurd hr (hnew ▸ Nat.lt_irrefl _)
  have hbits : ((s.exec cfg input f).1.states r).access = (s.states r).access ∧
      ((s.exec cfg input f).1.states r).deny = (s.states r).deny := by
    have hstep := Tables.recordStep_change (s.exec_change cfg input f) hr
    generalize hview : (s.exec cfg input f).1.tables.states r = v at hstep
    have hv : ((s.exec cfg input f).1.states r).access = v.access ∧ ((s.exec cfg input f).1.states r).deny = v.deny := by
      rw [← hview]
      exact ⟨rfl, rfl⟩
    rw [hv.1, hv.2]
    cases hstep with
    | kept => exact ⟨rfl, rfl⟩
    | closed => exact ⟨rfl, rfl⟩
    | merged =>
      have hsame := (hview.symm.trans (states_openArbitrate hr input hb))
      exact ⟨congrArg StateView.access hsame, congrArg StateView.deny hsame⟩
    | narrowed => exact absurd rfl hb
  have hclient : ((s.exec cfg input f).1.states r).client = (s.states r).client := he.client hr
  have hid : ((s.exec cfg input f).1.holder r).clientid = (s.holder r).clientid := by
    rw [holder, hclient]
    exact he.clientid _ (hwf.records r hr).1
  have hkey : ((s.exec cfg input f).1.states r).key = (s.states r).key := he.key hr
  have howner : ((s.exec cfg input f).1.states r).owner = (s.states r).owner := he.owner hr
  have hother : ((s.exec cfg input f).1.states r).other = (s.states r).other := he.other hr
  simp only [openEntry, hid, hkey, howner, hother, hbits.1, hbits.2, hseqid]

theorem closed_kept (hr : r < s.stateRefs) (input : Input) (hf : ∀ fromClient handover, f ≠ .unlinkState r fromClient handover) :
    ((s.exec cfg input f).1.states r).closed = (s.states r).closed := by
  have hstep := Tables.recordStep_change (s.exec_change cfg input f) hr
  generalize hview : (s.exec cfg input f).1.tables.states r = v at hstep
  have hv : ((s.exec cfg input f).1.states r).closed = v.closed := by
    rw [← hview]
    rfl
  rw [hv]
  cases hstep with
  | closed => exact absurd rfl (hf _ _)
  | _ => rfl

theorem expired_createClient {c d : ClientRef} {args : CreateArgs}
    (hrefused : ¬((s.clients d).confirmed = false ∧ s.Creates d args)) (input : Input) :
    ((s.exec cfg input (.createClient d args)).1.clients c).expired = (s.clients c).expired := by
  have heffect := s.exec_effect cfg input (.createClient d args)
  change ((s.exec cfg input (.createClient d args)).1.tables.clients c).expired = (s.tables.clients c).expired
  generalize (s.exec cfg input (.createClient d args)).1.tables = t at heffect ⊢
  generalize (s.exec cfg input (.createClient d args)).1.details = u at heffect
  cases heffect with
  | plain hf => cases hf
  | createRefused => rfl
  | createAgain =>
    simp only [Tables.addSession, Tables.setClient, Function.update_apply]
    split <;> simp_all
  | createFirst hconf hcreates => exact absurd ⟨hconf, hcreates⟩ hrefused

theorem expired_kept (hf : f.Wf s.tables) (input : Input) {c : ClientRef} (hc : c < s.clientRefs) :
    ((s.exec cfg input f).1.clients c).expired = (s.clients c).expired ∨
      s.retiree f = some c ∧ ((s.exec cfg input f).1.clients c).expired = true := by
  rcases (Tables.clientStep_change hf (s.exec_change cfg input f) hc).expired with hsame | ⟨hretires, hafter⟩
  · exact Or.inl hsame
  · cases f with
    | expireSection => exact Or.inr ⟨congrArg some hretires, hafter⟩
    | createClient d args =>
      by_cases hgranted : (s.clients d).confirmed = false ∧ s.Creates d args
      · exact Or.inr ⟨(if_pos hgranted).trans hretires, hafter⟩
      · exact Or.inl (expired_createClient hgranted input)
    | _ => cases hretires

theorem openTable_new (input : Input) (hf : ∀ c args attempt, f ≠ .openArbitrate c args attempt) (hr : ¬r < s.stateRefs) :
    (s.exec cfg input f).1.openTable r = none := by
  refine openTable_eq_none fun ⟨hlt, htype, _⟩ => ?_
  have hlt' : r < (s.exec cfg input f).1.tables.stateRefs := hlt
  have htype' : ((s.exec cfg input f).1.tables.states r).type = .kOpen := htype
  have hpublish : ∀ {u : Tables} {v : StateView}, u.stateRefs = s.stateRefs → v.type ≠ .kOpen →
      (s.exec cfg input f).1.tables = u.publish v → False := by
    intro u v hrefs hv heq
    rw [heq] at hlt' htype'
    have hle : r ≤ s.stateRefs := hrefs ▸ Nat.lt_succ_iff.mp hlt'
    have hnew : r = u.stateRefs := hrefs ▸ Nat.le_antisymm hle (Nat.not_lt.mp hr)
    rw [Tables.states_publish, if_pos hnew] at htype'
    exact hv htype'
  rcases Tables.mints_of_change (s.exec_change cfg input f) with ⟨hsame, -⟩ | hmints
  · rw [hsame] at hlt'
    exact hr hlt'
  · generalize (s.exec cfg input f).1.tables = u at hmints hpublish hlt'
    cases hmints with
    | opened => exact hf _ _ _ rfl
    | reserved => exact hr hlt'
    | granted => exact hpublish rfl (by simp [Tables.delegView]) rfl
    | locked => exact hpublish (u := s.tables.mint) rfl (by simp [Tables.lockView]) rfl

end Shared

/-! ### Steps that are no calls -/

/-- The frame acts on no open on behalf of a call. -/
def Frame.Passive (t : Tables) : Frame → Prop
  | openArbitrate _ _ _ | downgradeWrite _ _ _ _ => False
  | unlinkState r fromClient handover => fromClient = true → handover = false → (t.states r).type ≠ .kOpen
  | _ => True

namespace Shared

variable {cfg : Config} {s : Shared} {r : StateRef} {f : Frame}

theorem openTable_same (hwf : s.tables.Wf cfg) (input : Input) (hr : r < s.stateRefs)
    (hb : (s.states r).type = .kOpen → r ∉ s.bumped f)
    (hclosed : (s.states r).type = .kOpen → ((s.exec cfg input f).1.states r).closed = (s.states r).closed)
    (hexp : ((s.exec cfg input f).1.clients (s.states r).client).expired = (s.clients (s.states r).client).expired) :
    (s.exec cfg input f).1.openTable r = s.openTable r := by
  have he : s.tables.Extends (s.exec cfg input f).1.tables := .of_change (s.exec_change cfg input f)
  have htype : ((s.exec cfg input f).1.states r).type = (s.states r).type := he.type hr
  have hclient : ((s.exec cfg input f).1.states r).client = (s.states r).client := he.client hr
  have hlt : r < (s.exec cfg input f).1.stateRefs := hr.trans_le he.stateRefs
  by_cases hopen : (s.states r).type = .kOpen
  · have hdead : (s.exec cfg input f).1.dead r = s.dead r := by
      rw [dead, dead, hclosed hopen, holder, holder, hclient, hexp]
    simp only [openTable, hr, hlt, htype, hopen, hdead, openEntry_kept hwf hr input (hb hopen)]
  · simp only [openTable, htype, hopen, false_and, and_false, if_false]

theorem openTable_unlink (hwf : s.tables.Wf cfg) (input : Input) (hr : r < s.stateRefs) (fromClient handover : Bool) :
    (s.exec cfg input (.unlinkState r fromClient handover)).1.openTable = Function.update s.openTable r none := by
  funext q
  by_cases hq : q = r
  · subst hq
    rw [Function.update_self]
    refine openTable_eq_none ?_
    rintro ⟨-, -, hlive⟩
    have hopen : ((s.exec cfg input (.unlinkState q fromClient handover)).1.states q).closed = false := hlive.1
    simp only [exec, unlinkState] at hopen
    split at hopen
    · next hclosed => simp [hclosed] at hopen
    · simp [modState] at hopen
  · rw [Function.update_of_ne hq]
    have hf : Frame.Wf s.tables (.unlinkState r fromClient handover) := hr
    by_cases hlt : q < s.stateRefs
    · refine openTable_same hwf input hlt (fun _ => by simp [bumped]) (fun _ => closed_kept hlt input ?_) ?_
      · exact fun _ _ heq => hq (by cases heq; rfl)
      · exact (expired_kept hf input (hwf.records q hlt).1).resolve_right fun h => by cases h.1
    · rw [openTable_new input (by simp) hlt, openTable_eq_none fun h => hlt h.1]

theorem retiree_lt (hwf : s.tables.Wf cfg) (hf : f.Wf s.tables) {c : ClientRef} (hc : s.retiree f = some c) :
    c < s.clientRefs := by
  cases f with
  | expireSection c' clientid reason =>
    obtain rfl := Option.some.inj hc
    exact hf.1
  | createClient d args =>
    have hold : s.oldIncarnation d = some c := (Option.ite_none_right_eq_some.mp hc).2
    have hslot : (s.tables.byOwner (s.clients d).ownerId).confirmed = some c := (Option.filter_eq_some_iff.mp hold).1
    exact (hwf.confirmed _ c hslot).1
  | _ => cases hc

theorem openTable_retire (hwf : s.tables.Wf cfg) (hindexed : s.tables.Indexed cfg) (hf : f.Wf s.tables) (input : Input)
    {c : ClientRef} (hretiree : s.retiree f = some c) (hafter : ((s.exec cfg input f).1.clients c).expired = true)
    (hkept : ∀ {q}, q < s.stateRefs →
      ((s.exec cfg input f).1.clients (s.states q).client).expired = (s.clients (s.states q).client).expired →
      (s.exec cfg input f).1.openTable q = s.openTable q)
    (hnew : ∀ {q}, ¬q < s.stateRefs → (s.exec cfg input f).1.openTable q = s.openTable q) :
    (s.exec cfg input f).1.openTable =
      fun q => (s.openTable q).filter fun e => e.clientid ≠ (s.clients c).clientid := by
  have he : s.tables.Extends (s.exec cfg input f).1.tables := .of_change (s.exec_change cfg input f)
  funext q
  by_cases hq : q < s.stateRefs
  · by_cases hholder : (s.states q).client = c
    · have hgone : (s.exec cfg input f).1.openTable q = none := by
        refine openTable_eq_none fun ⟨_, _, hlive⟩ => ?_
        have hclient : ((s.exec cfg input f).1.states q).client = c := (he.client hq).trans hholder
        have hexp : ((s.exec cfg input f).1.clients ((s.exec cfg input f).1.states q).client).expired = false := hlive.2
        rw [hclient, hafter] at hexp
        exact absurd hexp (by simp)
      rw [hgone, eq_comm, Option.filter_eq_none_iff]
      intro e hentry
      obtain ⟨-, rfl⟩ := openTable_eq_some.mp hentry
      simp [openEntry, holder, hholder]
    · have hsame : ((s.exec cfg input f).1.clients (s.states q).client).expired =
          (s.clients (s.states q).client).expired :=
        (expired_kept hf input (hwf.records q hq).1).resolve_right fun hother =>
          hholder (Option.some.inj (hother.1.symm.trans hretiree))
      rw [hkept hq hsame]
      cases hentry : s.openTable q with
      | none => rfl
      | some e =>
        obtain ⟨-, rfl⟩ := openTable_eq_some.mp hentry
        have hdiff : (s.openEntry q).clientid ≠ (s.clients c).clientid := fun hid =>
          hholder (hindexed.unique _ _ (hwf.records q hq).1 (retiree_lt hwf hf hretiree) hid)
        rw [Option.filter_some, if_pos (decide_eq_true hdiff)]
  · rw [hnew hq, openTable_eq_none fun hopen => hq hopen.1]
    rfl

theorem bystands_unlink (hwf : s.tables.Wf cfg) (input : Input) (hr : r < s.stateRefs) {fromClient handover : Bool}
    (hpassive : Frame.Passive s.tables (.unlinkState r fromClient handover)) :
    Machine.Bystands openObserver openObject openTable s (.unlinkState r fromClient handover)
      (s.exec cfg input (.unlinkState r fromClient handover)).1 := by
  have htable := openTable_unlink hwf input hr fromClient handover
  cases hentry : s.openTable r with
  | none =>
    refine Or.inl ⟨?_, ?_⟩
    · rw [event_openObserver]
      simp [openAct, hentry]
    · rw [htable, ← hentry, Function.update_eq_self]
  | some e =>
    have hopen := openTable_eq_some.mp hentry
    have hnot : ¬(fromClient = true ∧ handover = false) := fun hclose => hpassive hclose.1 hclose.2 hopen.1.2.1
    refine Or.inr ⟨.removed e.other, ?_, htable ▸ .removed hentry⟩
    rw [event_openObserver]
    simp only [openAct, hentry, if_neg hnot, Option.map_some]

theorem bystands {fs : List Frame} (h : OpenInv cfg s fs) (hmem : f ∈ fs) (input : Input) (hpassive : f.Passive s.tables) :
    Machine.Bystands openObserver openObject openTable s f (s.exec cfg input f).1 := by
  have hwf := h.live.tables
  have hf := h.live.frames f hmem
  by_cases hunlink : ∃ r fromClient handover, f = .unlinkState r fromClient handover
  · obtain ⟨r, fromClient, handover, rfl⟩ := hunlink
    exact bystands_unlink hwf input hf hpassive
  · push Not at hunlink
    have hact : openAct s f (s.exec cfg input f).1 = (s.retiree f).bind fun c =>
        if (s.clients c).expired = false ∧ ((s.exec cfg input f).1.clients c).expired = true
        then some (.retired (s.clients c).clientid) else none := by
      cases f with
      | unlinkState r fromClient handover => exact absurd rfl (hunlink r fromClient handover)
      | _ => rfl
    have hbumped : ∀ {q}, (s.states q).type = .kOpen → q ∉ s.bumped f := by
      intro q htype hq
      rcases bumped_open hwf hf hq htype with ⟨c, args, attempt, rfl, -⟩ | ⟨other, access, deny, rfl⟩
      · exact hpassive
      · exact hpassive
    have hkept : ∀ {q}, q < s.stateRefs →
        ((s.exec cfg input f).1.clients (s.states q).client).expired = (s.clients (s.states q).client).expired →
        (s.exec cfg input f).1.openTable q = s.openTable q := fun hq hexp =>
      openTable_same hwf input hq hbumped (fun _ => closed_kept hq input (hunlink _)) hexp
    have hnew : ∀ {q}, ¬q < s.stateRefs → (s.exec cfg input f).1.openTable q = s.openTable q := by
      intro q hq
      rw [openTable_new input _ hq, openTable_eq_none fun hopen => hq hopen.1]
      rintro c args attempt rfl
      exact hpassive
    by_cases hflip : ∃ c, s.retiree f = some c ∧ (s.clients c).expired = false ∧
        ((s.exec cfg input f).1.clients c).expired = true
    · obtain ⟨c, hretiree, hbefore, hafter⟩ := hflip
      refine Or.inr ⟨.retired (s.clients c).clientid, ?_, ?_⟩
      · rw [event_openObserver, hact, hretiree]
        simp [hbefore, hafter]
      · rw [openTable_retire hwf h.indexed hf input hretiree hafter hkept hnew]
        exact .retired
    · have hexp : ∀ {d}, d < s.clientRefs → ((s.exec cfg input f).1.clients d).expired = (s.clients d).expired := by
        intro d hd
        rcases expired_kept hf input hd with hsame | ⟨hretiree, hafter⟩
        · exact hsame
        · rw [hafter]
          by_contra hne
          exact hflip ⟨d, hretiree, Bool.eq_false_iff.mpr fun htrue => hne htrue.symm, hafter⟩
      refine Or.inl ⟨?_, ?_⟩
      · rw [event_openObserver, hact, Option.bind_eq_none_iff]
        exact fun c hretiree => if_neg fun hboth => hflip ⟨c, hretiree, hboth⟩
      · funext q
        by_cases hq : q < s.stateRefs
        · exact hkept hq (hexp (hwf.records q hq).1)
        · exact hnew hq

end Shared

/-! ### The stages of a call -/

namespace Frame

/-- Frames that belong to no OPEN, OPEN_DOWNGRADE or CLOSE. -/
def Outside (t : Tables) : Frame → Prop
  | openDelegCur _ _ | openState _ | openGate _ _ | openGrace _ _ _ _ | openArbitrate _ _ _ | openInsert _ _
  | openTrack _ _ | openReply _ _ | closeState _ _ _ | closeCheck _ _ _ _ | closeReply _ _ | openDowngrade _ _ _ _ _
  | downgradeCheck _ _ _ _ _ _ | downgradeWrite _ _ _ _ => False
  | unlinkState r fromClient handover => fromClient = true → handover = false → (t.states r).type ≠ .kOpen
  | _ => True

/-- Work a call leaves behind: recalls, expiries and what `unlink_state` still has to do. -/
def Chore (t : Tables) : Frame → Prop
  | reply a => openObserver.answer (.reply a) = none
  | startRecall _ | persistFsClient _ _ | unpersistFsClient _ _ | expireClient _ _ | expireSection _ _ _ | reapState _
  | eraseSession _ | unpersistClient _ | forgetLockOwners _ | unlinkFile _ _ _ | unlinkLocks _ | unlinkDeleg _
  | untrackState _ _ => True
  | unlinkState r fromClient handover => fromClient = true → handover = false → (t.states r).type ≠ .kOpen
  | _ => False

variable {t t' : Tables} {f : Frame}

theorem Outside.passive (h : f.Outside t) : f.Passive t := by
  cases f <;> first | exact trivial | exact h

theorem Chore.passive (h : f.Chore t) : f.Passive t := by
  cases f <;> first | exact trivial | exact h

theorem Outside.extends (h : f.Outside t) (hf : f.Wf t) (he : t.Extends t') : f.Outside t' := by
  cases f with
  | unlinkState r fromClient handover => exact fun hc hh => (he.type hf).symm ▸ h hc hh
  | _ => exact h

theorem Chore.extends (h : f.Chore t) (hf : f.Wf t) (he : t.Extends t') : f.Chore t' := by
  cases f with
  | unlinkState r fromClient handover => exact fun hc hh => (he.type hf).symm ▸ h hc hh
  | _ => exact h

end Frame

theorem Follows.outside {u : Tables} {g : Frame} (h : Follows cfg t u f g) (hwf : t.Wf cfg)
    (he : t.Extends u) (hf : f.Wf t) (hout : f.Outside t) : g.Outside u := by
  have htype : ∀ {r : StateRef} {type : StateType}, r < t.stateRefs → (t.states r).type = type → type ≠ .kOpen →
      (u.states r).type ≠ .kOpen := by
    intro r type hr htype hne heq
    exact hne (htype.symm.trans ((he.type hr).symm.trans heq))
  cases h with
  | reap => exact fun h => absurd h (by simp)
  | trackUndo => exact fun h => absurd h (by simp)
  | grantUndo => exact fun h => absurd h (by simp)
  | releaseUnlink => exact fun _ h => absurd h (by simp)
  | unlinkDependent _ hl =>
    have hlock := hwf.files _ .kLock _ hl
    exact fun _ _ => htype hlock.1 hlock.2.1 (by simp)
  | delegreturn hr hdeleg => exact fun _ _ => htype (hwf.table _ _ hr).1 hdeleg (by simp)
  | sweep hr => exact fun _ _ => htype (hwf.watch _ hr).1 (hwf.watch _ hr).2 (by simp)
  | freeUnlink hlock => exact fun _ _ => htype hf hlock (by simp)
  | closeUnlink => exact hout.elim
  | _ => first | exact trivial | exact hout.elim

theorem Follows.chore {u : Tables} {g : Frame} (h : Follows cfg t u f g) (hwf : t.Wf cfg)
    (he : t.Extends u) (hchore : f.Chore t) (hreply : ∀ a, g ≠ .reply a) : g.Chore u := by
  cases h with
  | reply => exact absurd rfl (hreply _)
  | reap => exact fun h => absurd h (by simp)
  | unlinkDependent _ hl =>
    have hlock := hwf.files _ .kLock _ hl
    intro _ _ heq
    have htype := (he.type hlock.1).symm.trans heq
    exact absurd (hlock.2.1.symm.trans htype) (by simp)
  | trackUndo hor | lockFirst hor =>
    rcases hor with rfl | rfl
    · exact hchore.elim
    · exact hchore.elim
  | trackPersist => exact trivial
  | _ => first | exact trivial | exact hchore.elim

theorem Frame.Chore.no_reply (h : f.Chore t) (s : Shared) (cfg : Config) (input : Input) (a : Answer) :
    Frame.reply a ∉ (s.exec cfg input f).2 := by
  cases f with
  | reply => exact List.not_mem_nil
  | startRecall | persistFsClient | unpersistFsClient | eraseSession | unpersistClient | forgetLockOwners | unlinkLocks
  | unlinkDeleg => exact List.not_mem_nil
  | expireClient clientid reason =>
    simp only [Shared.exec, Shared.expireClient]
    split <;> simp
  | expireSection c clientid reason =>
    simp only [Shared.exec, Shared.expireSection]
    split <;> simp
  | reapState other =>
    simp only [Shared.exec, Shared.reapState]
    split <;> simp
  | unlinkState r fromClient handover =>
    simp only [Shared.exec, Shared.unlinkState]
    split <;> simp
  | unlinkFile r fromClient handover =>
    simp only [Shared.exec, Shared.unlinkFile]
    split <;> split <;> simp
  | untrackState r handover =>
    simp only [Shared.exec, Shared.untrackState]
    split <;> simp
  | _ => exact h.elim

theorem Shared.exec_chore {s : Shared} {fs : List Frame} (h : Live cfg s fs)
    (input : Input) (hchore : f.Chore s.tables) :
    ∀ g ∈ (s.exec cfg input f).2, g.Chore (s.exec cfg input f).1.tables := by
  intro g hg
  refine (s.exec_flow cfg input f g hg).chore h.tables (.of_change (s.exec_change cfg input f)) hchore ?_
  rintro a rfl
  exact hchore.no_reply s cfg input a hg

namespace Shared

/-- The stateid named this open, with its current seqid or 0. -/
structure Checked (s : Shared) (r : StateRef) (sid : Stateid) (clientid : UInt64) (expect : Option FileKey) : Prop where
  known : r < s.stateRefs
  type : (s.states r).type = .kOpen
  quoted : (s.openEntry r).Quoted sid clientid expect

/-- What is left of a call that has not taken effect. -/
inductive Pending (s : Shared) : OpenCall → List Frame → Prop
  | refused {q : OpenCall} : Pending s q []
  | claiming {sid : Stateid} {args : OpenArgs} : Pending s (openOf args) [.openDelegCur sid args]
  | opening {args : OpenArgs} {f : Frame} (hf : f = .openState args ∨ ∃ c, f = .openGate c args ∨
      (∃ done held, f = .openGrace c args done held) ∨ ∃ attempt, f = .openArbitrate c args attempt) :
      Pending s (openOf args) [f]
  | late {q : OpenCall} {c : ClientRef} {r : StateRef} {f : Frame} (hf : f = .openInsert c r ∨ f = .openTrack c r)
      (hexp : (s.clients c).expired = true) : Pending s q [f]
  | closing {sid : Stateid} {clientid : UInt64} {expect : Option FileKey} (hid : clientid ≠ 0) :
      Pending s (.close sid clientid expect) [.closeState sid clientid expect]
  | closeCheck {r : StateRef} {sid : Stateid} {clientid : UInt64} {expect : Option FileKey} (hid : clientid ≠ 0)
      (hr : r < s.stateRefs) (hother : (s.states r).other = sid.other) :
      Pending s (.close sid clientid expect) [.closeCheck r sid clientid expect]
  | closeUnlink {r : StateRef} {sid : Stateid} {clientid : UInt64} {expect : Option FileKey}
      (h : s.Checked r sid clientid expect) :
      Pending s (.close sid clientid expect) [.unlinkState r true false, .closeReply r sid.other]
  | downgrading {sid : Stateid} {clientid : UInt64} {access deny : ShareBits} {expect : Option FileKey} :
      Pending s (.downgrade sid clientid access deny expect) [.openDowngrade sid clientid access deny expect]
  | downgradeCheck {r : StateRef} {sid : Stateid} {clientid : UInt64} {access deny : ShareBits}
      {expect : Option FileKey} (hr : r < s.stateRefs) (hother : (s.states r).other = sid.other) :
      Pending s (.downgrade sid clientid access deny expect) [.downgradeCheck r sid clientid access deny expect]
  | downgradeWrite {r : StateRef} {sid : Stateid} {clientid : UInt64} {access deny : ShareBits}
      {expect : Option FileKey} (h : s.Checked r sid clientid expect)
      (hnarrow : access ≠ 0 ∧ access &&& ~~~(s.openEntry r).access = 0 ∧ deny &&& ~~~(s.openEntry r).deny = 0) :
      Pending s (.downgrade sid clientid access deny expect) [.downgradeWrite r sid.other access deny]

/-- What is left of a call that has taken effect, and the answer it is going to give. -/
inductive Done (s : Shared) : Answer → List Frame → Prop
  | placed {c : ClientRef} {r : StateRef} {f : Frame} {a : Answer} (hf : f = .openInsert c r ∨ f = .openTrack c r)
      (hexp : (s.clients c).expired = false) (hseqid : (s.openEntry r).seqid = 1)
      (ha : a = .opened ⟨1, (s.openEntry r).other⟩ false) : Done s a [f]
  | opened {r : StateRef} {merged : Bool} {a : Answer} (hr : r < s.stateRefs) (htype : (s.states r).type = .kOpen)
      (ha : a = .opened ⟨(s.openEntry r).seqid, (s.openEntry r).other⟩ merged) : Done s a [.openReply r merged]
  | closed {r : StateRef} {other : StateOther} {a : Answer} (hr : r < s.stateRefs) (htype : (s.states r).type = .kOpen)
      (hclosed : (s.states r).closed = true) (ha : a = .stateid ⟨(s.openEntry r).seqid + 1, other⟩) :
      Done s a [.closeReply r other]
  | narrowed {r : StateRef} {other : StateOther} {a : Answer} (hr : r < s.stateRefs)
      (htype : (s.states r).type = .kOpen) (ha : a = .stateid ⟨(s.openEntry r).seqid, other⟩) :
      Done s a [.stateidReply r other]
  | reply {a : Answer} (ha : openObserver.answer (.reply a) = some a) : Done s a [.reply a]

/-- A stack of a call: work left behind above what is left of the call itself. -/
def Staged (s : Shared) (P : List Frame → Prop) (st : List Frame) : Prop :=
  ∃ noise act, st = noise ++ act ∧ (∀ g ∈ noise, g.Chore s.tables) ∧ P act

theorem Staged.act {s : Shared} {P : List Frame → Prop} {act : List Frame} (h : P act) : s.Staged P act :=
  ⟨[], act, rfl, List.forall_mem_nil _, h⟩

theorem Staged.refused {s : Shared} {q : OpenCall} {st : List Frame} (h : ∀ g ∈ st, g.Chore s.tables) :
    s.Staged (s.Pending q) st := ⟨st, [], (List.append_nil st).symm, h, .refused⟩

theorem Staged.status {s : Shared} {q : OpenCall} (status : Status) : s.Staged (s.Pending q) [.reply (.status status)] :=
  .refused fun g hg => by
    obtain rfl := List.mem_singleton.mp hg
    rfl

end Shared

/-! ### What other steps leave of a call -/

section Kept

variable {cfg : Config} {s : Shared} {fs : List Frame} {f : Frame} {r : StateRef}

theorem OpenInv.entry_kept (h : OpenInv cfg s fs) (hf : f ∈ fs) (input : Input) (hrule : s.Exclusive (fs.erase f) f)
    (hr : r < s.stateRefs) (htype : (s.states r).type = .kOpen)
    (hrelied : r ∈ committed (fs.erase f) ∨ r ∈ owed (fs.erase f) ∨ (s.states r).closed = true) :
    (s.exec cfg input f).1.openEntry r = s.openEntry r := by
  refine Shared.openEntry_kept h.live.tables hr input fun hb => ?_
  rcases Shared.bumped_open h.live.tables (h.live.frames f hf) hb htype with
    ⟨c, args, attempt, rfl, hlive⟩ | ⟨other, access, deny, rfl⟩
  · have hsettled : s.Settled _ r := hrule r hb
    rcases hrelied with hin | hin | hclosed
    · exact hsettled.1 hin
    · exact hsettled.2.1 hin
    · exact absurd (hclosed.symm.trans hlive.1) (by simp)
  · obtain ⟨hdead, hsettled⟩ := hrule
    rcases hrelied with hin | hin | hclosed
    · exact hsettled.1 hin
    · exact hsettled.2.1 hin
    · have hlive := (Shared.not_dead_iff s r).mp hdead
      exact absurd (hclosed.symm.trans hlive.1) (by simp)

theorem Shared.known_kept (cfg : Config) (hr : r < s.stateRefs) (input : Input) (f : Frame) :
    r < (s.exec cfg input f).1.stateRefs ∧ ((s.exec cfg input f).1.states r).type = (s.states r).type ∧
      ((s.exec cfg input f).1.states r).other = (s.states r).other := by
  have he : s.tables.Extends (s.exec cfg input f).1.tables := .of_change (s.exec_change cfg input f)
  exact ⟨hr.trans_le he.stateRefs, he.type hr, he.other hr⟩

theorem OpenInv.checked_kept (h : OpenInv cfg s fs) (hf : f ∈ fs) (input : Input) (hrule : s.Exclusive (fs.erase f) f)
    {sid : Stateid} {clientid : UInt64} {expect : Option FileKey} (hchecked : s.Checked r sid clientid expect)
    (hin : r ∈ committed (fs.erase f)) : (s.exec cfg input f).1.Checked r sid clientid expect := by
  obtain ⟨hlt, htype, -⟩ := Shared.known_kept cfg hchecked.known input f
  refine ⟨hlt, htype.trans hchecked.type, ?_⟩
  rw [h.entry_kept hf input hrule hchecked.known hchecked.type (Or.inl hin)]
  exact hchecked.quoted

theorem OpenInv.client_kept (h : OpenInv cfg s fs) (hf : f ∈ fs) (input : Input) (hrule : s.Exclusive (fs.erase f) f)
    {c : ClientRef} (hc : c < s.clientRefs) (hclient : (s.states r).client = c) (hexp : (s.clients c).expired = false)
    (hin : r ∈ placed (fs.erase f)) : ((s.exec cfg input f).1.clients c).expired = false := by
  have hexpired : ((s.exec cfg input f).1.clients c).expired = (s.clients c).expired ∨
      s.retiree f = some c ∧ ((s.exec cfg input f).1.clients c).expired = true :=
    Shared.expired_kept (h.live.frames f hf) input hc
  rcases hexpired with hsame | ⟨hretiree, -⟩
  · exact hsame.trans hexp
  · have hquiet : s.Undisturbing (fs.erase f) c := by
      cases f with
      | expireSection c' clientid reason => exact hrule c hretiree
      | createClient d args => exact hrule c hretiree
      | _ => cases hretiree
    exact absurd hclient (hquiet hexp r (List.mem_append_right _ hin))

theorem OpenInv.pending_kept (h : OpenInv cfg s fs) (hf : f ∈ fs) (input : Input) (hrule : s.Exclusive (fs.erase f) f)
    {q : OpenCall} {act : List Frame} (hact : ∀ g ∈ act, g ∈ fs.erase f) (hpending : s.Pending q act) :
    (s.exec cfg input f).1.Pending q act := by
  have he : s.tables.Extends (s.exec cfg input f).1.tables := .of_change (s.exec_change cfg input f)
  cases hpending with
  | refused => exact .refused
  | claiming => exact .claiming
  | opening hf => exact .opening hf
  | @late _ c r g hg hexp =>
    have hwf : g.Wf s.tables := h.live.frames g (List.mem_of_mem_erase (hact g (List.mem_singleton_self g)))
    have hc : c < s.clientRefs := by
      rcases hg with rfl | rfl
      · exact hwf.2.1 ▸ (h.live.tables.records r hwf.1).1
      · exact hwf.2.1 ▸ (h.live.tables.records r hwf.1).1
    exact .late hg (he.expired c hc hexp)
  | closing hid => exact .closing hid
  | closeCheck hid hr hother =>
    obtain ⟨hlt, -, hsame⟩ := Shared.known_kept cfg hr input f
    exact .closeCheck hid hlt (hsame.trans hother)
  | closeUnlink hchecked =>
    refine .closeUnlink (h.checked_kept hf input hrule hchecked ?_)
    exact List.mem_filterMap.mpr ⟨_, hact _ (List.mem_cons_self ..), rfl⟩
  | downgrading => exact .downgrading
  | downgradeCheck hr hother =>
    obtain ⟨hlt, -, hsame⟩ := Shared.known_kept cfg hr input f
    exact .downgradeCheck hlt (hsame.trans hother)
  | downgradeWrite hchecked hnarrow =>
    have hin : _ ∈ committed (fs.erase f) := List.mem_filterMap.mpr ⟨_, hact _ (List.mem_cons_self ..), rfl⟩
    refine .downgradeWrite (h.checked_kept hf input hrule hchecked hin) ?_
    rw [h.entry_kept hf input hrule hchecked.known hchecked.type (Or.inl hin)]
    exact hnarrow

theorem OpenInv.done_kept (h : OpenInv cfg s fs) (hf : f ∈ fs) (input : Input) (hrule : s.Exclusive (fs.erase f) f)
    {a : Answer} {act : List Frame} (hact : ∀ g ∈ act, g ∈ fs.erase f) (hdone : s.Done a act) :
    (s.exec cfg input f).1.Done a act := by
  have hown : ∀ {g : Frame} {r : StateRef}, g ∈ act → g.owes = some r → r ∈ owed (fs.erase f) := fun hg hr =>
    List.mem_filterMap.mpr ⟨_, hact _ hg, hr⟩
  cases hdone with
  | @placed c r g _ hg hexp hseqid ha =>
    have hwf : s.tables.State r c .kOpen := by
      have hg' := h.live.frames g (List.mem_of_mem_erase (hact g (List.mem_singleton_self g)))
      rcases hg with rfl | rfl
      · exact hg'
      · exact hg'
    have howes : g.owes = some r ∧ g.places = some r := by
      rcases hg with rfl | rfl
      · exact ⟨rfl, rfl⟩
      · exact ⟨rfl, rfl⟩
    have hentry := h.entry_kept hf input hrule hwf.1 hwf.2.2
      (Or.inr (Or.inl (hown (List.mem_singleton_self g) howes.1)))
    have hc : c < s.clientRefs := hwf.2.1 ▸ (h.live.tables.records r hwf.1).1
    refine .placed hg (h.client_kept hf input hrule hc hwf.2.1 hexp ?_) (hentry ▸ hseqid) (hentry ▸ ha)
    exact List.mem_filterMap.mpr ⟨g, hact g (List.mem_singleton_self g), howes.2⟩
  | opened hr htype ha =>
    obtain ⟨hlt, hsame, -⟩ := Shared.known_kept cfg hr input f
    have hentry := h.entry_kept hf input hrule hr htype (Or.inr (Or.inl (hown (List.mem_singleton_self _) rfl)))
    exact .opened hlt (hsame.trans htype) (hentry ▸ ha)
  | closed hr htype hclosed ha =>
    obtain ⟨hlt, hsame, -⟩ := Shared.known_kept cfg hr input f
    have he : s.tables.Extends (s.exec cfg input f).1.tables := .of_change (s.exec_change cfg input f)
    have hentry := h.entry_kept hf input hrule hr htype (Or.inr (Or.inr hclosed))
    exact .closed hlt (hsame.trans htype) (he.closed hr hclosed) (hentry ▸ ha)
  | narrowed hr htype ha =>
    obtain ⟨hlt, hsame, -⟩ := Shared.known_kept cfg hr input f
    have hentry := h.entry_kept hf input hrule hr htype (Or.inr (Or.inl (hown (List.mem_singleton_self _) rfl)))
    exact .narrowed hlt (hsame.trans htype) (hentry ▸ ha)
  | reply ha => exact .reply ha

theorem OpenInv.chores_kept (h : OpenInv cfg s fs) (input : Input) {st : List Frame} (hst : ∀ g ∈ st, g ∈ fs.erase f)
    (hchore : ∀ g ∈ st, g.Chore s.tables) : ∀ g ∈ st, g.Chore (s.exec cfg input f).1.tables := fun g hg =>
  (hchore g hg).extends (h.live.frames g (List.mem_of_mem_erase (hst g hg))) (.of_change (s.exec_change cfg input f))

theorem OpenInv.staged_kept (h : OpenInv cfg s fs) (input : Input) {P P' : List Frame → Prop} {st : List Frame}
    (hst : ∀ g ∈ st, g ∈ fs.erase f) (hkeep : ∀ act, (∀ g ∈ act, g ∈ fs.erase f) → P act → P' act)
    (hstaged : s.Staged P st) : (s.exec cfg input f).1.Staged P' st := by
  obtain ⟨noise, act, rfl, hchore, hact⟩ := hstaged
  refine ⟨noise, act, rfl, ?_, hkeep act (fun g hg => hst g (List.mem_append_right _ hg)) hact⟩
  exact h.chores_kept input (fun g hg => hst g (List.mem_append_left _ hg)) hchore

theorem OpenInv.staged_chore (h : OpenInv cfg s fs) (input : Input) {P P' : List Frame → Prop} {noise act : List Frame}
    (hst : ∀ g ∈ noise ++ act, g ∈ fs.erase f) (hkeep : ∀ act, (∀ g ∈ act, g ∈ fs.erase f) → P act → P' act)
    (hchore : f.Chore s.tables) (hnoise : ∀ g ∈ noise, g.Chore s.tables) (hact : P act) :
    (s.exec cfg input f).1.Staged P' ((s.exec cfg input f).2 ++ (noise ++ act)) := by
  refine ⟨(s.exec cfg input f).2 ++ noise, act, (List.append_assoc ..).symm, ?_,
    hkeep act (fun g hg => hst g (List.mem_append_right _ hg)) hact⟩
  refine List.forall_mem_append.mpr ⟨Shared.exec_chore h.live input hchore, ?_⟩
  exact h.chores_kept input (fun g hg => hst g (List.mem_append_left _ hg)) hnoise

end Kept

end LightNfs
