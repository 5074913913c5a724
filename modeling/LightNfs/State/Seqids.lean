import LightNfs.State.Details
import LightNfs.State.ForeignIds

/-!
# Sequence ids of states

OPEN, OPEN_DOWNGRADE, LOCK and LOCKU increment a record's sequence id in one section and read it back for the
reply in another. Two requests that have both incremented it answer the same id. When no request increments the
id of a record while another has still to read it back, the answers for a record increase, and every operation
that quotes an older one is refused with OLD_STATEID.
-/

namespace LightNfs

/-- The record whose sequence id the frame, or one that follows it, reads back for the reply. -/
def Frame.owes : Frame → Option StateRef
  | openInsert _ r | openTrack _ r | openReply r _ | lockInsert _ r | lockTrack _ r | lockReply r | stateidReply r _ =>
    some r
  | _ => none

/-- The record whose sequence id the frame increments. -/
def Shared.bumped (s : Shared) : Frame → Option StateRef
  | .openArbitrate c args _ => s.merges c args
  | .downgradeWrite r _ _ _ | .lockuBump r _ => some r
  | .lockFile ctx => s.lockRecord ctx
  | _ => none

namespace Shared

variable {cfg : Config} {s : Shared}

theorem bumped_of_owes {f : Frame} {r : StateRef} (hf : f.owes = some r) : s.bumped f = none := by
  cases f <;> first | rfl | cases hf

theorem bumped_lt {f : Frame} (hwf : s.tables.Wf cfg) (hf : f.Wf s.tables) {r : StateRef} (hr : s.bumped f = some r) :
    r < s.stateRefs := by
  cases f with
  | openArbitrate c args attempt =>
    have hmem := (merges_spec hr).1
    rw [← fileAt_tables] at hmem
    exact (hwf.files args.file .kOpen r hmem).1
  | downgradeWrite r' other access deny | lockuBump r' other =>
    obtain rfl := Option.some.inj hr
    exact hf.1
  | lockFile ctx =>
    rcases lockRecord_some hr with hnamed | ⟨-, hmem, -⟩
    · exact (hf.lockRec r hnamed).1.1
    · exact (hwf.files ctx.args.file .kLock r hmem).1
  | _ => cases hr

end Shared

variable {f : Frame} {cfg : Config} {s : Shared} {r : StateRef}

/-- Sequence ids start at 1 and are incremented, by the frames that may do so, and nothing else happens to them. -/
theorem Effect.seqid {t : Tables} {d : Details} (h : Effect cfg s f t d)
    (r : StateRef) :
    d.seqid r = s.details.seqid r ∨ s.bumped f = some r ∧ d.seqid r = s.details.seqid r + 1 ∨
      r = s.stateRefs ∧ d.seqid r = 1 := by
  have hbump : ∀ {r' : StateRef}, s.bumped f = some r' →
      (s.details.bump r').seqid r = s.details.seqid r ∨
        s.bumped f = some r ∧ (s.details.bump r').seqid r = s.details.seqid r + 1 ∨
        r = s.stateRefs ∧ (s.details.bump r').seqid r = 1 := by
    intro r' hr'
    simp only [Details.bump, Function.update_apply]
    split
    · next heq => exact Or.inr (Or.inl ⟨heq ▸ hr', by rw [heq]⟩)
    · exact Or.inl rfl
  have hnew : (s.details.addState s.stateRefs).seqid r = s.details.seqid r ∨
      s.bumped f = some r ∧ (s.details.addState s.stateRefs).seqid r = s.details.seqid r + 1 ∨
      r = s.stateRefs ∧ (s.details.addState s.stateRefs).seqid r = 1 := by
    simp only [Details.addState, Function.update_apply]
    split
    · next heq => exact Or.inr (Or.inr ⟨heq, rfl⟩)
    · exact Or.inl rfl
  cases h with
  | exchangeFull hu => cases hu <;> simp
  | exchangeNew hu => cases hu <;> simp [Details.addClient, Details.renew, Details.setCourtesy]
  | @createFirst c =>
    cases hold : s.oldIncarnation c <;> simp [Details.renew, Details.retireOld, Details.setCourtesy]
  | persist => split <;> exact Or.inl rfl
  | destroyed | scanLapsed | unpersist => simp [Details.setCourtesy]
  | openMerge _ hmerges => exact hbump hmerges
  | downgrade | unlock => exact hbump rfl
  | lockReuse hl => exact hbump hl
  | openNew | grantNew | lockNew => exact hnew
  | _ => exact Or.inl rfl

/-! ### Who still has to answer -/

def Frame.Increments : Frame → Prop
  | openArbitrate _ _ _ | downgradeWrite _ _ _ _ | lockFile _ | lockuBump _ _ => True
  | _ => False

theorem Follows.owes_none {t u : Tables} {g : Frame} (h : Follows cfg t u f g) (hf : f.owes = none)
    (hinc : ¬f.Increments) : g.owes = none := by
  cases h with
  | openMerged | openInsert | downgradeReply | lockInsert | lockReused | lockuReply => exact absurd trivial hinc
  | openTrack | openReply | lockTrack | lockReply => cases hf
  | _ => rfl

/-- The records whose sequence id some pending request has still to read back. -/
def owed (fs : List Frame) : List StateRef := fs.filterMap Frame.owes

namespace Shared

variable (cfg : Config) (s : Shared) (input : Input) (f : Frame)

theorem owed_register (c : ClientRef) (r : StateRef) {refused accepted : List Frame} (hrefused : owed refused = [])
    (haccepted : owed accepted = [r]) :
    (owed (s.register cfg c r refused accepted).2).Sublist [r] := by
  unfold register owed
  split
  · rw [List.filterMap_cons_none rfl]
    exact hrefused ▸ List.nil_sublist _
  · dsimp only
    split
    · rw [List.filterMap_cons_none rfl]
      exact haccepted ▸ List.Sublist.refl _
    · exact haccepted ▸ List.Sublist.refl _

theorem owed_openArbitrate (c : ClientRef) (args : OpenArgs) (attempt : Nat) :
    owed (s.openArbitrate cfg c args attempt).2 = [] ∨
      ∃ r, owed (s.openArbitrate cfg c args attempt).2 = [r] ∧
        (s.bumped (.openArbitrate c args attempt) = some r ∧
            ((s.openArbitrate cfg c args attempt).1.states r).seqid = (s.states r).seqid + 1 ∨
          r = s.stateRefs ∧ (s.openArbitrate cfg c args attempt).1.stateRefs = s.stateRefs + 1) := by
  unfold openArbitrate
  dsimp only
  split
  · left
    dsimp only
    split <;> rfl
  · next hcourtesy =>
    split
    · exact Or.inl rfl
    · next hdenied =>
      split
      · left
        simp [owed, List.filterMap_map, Function.comp_def, Frame.owes]
      · next hdelegs =>
        right
        split
        · next r hr =>
          have hmerges : s.merges c args = some r := (merges_eq hcourtesy hdenied hdelegs).trans hr
          exact ⟨r, rfl, Or.inl ⟨hmerges, by simp [openMerge, modState]⟩⟩
        · exact ⟨s.stateRefs, rfl, Or.inr ⟨rfl, rfl⟩⟩

theorem owed_lockFile (ctx : LockCtx) : ∃ r, owed (s.lockFile cfg ctx).2 = [r] ∧
    (s.bumped (.lockFile ctx) = some r ∧ ((s.lockFile cfg ctx).1.states r).seqid = (s.states r).seqid + 1 ∨
      r = s.stateRefs ∧ (s.lockFile cfg ctx).1.stateRefs = s.stateRefs + 1) := by
  unfold lockFile
  split
  · exact ⟨s.stateRefs, rfl, Or.inr ⟨rfl, rfl⟩⟩
  · next l hl =>
    exact ⟨l, rfl, Or.inl ⟨hl, by simp [bumpSeqid, modState, touchFile, setFile]⟩⟩

/-- A section leaves at most one request for a reply to read back: its own, for a record whose sequence id it has
just incremented or for one it has just created. -/
theorem exec_owes : (owed (s.exec cfg input f).2).Sublist (owed [f]) ∨
    ∃ r, owed (s.exec cfg input f).2 = [r] ∧
      (s.bumped f = some r ∧ ((s.exec cfg input f).1.states r).seqid = (s.states r).seqid + 1 ∨
        r = s.stateRefs ∧ (s.exec cfg input f).1.stateRefs = s.stateRefs + 1) := by
  by_cases hinc : f.Increments
  · cases f with
    | openArbitrate c args attempt =>
      rcases s.owed_openArbitrate cfg c args attempt with hnil | hone
      · left
        show (owed (s.openArbitrate cfg c args attempt).2).Sublist _
        rw [hnil]
        exact List.nil_sublist _
      · exact Or.inr hone
    | downgradeWrite r other access deny =>
      exact Or.inr ⟨r, rfl, Or.inl ⟨rfl, by simp [exec, downgradeWrite, modState]⟩⟩
    | lockFile ctx => exact Or.inr (s.owed_lockFile cfg ctx)
    | lockuBump r other =>
      exact Or.inr ⟨r, rfl, Or.inl ⟨rfl, by simp [exec, bumpSeqid, modState]⟩⟩
    | _ => exact hinc.elim
  · left
    cases hf : f.owes with
    | none =>
      have hnone : ∀ g ∈ (s.exec cfg input f).2, g.owes = none := fun g hg =>
        (s.exec_flow cfg input f g hg).owes_none hf hinc
      rw [owed, List.filterMap_eq_nil_iff.mpr hnone]
      exact List.nil_sublist _
    | some r =>
      cases f with
      | openInsert | lockInsert => exact List.Sublist.refl _
      | openTrack c r | lockTrack c r => exact s.owed_register cfg c r rfl rfl
      | openReply | lockReply | stateidReply => exact List.nil_sublist _
      | _ => cases hf

end Shared

/-! ### Runs -/

/-- No sequence id is incremented while another request has still to read it back, or when it would wrap. -/
def Shared.BumpsAlone (s : Shared) (fs : List Frame) (f : Frame) : Prop :=
  ∀ r ∈ s.bumped f, r ∉ owed fs ∧ (s.states r).seqid ≠ 0xffffffff

instance (s : Shared) (fs : List Frame) (f : Frame) : Decidable (s.BumpsAlone fs f) :=
  inferInstanceAs (Decidable (∀ r ∈ _, _))

abbrev bumpsAlone : Machine.Rules Shared Frame Input where
  spawn _ _ f := f.Request
  step s fs _ f := s.BumpsAlone fs f

structure SeqInv (cfg : Config) (s : Shared) (fs : List Frame) : Prop where
  live : Live cfg s fs
  once : (owed fs).Nodup
  known : ∀ r ∈ owed fs, r < s.stateRefs
  positive : ∀ r, (s.states r).seqid ≠ 0

theorem owed_step {pre next post : List Frame} (h : r ∈ owed (pre ++ (next ++ post))) :
    r ∈ owed next ∨ r ∈ owed (pre ++ f :: post) := by
  obtain ⟨g, hg, hr⟩ := List.mem_filterMap.mp h
  rcases Machine.mem_of_mem_step hg with hg | hg
  · exact Or.inl (List.mem_filterMap.mpr ⟨g, hg, hr⟩)
  · exact Or.inr (List.mem_filterMap.mpr ⟨g, hg, hr⟩)

namespace SeqInv

variable {cfg : Config} {s : Shared} {fs pre post : List Frame} {f : Frame}

theorem boot (cfg : Config) : SeqInv cfg LightNfs.boot.state LightNfs.boot.frames where
  live := Live.boot cfg
  once := List.nodup_nil
  known := List.forall_mem_nil _
  positive := fun _ => show (1 : UInt32) ≠ 0 by decide

theorem owed_spawn (fs : List Frame) (hf : f.Request) : owed (fs ++ [f]) = owed fs := by
  have hnone : f.owes = none := by cases f <;> first | rfl | exact hf.elim
  simp [owed, hnone]

theorem spawn (h : SeqInv cfg s fs) (hf : f.Request) : SeqInv cfg s (fs ++ [f]) where
  live := h.live.spawn hf
  once := (owed_spawn fs hf).symm ▸ h.once
  known := (owed_spawn fs hf).symm ▸ h.known
  positive := h.positive

theorem mem_owed_current (pre post : List Frame) {r : StateRef} (hr : r ∈ owed [f]) : r ∈ owed (pre ++ f :: post) := by
  obtain ⟨g, hg, hr⟩ := List.mem_filterMap.mp hr
  rw [List.mem_singleton.mp hg] at hr
  exact List.mem_filterMap.mpr ⟨f, by simp, hr⟩

theorem step (h : SeqInv cfg s (pre ++ f :: post)) (hrule : s.BumpsAlone (pre ++ f :: post) f) (input : Input) :
    SeqInv cfg (s.exec cfg input f).1 (pre ++ ((s.exec cfg input f).2 ++ post)) := by
  have he : s.tables.Extends (s.exec cfg input f).1.tables := .of_change (s.exec_change cfg input f)
  have howes := s.exec_owes cfg input f
  refine ⟨h.live.step input, ?_, fun r hr => ?_, fun r => ?_⟩
  · rcases howes with hpass | ⟨r, hone, hnew⟩
    · exact Machine.nodup_tickets_pass h.once hpass
    · refine Machine.nodup_tickets_step h.once (Or.inr ⟨r, hone, fun hin => ?_⟩)
      rcases hnew with ⟨hbumped, -⟩ | ⟨rfl, -⟩
      · exact (hrule r hbumped).1 hin
      · exact absurd (h.known _ hin) (Nat.lt_irrefl _)
  · rcases owed_step (f := f) hr with hr | hr
    · rcases howes with hpass | ⟨r', hone, hnew⟩
      · exact (h.known r (mem_owed_current pre post (hpass.subset hr))).trans_le he.stateRefs
      · rw [hone, List.mem_singleton] at hr
        subst hr
        rcases hnew with ⟨hbumped, -⟩ | ⟨rfl, hrefs⟩
        · exact (Shared.bumped_lt h.live.tables h.live.current hbumped).trans_le he.stateRefs
        · exact hrefs ▸ Nat.lt_succ_self _
    · exact (h.known r hr).trans_le he.stateRefs
  · have hseqid := (s.exec_effect cfg input f).seqid r
    rcases hseqid with hsame | ⟨hbumped, hplus⟩ | ⟨-, hone⟩
    · exact fun hzero => h.positive r (hsame.symm.trans hzero)
    · have hmax := (hrule r hbumped).2
      have hplus' : ((s.exec cfg input f).1.states r).seqid = (s.states r).seqid + 1 := hplus
      rw [hplus']
      intro hzero
      exact hmax (by lia)
    · have hone' : ((s.exec cfg input f).1.states r).seqid = 1 := hone
      rw [hone']
      decide

end SeqInv

/-! ### After an answer -/

def Answer.seqid : Answer → Option UInt32
  | opened sid _ | stateid sid => some sid.seqid
  | _ => none

/-- The step of task `i` sends the reply to an operation on the record, with this sequence id. -/
def Answers (cfg : Config) (c : Machine.Config Shared Frame) (i : Nat) (input : Input) (r : StateRef) (n : UInt32) :
    Prop :=
  ∃ f rest a, c.tasks[i]? = some (f :: rest) ∧ f.owes = some r ∧ (c.state.exec cfg input f).2 = [.reply a] ∧
    a.seqid = some n

theorem Shared.seqid_of_reply {input : Input} {a : Answer}
    {n : UInt32} (hf : f.owes = some r) (ha : (s.exec cfg input f).2 = [.reply a]) (hn : a.seqid = some n) :
    n = (s.states r).seqid ∧ (s.exec cfg input f).1 = s := by
  cases f with
  | openReply r' merged | lockReply r' | stateidReply r' other =>
    obtain rfl := Option.some.inj hf
    simp only [Shared.exec, List.cons.injEq, Frame.reply.injEq, and_true] at ha
    subst ha
    exact ⟨(Option.some.inj hn).symm, rfl⟩
  | openInsert | lockInsert => simp [Shared.exec, Shared.openInsert, Shared.lockInsert] at ha
  | openTrack c r' | lockTrack c r' =>
    simp only [Shared.exec, Shared.openTrack, Shared.lockTrack, Shared.register] at ha
    split at ha
    · simp at ha
    · dsimp only at ha
      split at ha <;> simp at ha
  | _ => cases hf

/-- What holds ever after a reply with sequence id `n`: the record's id is not below it, and a request that has
still to answer for the record will answer more. -/
structure Since (cfg : Config) (r : StateRef) (n : UInt32) (s : Shared) (fs : List Frame) : Prop where
  inv : SeqInv cfg s fs
  known : r < s.stateRefs
  later : n ≤ (s.states r).seqid
  pending : r ∈ owed fs → n < (s.states r).seqid

namespace Since

variable {cfg : Config} {s : Shared} {fs pre post : List Frame} {f : Frame} {r : StateRef} {n : UInt32}

theorem spawn (h : Since cfg r n s fs) (hf : f.Request) : Since cfg r n s (fs ++ [f]) where
  inv := h.inv.spawn hf
  known := h.known
  later := h.later
  pending := (SeqInv.owed_spawn fs hf).symm ▸ h.pending

theorem step (h : Since cfg r n s (pre ++ f :: post)) (hrule : s.BumpsAlone (pre ++ f :: post) f) (input : Input) :
    Since cfg r n (s.exec cfg input f).1 (pre ++ ((s.exec cfg input f).2 ++ post)) := by
  have he : s.tables.Extends (s.exec cfg input f).1.tables := .of_change (s.exec_change cfg input f)
  have hseqid : ((s.exec cfg input f).1.states r).seqid = (s.states r).seqid ∨
      (s.states r).seqid ≠ 0xffffffff ∧ ((s.exec cfg input f).1.states r).seqid = (s.states r).seqid + 1 := by
    rcases (s.exec_effect cfg input f).seqid r with hsame | ⟨hbumped, hplus⟩ | ⟨hnew, -⟩
    · exact Or.inl hsame
    · exact Or.inr ⟨(hrule r hbumped).2, hplus⟩
    · exact absurd h.known (hnew ▸ Nat.lt_irrefl _)
  have hmono : (s.states r).seqid ≤ ((s.exec cfg input f).1.states r).seqid := by
    rcases hseqid with hsame | ⟨hmax, hplus⟩
    · exact hsame.symm ▸ UInt32.le_refl _
    · rw [hplus]
      lia
  refine ⟨h.inv.step hrule input, h.known.trans_le he.stateRefs, UInt32.le_trans h.later hmono, fun hr => ?_⟩
  rcases owed_step (f := f) hr with hr | hr
  · rcases s.exec_owes cfg input f with hpass | ⟨r', hone, hnew⟩
    · exact UInt32.lt_of_lt_of_le (h.pending (SeqInv.mem_owed_current pre post (hpass.subset hr))) hmono
    · rw [hone, List.mem_singleton] at hr
      subst hr
      rcases hnew with ⟨hbumped, hplus⟩ | ⟨hnew, -⟩
      · have hmax := (hrule r hbumped).2
        have hlater := h.later
        rw [hplus]
        lia
      · exact absurd h.known (hnew ▸ Nat.lt_irrefl _)
  · exact UInt32.lt_of_lt_of_le (h.pending hr) hmono

theorem of_answer {c : Machine.Config Shared Frame} {i : Nat} {input : Input} (h : SeqInv cfg c.state c.frames)
    (hanswer : Answers cfg c i input r n) :
    Since cfg r n ((server cfg).apply c (.step i input)).state ((server cfg).apply c (.step i input)).frames ∧ n ≠ 0 := by
  obtain ⟨f, rest, a, htask, howes, hreply, hn⟩ := hanswer
  obtain ⟨rfl, hstate⟩ := Shared.seqid_of_reply howes hreply hn
  obtain ⟨pre, post, hframes, hstate', hframes'⟩ := Machine.apply_step (m := server cfg) htask input
  rw [server_exec] at hstate' hframes'
  rw [hframes] at h
  have hstep := h.step (fun r' hr' => absurd hr' (by simp [Shared.bumped_of_owes howes])) input
  have hrest : r ∉ owed (pre ++ post) := Machine.ticket_not_waiting h.once howes
  have hin : r ∈ owed (pre ++ f :: post) := List.mem_filterMap.mpr ⟨f, by simp, howes⟩
  have hnone : r ∉ owed (pre ++ ([Frame.reply a] ++ post)) := by simpa [owed, Frame.owes] using hrest
  rw [hstate', hframes']
  rw [hstate, hreply] at hstep ⊢
  exact ⟨⟨hstep, h.known r hin, UInt32.le_refl _, fun hr => absurd hr hnone⟩, h.positive r⟩

end Since

/-! ### Quoting an old sequence id -/

/-- The record and sequence id a request quotes, where the operation compares them. -/
def Frame.quotes : Frame → Option (StateRef × UInt32)
  | closeCheck r sid _ _ | downgradeCheck r sid _ _ _ _ | lockuCheck r sid _ _ _ | ioCheck r sid _ _ _ =>
    some (r, sid.seqid)
  | lockCheck _ args _ r => some (r, if args.newOwner then args.openStateid.seqid else args.lockStateid.seqid)
  | _ => none

/-- The state id names a record of the caller, of the operation's kind and on its file. -/
def Shared.Names (s : Shared) : Frame → Prop
  | .closeCheck r _ clientid expect => clientid ≠ 0 ∧ (s.holder r).clientid = clientid ∧ s.wrongFile r expect = false
  | .downgradeCheck r _ clientid _ _ expect =>
    (s.holder r).clientid = clientid ∧ (s.states r).type = .kOpen ∧ s.wrongFile r expect = false
  | .lockCheck c args _ r =>
    (s.states r).type = (if args.newOwner then .kOpen else .kLock) ∧ (s.states r).client = c ∧
      (s.states r).key = args.file
  | .lockuCheck r _ clientid _ expect =>
    (s.states r).type = .kLock ∧ (s.holder r).clientid = clientid ∧ s.wrongFile r expect = false
  | .ioCheck r _ clientid file _ =>
    (s.holder r).expired = false ∧ (s.holder r).clientid = clientid ∧ (s.states r).key = file
  | _ => True

theorem Shared.refuses_old {n : UInt32} (input : Input)
    (hquotes : f.quotes = some (r, n)) (hnames : s.Names f) (hzero : n ≠ 0) (hold : n < (s.states r).seqid) :
    s.exec cfg input f = (s, [.reply (.status .oldStateid)]) := by
  have hcheck : s.checkSeqid r n = .oldStateid := by rw [checkSeqid, if_neg hzero, if_pos hold]
  cases f with
  | closeCheck r' sid clientid expect =>
    obtain ⟨rfl, rfl⟩ := Prod.mk.inj (Option.some.inj hquotes)
    obtain ⟨hclient, hid, hfile⟩ := hnames
    simp [exec, closeCheck, hclient, hid, hfile, hcheck]
  | downgradeCheck r' sid clientid access deny expect =>
    obtain ⟨rfl, rfl⟩ := Prod.mk.inj (Option.some.inj hquotes)
    obtain ⟨hid, htype, hfile⟩ := hnames
    simp [exec, downgradeCheck, hid, htype, hfile, hcheck]
  | lockuCheck r' sid clientid range expect =>
    obtain ⟨rfl, rfl⟩ := Prod.mk.inj (Option.some.inj hquotes)
    obtain ⟨htype, hid, hfile⟩ := hnames
    simp [exec, lockuCheck, hid, htype, hfile, hcheck]
  | ioCheck r' sid clientid file need =>
    obtain ⟨rfl, rfl⟩ := Prod.mk.inj (Option.some.inj hquotes)
    obtain ⟨hexp, hid, hfile⟩ := hnames
    simp [exec, ioCheck, hexp, hid, hfile, hcheck]
  | lockCheck c args heldStates r' =>
    obtain ⟨rfl, rfl⟩ := Prod.mk.inj (Option.some.inj hquotes)
    obtain ⟨htype, hclient, hfile⟩ := hnames
    simp only [exec, lockCheck, htype, hclient, hfile, hcheck]
    simp
  | _ => cases hquotes

/-- What a request with a state id of the record has to bring to be checked against its sequence id: it names a record
of the caller, of the operation's kind and on its file, and LOCK is not turned away at its gates. -/
def Shared.Accepts (cfg : Config) (s : Shared) (a : UInt64) (sid : Stateid) (r : StateRef) : StateidOp → Prop
  | .io file need => s.Names (.ioCheck r sid a file need)
  | .openDowngrade access deny expect => s.Names (.downgradeCheck r sid a access deny expect)
  | .close expect => s.Names (.closeCheck r sid a expect)
  | .lock file _ reclaim _ newOwner _ =>
    s.lockRefusal cfg a file reclaim = none ∧ (s.states r).type = (if newOwner then .kOpen else .kLock) ∧
      s.findClient cfg a = some (s.states r).client ∧ (s.states r).key = file
  | .locku range expect => s.Names (.lockuCheck r sid a range expect)
  -- These do not compare the sequence id.
  | .freeStateid | .delegreturn _ | .testStateid => False

section Requests

variable {sid : Stateid} (hepoch : sid.other.epoch = cfg.epoch32) (hspecial : sid.isSpecial = false)
  (hfind : s.table.find sid.other = some r) (hzero : sid.seqid ≠ 0) (hold : sid.seqid < (s.states r).seqid)

include hepoch hspecial hfind hzero hold

theorem answered_old_lookup {next : StateRef → Frame} {x : Answer} (hf : ∀ y, f ≠ .reply y)
    (hexec : ∀ input, s.exec cfg input f = (s, s.lookup cfg sid next))
    (hquotes : (next r).quotes = some (r, sid.seqid)) (hnames : s.Names (next r)) :
    Answered cfg s f x ↔ x = .status .oldStateid := by
  have hreply : ∀ y, next r ≠ .reply y := by
    intro y hy
    rw [hy] at hquotes
    cases hquotes
  have hanswer := answered_lookup (x := x) (v := .oldStateid) hf hexec hspecial (by simp [hfind]) fun r' hr' => by
    obtain rfl := Option.some.inj (hfind.symm.trans hr')
    exact answered_refused hreply fun input => Shared.refuses_old input hquotes hnames hzero hold
  rwa [if_neg (not_not.mpr hepoch)] at hanswer

theorem answered_old_lockState {args : LockArgs} (heldStates : Nat) {x : Answer} (hopen : args.openStateid = sid)
    (hlock : args.lockStateid = sid) (htype : (s.states r).type = if args.newOwner then .kOpen else .kLock)
    (hfile : (s.states r).key = args.file) :
    Answered cfg s.noteGrace (.lockState (s.states r).client args heldStates) x ↔ x = .status .oldStateid := by
  have htable : s.noteGrace.table = s.table := by rw [Shared.noteGrace]; split <;> rfl
  have hstates : s.noteGrace.states = s.states := by rw [Shared.noteGrace]; split <;> rfl
  rw [← htable] at hfind
  rw [← hstates] at hold htype hfile ⊢
  generalize s.noteGrace = s at *
  have hexec : ∀ input, s.exec cfg input (.lockState (s.states r).client args heldStates) =
      (s, s.lookup cfg sid fun r' => .lockCheck (s.states r).client args heldStates r') := by
    simp [Shared.exec, Shared.lockState, hopen, hlock]
  refine answered_old_lookup hepoch hspecial hfind hzero hold (by simp) hexec ?_ ⟨htype, rfl, hfile⟩
  simp [Frame.quotes, hopen, hlock]

/-- A request that quotes an old sequence id of a record is answered OLD_STATEID. -/
theorem answered_old {a : UInt64} {op : StateidOp} {x : Answer} (haccepts : s.Accepts cfg a sid r op) :
    Answered cfg s (op.frame a sid) x ↔ x = .status .oldStateid := by
  cases op with
  | io file need =>
    have hexec : ∀ input, s.exec cfg input ((StateidOp.io file need).frame a sid) =
        (s, s.lookup cfg sid fun r => .ioCheck r sid a file need) := by
      simp [Shared.exec, StateidOp.frame, Shared.checkIo, hspecial]
    exact answered_old_lookup hepoch hspecial hfind hzero hold (by simp [StateidOp.frame]) hexec rfl haccepts
  | openDowngrade | close | locku =>
    exact answered_old_lookup hepoch hspecial hfind hzero hold (by simp [StateidOp.frame]) (fun _ => rfl) rfl haccepts
  | lock file exclusive reclaim range newOwner owner =>
    obtain ⟨hgates, htype, hclient, hfile⟩ := haccepts
    have hgate : Answered cfg s ((StateidOp.lock file exclusive reclaim range newOwner owner).frame a sid) x ↔
        x = .status ((s.lockRefusal cfg a file reclaim).getD .oldStateid) := by
      refine answered_lock fun c hc => ?_
      obtain rfl := Option.some.inj (hclient.symm.trans hc)
      apply answered_old_lockState hepoch hspecial hfind hzero hold <;> first | rfl | assumption
    rwa [hgates] at hgate
  | freeStateid | delegreturn | testStateid => exact haccepts.elim

end Requests

theorem Stateid.not_special {sid : Stateid} (hzero : sid.seqid ≠ 0) (hmax : sid.seqid ≠ 0xffffffff) :
    sid.isSpecial = false := by
  simp only [isSpecial, isAllZero, isAllOne, Bool.or_eq_false_iff, beq_eq_false_iff_ne]
  exact ⟨fun h => hzero (congrArg seqid h), fun h => hmax (congrArg seqid h)⟩

/-- In runs in which no request increments the sequence id of a record while another has still to read it back,
the answers for a record increase. In every state after the later answer, a request that quotes the earlier one is
answered OLD_STATEID, and so is one that has looked its record up already, when it comes to the check. -/
theorem seqids_advance (cfg : Config) (first second third : List (Machine.Event Frame Input)) (i j : Nat)
    (input input' : Input) (r : StateRef) (n n' : UInt32)
    (hrun : bumpsAlone.Permits (server cfg) boot
      (first ++ Machine.Event.step i input :: (second ++ Machine.Event.step j input' :: third)))
    (hfirst : Answers cfg ((server cfg).run boot first) i input r n)
    (hsecond : Answers cfg ((server cfg).run boot (first ++ Machine.Event.step i input :: second)) j input' r n') :
    let s := ((server cfg).run boot (first ++ Machine.Event.step i input :: (second ++ Machine.Event.step j input' :: third))).state
    n ≠ 0 ∧ n < n' ∧
      (∀ sid a op, sid.seqid = n → sid.other.epoch = cfg.epoch32 → s.table.find sid.other = some r →
        s.Accepts cfg a sid r op → ∀ x, Answered cfg s (op.frame a sid) x ↔ x = .status .oldStateid) ∧
      ∀ f input, f.quotes = some (r, n) → s.Names f → s.exec cfg input f = (s, [.reply (.status .oldStateid)]) := by
  intro s
  have hsince : ∀ {c : Machine.Config Shared Frame} {m : UInt32} {events : List (Machine.Event Frame Input)},
      Since cfg r m c.state c.frames → bumpsAlone.Permits (server cfg) c events →
      Since cfg r m ((server cfg).run c events).state ((server cfg).run c events).frames := fun h hrun =>
    Machine.run_invariant (fun _ _ _ h hf => h.spawn hf) (fun _ _ _ _ input h hrule => h.step hrule input) h hrun
  obtain ⟨hrun₁, hrun₂⟩ := Machine.Rules.permits_append.mp hrun
  have hinv : SeqInv cfg ((server cfg).run boot first).state ((server cfg).run boot first).frames :=
    Machine.run_invariant (fun _ _ _ h hf => h.spawn hf) (fun _ _ _ _ input h hrule => h.step hrule input)
      (SeqInv.boot cfg) hrun₁
  obtain ⟨hstart, hzero⟩ := Since.of_answer hinv hfirst
  obtain ⟨hrun₃, hrun₄⟩ := Machine.Rules.permits_append.mp hrun₂.2
  have hmiddle := hsince hstart hrun₃
  rw [Machine.run_append, Machine.run_cons] at hsecond
  obtain ⟨hafter, -⟩ := Since.of_answer hmiddle.inv hsecond
  have hless : n < n' := by
    obtain ⟨f, rest, a, htask, howes, hreply, hn⟩ := hsecond
    rw [(Shared.seqid_of_reply howes hreply hn).1]
    exact hmiddle.pending (List.mem_filterMap.mpr ⟨f, Machine.Config.mem_frames htask, howes⟩)
  have hfinal := hsince hafter hrun₄.2
  have hold : n < (s.states r).seqid := by
    refine UInt32.lt_of_lt_of_le hless ?_
    simpa only [s, Machine.run_append, Machine.run_cons] using hfinal.later
  refine ⟨hzero, hless, ?_, fun f input hquotes hnames => Shared.refuses_old input hquotes hnames hzero hold⟩
  rintro sid a op rfl hepoch hfind haccepts x
  have hmax : sid.seqid ≠ 0xffffffff := by
    intro hmax
    rw [hmax] at hold
    lia
  exact answered_old hepoch (Stateid.not_special hzero hmax) hfind hzero hold haccepts

/-! ### Two OPENs by one owner -/

def seqidFile : FileKey := ⟨1, ⟨[1], length_one_le⟩⟩

def reopen : Frame := .openState { clientid := 0x100000001, file := seqidFile, owner := [97], access := 1, deny := 0 }

/-- A client has opened the file; its reply is about to be sent. -/
def openedOnce : List (Machine.Event Frame Input) := join 0 [65] 0x100000001 ++ request 3 reopen 6

/-- The stateid of the file's open. -/
def reopened (seqid : UInt32) : Stateid := ⟨seqid, 1, 1, 1⟩

theorem seqids_advance_on_reopen :
    let s := ((server {}).run boot (openedOnce ++ Machine.Event.step 3 ({} : Input) :: (request 4 reopen 4 ++ Machine.Event.step 4 ({} : Input) :: []))).state
    ∀ op ∈ [StateidOp.close (some seqidFile), .io seqidFile 1, .lock seqidFile false false ⟨0, 1⟩ true []],
      ∀ x, Answered {} s (op.frame 0x100000001 (reopened 1)) x ↔ x = .status .oldStateid := by
  have hfirst : Answers {} ((server {}).run boot openedOnce) 3 {} 0 1 :=
    ⟨.openReply 0 false, [], .opened (reopened 1) false, by decide +kernel, rfl, by decide +kernel, rfl⟩
  have hsecond : Answers {} ((server {}).run boot (openedOnce ++ Machine.Event.step 3 ({} : Input) :: request 4 reopen 4)) 4 {} 0 2 :=
    ⟨.openReply 0 true, [], .opened (reopened 2) true, by decide +kernel, rfl, by decide +kernel, rfl⟩
  obtain ⟨-, -, hrefused, -⟩ :=
    seqids_advance {} openedOnce (request 4 reopen 4) [] 3 4 {} {} 0 1 2 (by decide +kernel) hfirst hsecond
  intro s op hop
  refine hrefused (reopened 1) 0x100000001 op rfl (by decide) (by decide +kernel) ?_
  fin_cases hop <;> simp only [Shared.Accepts, Shared.Names] <;> decide +kernel

/-- Two more OPENs have both incremented the sequence id when the first of them reads it back. -/
theorem seqids_repeat_on_concurrent_reopens :
    let events := openedOnce ++ [Machine.Event.step 3 ({} : Input), .step 3 {}] ++ request 4 reopen 4 ++ request 5 reopen 4 ++
      [Machine.Event.step 4 ({} : Input), .step 5 {}]
    let c := (server {}).run boot events
    anyRun.Permits (server {}) boot events ∧ c.tasks[4]? = some [Frame.reply (.opened (reopened 3) true)] ∧
      c.tasks[5]? = some [Frame.reply (.opened (reopened 3) true)] := by
  intro events c
  exact ⟨by decide +kernel, by decide +kernel, by decide +kernel⟩

end LightNfs
