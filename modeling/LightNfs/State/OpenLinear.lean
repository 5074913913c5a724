import LightNfs.State.OpenCalls

/-!
# OPEN and CLOSE linearize

Each call of OPEN, OPEN_DOWNGRADE and CLOSE takes effect in one section: the arbitration, the write of the new bits,
the section that marks the record closed. With the stages of a call this makes the server a simulation of the
sequential object.
-/

namespace LightNfs

open Function

/-! ### A call takes effect -/

namespace Shared

variable {cfg : Config} {s : Shared} {r : StateRef}

theorem openTable_modState (s : Shared) (r : StateRef) (g : StateRec → StateRec)
    (hg : (g (s.states r)).type = (s.states r).type ∧ (g (s.states r)).closed = (s.states r).closed ∧
      (g (s.states r)).client = (s.states r).client) (hopen : (s.openTable r).isSome) :
    (s.modState r g).openTable = update s.openTable r (some ((s.modState r g).openEntry r)) := by
  obtain ⟨e, he⟩ := Option.isSome_iff_exists.mp hopen
  obtain ⟨⟨hr, htype, hlive⟩, -⟩ := openTable_eq_some.mp he
  funext q
  by_cases hq : q = r
  · subst hq
    rw [update_self]
    have hdead : (s.modState q g).dead q = s.dead q := by simp [dead, holder, modState, hg.2.1, hg.2.2]
    refine openTable_eq_some.mpr ⟨⟨hr, ?_, ?_⟩, rfl⟩
    · simpa [modState, hg.1] using htype
    · rwa [← not_dead_iff, hdead, not_dead_iff]
  · rw [update_of_ne hq]
    simp [openTable, openEntry, dead, holder, modState, hq]

theorem openTable_create (s : Shared) (c : ClientRef) (args : OpenArgs) :
    (s.openCreate cfg c args).openTable =
      if (s.clients c).expired = true then s.openTable
      else update s.openTable s.stateRefs (some
        { clientid := (s.clients c).clientid, file := args.file, owner := args.owner, other := s.newOther cfg .kOpen
          access := args.access, deny := args.deny, seqid := 1 }) := by
  have hnew : s.openTable s.stateRefs = none := openTable_eq_none fun h => Nat.lt_irrefl _ h.1
  have hold : ∀ {q}, q ≠ s.stateRefs → (s.openCreate cfg c args).openTable q = s.openTable q := by
    intro q hq
    have hlt : q < s.stateRefs + 1 ↔ q < s.stateRefs := by omega
    simp [openTable, openEntry, dead, holder, openCreate, publish, hq, hlt]
  have hthis : (s.openCreate cfg c args).openTable s.stateRefs =
      if (s.clients c).expired = true then none
      else some { clientid := (s.clients c).clientid, file := args.file, owner := args.owner
                  other := s.newOther cfg .kOpen, access := args.access, deny := args.deny, seqid := 1 } := by
    cases hexp : (s.clients c).expired with
    | true => simp [openTable, dead, holder, openCreate, publish, hexp]
    | false =>
      simp only [openTable, openEntry, dead, holder, openCreate, publish, StateRec.key, update_self, hexp]
      simp
  funext q
  by_cases hq : q = s.stateRefs
  · subst hq
    rw [hthis]
    split
    · exact hnew.symm
    · rw [update_self]
  · rw [hold hq]
    split
    · rfl
    · rw [update_of_ne hq]

theorem openArbitrate_cases (s : Shared) (cfg : Config) (c : ClientRef) (args : OpenArgs) (attempt : Nat) :
    (∃ next, s.openArbitrate cfg c args attempt = (s, next) ∧
      ((∀ g ∈ next, g.Chore s.tables) ∨
        ∃ clientid, next = [.expireClient clientid .conflict, .openArbitrate c args (attempt + 1)])) ∨
    (∃ r, s.openArbitrate cfg c args attempt = (s.openMerge args r, [.openReply r true]) ∧ s.tables.Admits c args ∧
      s.merges c args = some r) ∨
    s.openArbitrate cfg c args attempt = (s.openCreate cfg c args, [.openInsert c s.stateRefs]) ∧
      s.tables.Admits c args ∧ ∀ r ∈ (s.fileAt args.file).opens, s.tables.Live r →
        ¬((s.states r).client = c ∧ (s.states r).owner = args.owner) := by
  unfold openArbitrate
  dsimp only
  split
  · next clientid hcourtesy =>
    split
    · exact Or.inl ⟨_, rfl, Or.inl fun g hg => by rw [List.mem_singleton.mp hg]; rfl⟩
    · exact Or.inl ⟨_, rfl, Or.inr ⟨clientid, rfl⟩⟩
  · next hcourtesy =>
    split
    · exact Or.inl ⟨_, rfl, Or.inl fun g hg => by rw [List.mem_singleton.mp hg]; rfl⟩
    · next hdenied =>
      obtain ⟨hadmits, -, hnone⟩ := arbitrate_granted (Bool.eq_false_iff.mpr hdenied) hcourtesy
      split
      · refine Or.inl ⟨_, rfl, Or.inl (List.forall_mem_append.mpr ⟨?_, fun g hg => ?_⟩)⟩
        · exact List.forall_mem_map.mpr fun _ _ => trivial
        · rw [List.mem_singleton.mp hg]
          rfl
      · next hdelegs =>
        split
        · next r hr =>
          have hmerges : s.merges c args = some r := (merges_eq hcourtesy hdenied hdelegs).trans hr
          exact Or.inr (Or.inl ⟨r, rfl, hadmits, hmerges⟩)
        · next hr => exact Or.inr (Or.inr ⟨rfl, hadmits, (hnone hr).2⟩)

end Shared

/-- A pending call stays pending, or takes effect and is done. -/
def Advances (s : Shared) (f : Frame) (q : OpenCall) (s' : Shared) (st : List Frame) : Prop :=
  openObserver.answer f = none ∧
    (Machine.Bystands openObserver openObject Shared.openTable s f s' ∧ s'.Staged (s'.Pending q) st ∨
      openObserver.event s f s' = none ∧ ∃ a, openObject.call s.openTable q a s'.openTable ∧ s'.Staged (s'.Done a) st)

section Own

variable {cfg : Config} {s : Shared} {fs : List Frame} {f : Frame} {q : OpenCall} {r : StateRef}
variable {sid : Stateid} {c : ClientRef} {clientid : UInt64} {expect : Option FileKey}
variable {args : OpenArgs}

theorem OpenInv.stays (h : OpenInv cfg s fs) (hmem : f ∈ fs) (input : Input) (hpassive : f.Passive s.tables)
    (hanswer : openObserver.answer f = none) {st : List Frame}
    (hst : (s.exec cfg input f).1.Staged ((s.exec cfg input f).1.Pending q) st) :
    Advances s f q (s.exec cfg input f).1 st :=
  ⟨hanswer, Or.inl ⟨Shared.bystands h hmem input hpassive, hst⟩⟩

theorem OpenInv.admits (h : OpenInv cfg s fs) (hcaller : s.tables.Caller c args.clientid)
    (hadmits : s.tables.Admits c args) :
    OpenTable.Admits s.openTable args.clientid args.file args.owner args.access args.deny := by
  intro q e he hfile hdiff
  obtain ⟨⟨hq, htype, hlive⟩, rfl⟩ := Shared.openTable_eq_some.mp he
  refine hadmits.compatible h.filed ⟨hq, htype, hfile, hlive⟩ fun hsame => hdiff ⟨?_, hsame.2.symm⟩
  have hclient : (s.states q).client = c := hsame.1.symm
  show (s.clients (s.states q).client).clientid = _
  rw [hclient]
  exact hcaller.1.2

theorem OpenInv.merge (h : OpenInv cfg s fs) (hcaller : s.tables.Caller c args.clientid)
    (hadmits : s.tables.Admits c args) (hr : r ∈ (s.fileAt args.file).opens) (hlive : s.tables.Live r)
    (hclient : (s.states r).client = c) (howner : (s.states r).owner = args.owner)
    (hmax : (s.states r).seqid ≠ 0xffffffff) :
    OpenCall.Effect s.openTable (openOf args) (.opened ((s.openMerge args r).stateid r) true)
      (s.openMerge args r).openTable := by
  obtain ⟨hlt, htype, hkey⟩ := h.live.tables.files args.file .kOpen r hr
  have hentry : s.openTable r = some (s.openEntry r) := Shared.openTable_eq_some.mpr ⟨⟨hlt, htype, hlive⟩, rfl⟩
  have hid : (s.openEntry r).clientid = args.clientid := by
    show (s.clients (s.states r).client).clientid = _
    rw [hclient]
    exact hcaller.1.2
  have hfile : (s.openEntry r).file = args.file := hkey
  have hown : (s.openEntry r).owner = args.owner := howner
  have htable : (s.openMerge args r).openTable = update s.openTable r
      (some { s.openEntry r with
        access := (s.openEntry r).access ||| args.access, deny := (s.openEntry r).deny ||| args.deny
        seqid := (s.openEntry r).seqid + 1 }) := by
    rw [Shared.openMerge, Shared.openTable_modState s r _ ⟨rfl, rfl, rfl⟩ (by rw [hentry]; rfl)]
    simp [Shared.openEntry, Shared.holder, Shared.modState, StateRec.key]
  have hanswer : (s.openMerge args r).stateid r = ⟨(s.openEntry r).seqid + 1, (s.openEntry r).other⟩ := by
    simp [Shared.stateid, Shared.openMerge, Shared.modState, Shared.openEntry]
  rw [htable, hanswer, openOf, ← hid, ← hfile, ← hown]
  refine .merge hentry hmax ?_
  rw [hid, hfile, hown]
  exact h.admits hcaller hadmits

theorem OpenInv.create (h : OpenInv cfg s fs) (hcaller : s.tables.Caller c args.clientid)
    (hadmits : s.tables.Admits c args)
    (hnone : ∀ r ∈ (s.fileAt args.file).opens, s.tables.Live r →
      ¬((s.states r).client = c ∧ (s.states r).owner = args.owner)) (hexp : (s.clients c).expired = false) :
    OpenCall.Effect s.openTable (openOf args) (.opened ⟨1, s.newOther cfg .kOpen⟩ false)
      (s.openCreate cfg c args).openTable := by
  have hid : (s.clients c).clientid = args.clientid := hcaller.1.2
  rw [Shared.openTable_create, if_neg (by simp [hexp]), hid]
  refine .create (Shared.openTable_eq_none fun hopen => Nat.lt_irrefl _ hopen.1) (fun r e he hsame => ?_)
    (h.admits hcaller hadmits)
  obtain ⟨⟨hlt, htype, hlive⟩, rfl⟩ := Shared.openTable_eq_some.mp he
  obtain ⟨hclientid, hfile, howner⟩ := hsame
  have hlisted := h.filed r hlt hlive.1
  have hkey : (s.tables.states r).key = args.file := hfile
  have hkind : (s.tables.states r).type = .kOpen := htype
  rw [Tables.Listed, hkey, hkind] at hlisted
  refine hnone r hlisted hlive ⟨?_, howner⟩
  exact h.indexed.unique _ _ (h.live.tables.records r hlt).1 hcaller.1.1 (hclientid.trans hid.symm)

theorem OpenInv.arbitrate (h : OpenInv cfg s fs) {attempt : Nat}
    (hmem : .openArbitrate c args attempt ∈ fs) (input : Input)
    (hrule : s.Exclusive (fs.erase (.openArbitrate c args attempt)) (.openArbitrate c args attempt)) :
    Advances s (.openArbitrate c args attempt) (openOf args) (s.exec cfg input (.openArbitrate c args attempt)).1
      (s.exec cfg input (.openArbitrate c args attempt)).2 := by
  have hcaller : s.tables.Caller c args.clientid := h.live.frames _ hmem
  refine ⟨rfl, ?_⟩
  simp only [Shared.exec]
  rcases s.openArbitrate_cases cfg c args attempt with ⟨next, heq, hnext⟩ | ⟨r, heq, hadmits, hmerges⟩ | ⟨heq, hadmits, hnone⟩
  · rw [heq]
    refine Or.inl ⟨Or.inl ⟨rfl, rfl⟩, ?_⟩
    rcases hnext with hchores | ⟨clientid, rfl⟩
    · exact .refused hchores
    · refine ⟨[.expireClient clientid .conflict], [.openArbitrate c args (attempt + 1)], rfl, ?_, ?_⟩
      · exact List.forall_mem_singleton.mpr trivial
      · exact .opening (Or.inr ⟨c, Or.inr (Or.inr ⟨attempt + 1, rfl⟩)⟩)
  · obtain ⟨hr, hlive, hclient, howner⟩ := Shared.merges_spec hmerges
    obtain ⟨hlt, htype, -⟩ := h.live.tables.files args.file .kOpen r hr
    have hsettled : s.Settled _ r := hrule r hmerges
    rw [heq]
    refine Or.inr ⟨rfl, _, h.merge hcaller hadmits hr hlive hclient howner hsettled.2.2, .act (.opened ?_ ?_ rfl)⟩
    · exact hlt
    · have hkind : (s.states r).type = .kOpen := htype
      simpa [Shared.openMerge, Shared.modState] using hkind
  · rw [heq]
    cases hexp : (s.clients c).expired with
    | true =>
      refine Or.inl ⟨Or.inl ⟨rfl, ?_⟩, .act (.late (Or.inl rfl) hexp)⟩
      rw [Shared.openTable_create, if_pos hexp]
    | false =>
      refine Or.inr ⟨rfl, _, h.create hcaller hadmits hnone hexp, .act (.placed (Or.inl rfl) hexp ?_ ?_)⟩
      · simp [Shared.openEntry, Shared.openCreate, Shared.publish]
      · simp [Shared.openEntry, Shared.openCreate, Shared.publish]

theorem OpenInv.unlink (h : OpenInv cfg s fs) (input : Input)
    (hrule : s.Exclusive (fs.erase (.unlinkState r true false)) (.unlinkState r true false))
      (hchecked : s.Checked r sid clientid expect) :
    Advances s (.unlinkState r true false) (.close sid clientid expect) (s.exec cfg input (.unlinkState r true false)).1
      ((s.exec cfg input (.unlinkState r true false)).2 ++ [Frame.closeReply r sid.other]) := by
  have hlive : s.tables.Live r := (Shared.not_dead_iff s r).mp ((hrule hchecked.type).1 ⟨rfl, rfl⟩)
  have hentry : s.openTable r = some (s.openEntry r) :=
    Shared.openTable_eq_some.mpr ⟨⟨hchecked.known, hchecked.type, hlive⟩, rfl⟩
  have hopen : (s.states r).closed = false := hlive.1
  have htable := Shared.openTable_unlink h.live.tables input hchecked.known true false
  have hkept := Shared.openEntry_kept (f := .unlinkState r true false) h.live.tables hchecked.known input (by simp [Shared.bumped])
  obtain ⟨hlt, htype, -⟩ := Shared.known_kept cfg hchecked.known input (.unlinkState r true false)
  have hclosed : ((s.exec cfg input (.unlinkState r true false)).1.states r).closed = true := by
    simp [Shared.exec, Shared.unlinkState, hopen, Shared.modState]
  have hnext : (s.exec cfg input (.unlinkState r true false)).2 = [.unlinkFile r true false] := by
    simp [Shared.exec, Shared.unlinkState, hopen]
  refine ⟨rfl, Or.inr ⟨rfl, .stateid ⟨(s.openEntry r).seqid + 1, sid.other⟩, ?_, ?_⟩⟩
  · rw [htable]
    exact .close hentry hchecked.quoted
  · rw [hnext]
    refine ⟨[.unlinkFile r true false], [.closeReply r sid.other], rfl, List.forall_mem_singleton.mpr trivial, ?_⟩
    exact .closed hlt (htype.trans hchecked.type) hclosed (by rw [hkept])

theorem Shared.advances_downgrade (hrule : s.Exclusive (fs.erase f) f) (input : Input) {access deny : ShareBits}
    (hf : f = .downgradeWrite r sid.other access deny)
    (hchecked : s.Checked r sid clientid expect)
    (hnarrow : access ≠ 0 ∧ access &&& ~~~(s.openEntry r).access = 0 ∧ deny &&& ~~~(s.openEntry r).deny = 0) :
    Advances s f (.downgrade sid clientid access deny expect) (s.exec cfg input f).1 (s.exec cfg input f).2 := by
  subst hf
  obtain ⟨hdead, hsettled⟩ := hrule
  have hlive : s.tables.Live r := (Shared.not_dead_iff s r).mp hdead
  have hentry : s.openTable r = some (s.openEntry r) :=
    Shared.openTable_eq_some.mpr ⟨⟨hchecked.known, hchecked.type, hlive⟩, rfl⟩
  have htable : (s.downgradeWrite r access deny).openTable = update s.openTable r
      (some { s.openEntry r with access := access, deny := deny, seqid := (s.openEntry r).seqid + 1 }) := by
    rw [Shared.downgradeWrite, Shared.openTable_modState s r _ ⟨rfl, rfl, rfl⟩ (by rw [hentry]; rfl)]
    simp [Shared.openEntry, Shared.holder, Shared.modState, StateRec.key]
  refine ⟨rfl, Or.inr ⟨rfl, .stateid ⟨(s.openEntry r).seqid + 1, sid.other⟩, ?_, .act (.narrowed hchecked.known ?_ ?_)⟩⟩
  · show OpenCall.Effect _ _ _ (s.downgradeWrite r access deny).openTable
    rw [htable]
    exact .downgrade hentry hchecked.quoted hsettled.2.2 hnarrow
  · simpa [Shared.exec, Shared.downgradeWrite, Shared.modState] using hchecked.type
  · simp [Shared.exec, Shared.downgradeWrite, Shared.modState, Shared.openEntry]

theorem OpenInv.lookup (h : OpenInv cfg s fs) {next : StateRef → Frame}
    (hnext : ∀ r, r < s.stateRefs → (s.states r).other = sid.other → s.Pending q [next r]) :
    s.Staged (s.Pending q) (s.lookup cfg sid next) := by
  unfold Shared.lookup
  split
  · exact .status _
  · split
    · exact .status _
    · split
      · exact .status _
      · next r hr =>
        obtain ⟨hlt, hother⟩ := h.live.tables.table sid.other r hr
        exact .act (hnext r hlt hother)

theorem Shared.quoted_of_check
    (hother : (s.states r).other = sid.other) (hid : (s.holder r).clientid = clientid) (hfile : s.wrongFile r expect = false)
    (hseqid : s.checkSeqid r sid.seqid = .ok) : (s.openEntry r).Quoted sid clientid expect where
  other := hother
  client := hid
  file file hexpect := by
    subst hexpect
    simpa [wrongFile, openEntry] using hfile
  seqid := by
    unfold checkSeqid at hseqid
    split at hseqid
    · next hzero => exact Or.inl hzero
    · split at hseqid
      · exact absurd hseqid (by simp)
      · split at hseqid
        · exact absurd hseqid (by simp)
        · next hge hle => exact Or.inr (UInt32.le_antisymm (UInt32.not_lt.mp hle) (UInt32.not_lt.mp hge))

theorem Shared.staged_closeCheck
    (hrule : s.Exclusive (fs.erase f) f) (hf : f = .closeCheck r sid clientid expect) (hid : clientid ≠ 0)
    (hr : r < s.stateRefs) (hother : (s.states r).other = sid.other) :
    s.Staged (s.Pending (.close sid clientid expect)) (s.closeCheck r sid clientid expect) := by
  subst hf
  unfold Shared.closeCheck
  split
  · exact .status _
  · next howns =>
    split
    · exact .status _
    · next hseqid =>
      simp only [ne_eq, hid, not_false_eq_true, true_and, not_or, not_not, Bool.not_eq_true] at howns hseqid
      exact .act (.closeUnlink ⟨hr, hrule, Shared.quoted_of_check hother howns.1 howns.2 hseqid⟩)

theorem Shared.staged_downgradeCheck {access deny : ShareBits}
    (hr : r < s.stateRefs) (hother : (s.states r).other = sid.other) :
    s.Staged (s.Pending (.downgrade sid clientid access deny expect))
      (s.downgradeCheck r sid clientid access deny expect) := by
  unfold Shared.downgradeCheck
  split
  · exact .status _
  · next howns =>
    split
    · exact .status _
    · next hseqid =>
      split
      · exact .status _
      · next hbits =>
        simp only [ne_eq, not_or, not_not, Bool.not_eq_true] at howns hseqid hbits
        exact .act (.downgradeWrite ⟨hr, howns.2.1, Shared.quoted_of_check hother howns.1 howns.2.2 hseqid⟩ hbits)

theorem Shared.staged_opening (input : Input)
    (hf : f = .openState args ∨ ∃ c, f = .openGate c args ∨ ∃ done held, f = .openGrace c args done held) :
    (s.exec cfg input f).1.Staged ((s.exec cfg input f).1.Pending (openOf args)) (s.exec cfg input f).2 := by
  obtain rfl | ⟨c, rfl | ⟨done, held, rfl⟩⟩ := hf
  · simp only [Shared.exec, Shared.openState]
    split
    · exact .status _
    · next c hc =>
      split
      · exact .status _
      · split
        · exact .status _
        · exact .act (.opening (Or.inr ⟨c, Or.inl rfl⟩))
  · exact .act (.opening (Or.inr ⟨c, Or.inr (Or.inl ⟨_, _, rfl⟩)⟩))
  · simp only [Shared.exec, Shared.openGrace]
    split
    · exact .status _
    · split
      · exact .status _
      · split
        · exact .status _
        · split
          · exact .status _
          · split
            · exact .status _
            · exact .act (.opening (Or.inr ⟨c, Or.inr (Or.inr ⟨0, rfl⟩)⟩))

theorem Shared.staged_claiming :
    s.Staged (s.Pending (openOf args)) (s.openDelegCur cfg sid args) := by
  unfold Shared.openDelegCur
  split
  · exact .status _
  · split
    · exact .status _
    · split
      · exact .status _
      · have hsame : openOf args = openOf { args with delegClaim := true } := rfl
        rw [hsame]
        exact .act (.opening (Or.inl rfl))

theorem Shared.staged_late (input : Input)
    (hf : f = .openInsert c r ∨ f = .openTrack c r) (hexp : (s.clients c).expired = true) :
    (s.exec cfg input f).1.Staged ((s.exec cfg input f).1.Pending q) (s.exec cfg input f).2 := by
  rcases hf with rfl | rfl
  · exact .act (.late (Or.inr rfl) hexp)
  · simp only [Shared.exec, Shared.openTrack, Shared.register, hexp, if_true]
    refine .refused fun g hg => ?_
    rcases List.mem_cons.mp hg with rfl | hg
    · exact fun hfalse => absurd hfalse (by simp)
    · rw [List.mem_singleton.mp hg]
      rfl

theorem OpenInv.pending_step (h : OpenInv cfg s fs) (hmem : f ∈ fs) (input : Input) (hrule : s.Exclusive (fs.erase f) f)
    {rest : List Frame} (hrest : ∀ g ∈ rest, g ∈ fs.erase f) (hst : s.Staged (s.Pending q) (f :: rest)) :
    Advances s f q (s.exec cfg input f).1 ((s.exec cfg input f).2 ++ rest) := by
  obtain ⟨noise, act, heq, hnoise, hact⟩ := hst
  cases noise with
  | cons g noise =>
    obtain ⟨rfl, rfl⟩ := List.cons.inj heq
    have hchore := hnoise f (List.mem_cons_self ..)
    refine h.stays hmem input hchore.passive ?_ (h.staged_chore input hrest
      (fun act hact hpending => h.pending_kept hmem input hrule hact hpending) hchore
      (fun g hg => hnoise g (List.mem_cons_of_mem f hg)) hact)
    cases f <;> first | rfl | exact hchore
  | nil =>
    have hnil : ∀ {st : List Frame}, st = st ++ [] := (List.append_nil _).symm
    rw [List.nil_append] at heq
    subst heq
    cases hact with
    | claiming => exact h.stays hmem input trivial rfl (hnil ▸ Shared.staged_claiming)
    | opening hf =>
      rw [List.append_nil]
      obtain rfl | ⟨c, rfl | ⟨done, held, rfl⟩ | ⟨attempt, rfl⟩⟩ := hf
      · exact h.stays hmem input trivial rfl (Shared.staged_opening input (Or.inl rfl))
      · exact h.stays hmem input trivial rfl (Shared.staged_opening input (Or.inr ⟨c, Or.inl rfl⟩))
      · exact h.stays hmem input trivial rfl (Shared.staged_opening input (Or.inr ⟨c, Or.inr ⟨done, held, rfl⟩⟩))
      · exact h.arbitrate hmem input hrule
    | late hf hexp =>
      rw [List.append_nil]
      refine h.stays hmem input ?_ ?_ (Shared.staged_late input hf hexp)
      · rcases hf with rfl | rfl <;> exact trivial
      · rcases hf with rfl | rfl <;> rfl
    | closing hid =>
      rw [List.append_nil]
      exact h.stays hmem input trivial rfl (h.lookup fun r hr hother => .closeCheck hid hr hother)
    | closeCheck hid hr hother =>
      rw [List.append_nil]
      exact h.stays hmem input trivial rfl (Shared.staged_closeCheck hrule rfl hid hr hother)
    | closeUnlink hchecked => exact h.unlink input hrule hchecked
    | downgrading =>
      rw [List.append_nil]
      exact h.stays hmem input trivial rfl (h.lookup fun r hr hother => .downgradeCheck hr hother)
    | downgradeCheck hr hother =>
      rw [List.append_nil]
      exact h.stays hmem input trivial rfl (Shared.staged_downgradeCheck hr hother)
    | downgradeWrite hchecked hnarrow =>
      rw [List.append_nil]
      exact Shared.advances_downgrade hrule input rfl hchecked hnarrow

theorem OpenInv.placed_step (h : OpenInv cfg s fs) (hmem : f ∈ fs) (input : Input) {a : Answer}
    (hf : f = .openInsert c r ∨ f = .openTrack c r) (hexp : (s.clients c).expired = false)
    (hseqid : (s.openEntry r).seqid = 1) (ha : a = .opened ⟨1, (s.openEntry r).other⟩ false) :
    openObserver.answer f = none ∧
      (s.exec cfg input f).1.Staged ((s.exec cfg input f).1.Done a) (s.exec cfg input f).2 := by
  have hstate : s.tables.State r c .kOpen := by
    have hwf := h.live.frames f hmem
    rcases hf with rfl | rfl
    · exact hwf
    · exact hwf
  have hentry : (s.exec cfg input f).1.openEntry r = s.openEntry r := by
    refine Shared.openEntry_kept h.live.tables hstate.1 input ?_
    rcases hf with rfl | rfl <;> simp [Shared.bumped]
  obtain ⟨hlt, htype, -⟩ := Shared.known_kept cfg hstate.1 input f
  rcases hf with rfl | rfl
  · exact ⟨rfl, .act (.placed (Or.inr rfl) hexp (hentry ▸ hseqid) (hentry ▸ ha))⟩
  · have hopened : (s.exec cfg input (.openTrack c r)).1.Done a [.openReply r false] :=
      .opened hlt (htype.trans hstate.2.2) (by rw [hentry, hseqid]; exact ha)
    refine ⟨rfl, ?_⟩
    have hnext : (s.exec cfg input (.openTrack c r)).2 = [.openReply r false] ∨
        ∃ fsid ownerId, (s.exec cfg input (.openTrack c r)).2 = [.persistFsClient fsid ownerId, .openReply r false] := by
      simp only [Shared.exec, Shared.openTrack, Shared.register, hexp, Bool.false_eq_true, if_false]
      split
      · exact Or.inr ⟨_, _, rfl⟩
      · exact Or.inl rfl
    rcases hnext with heq | ⟨fsid, ownerId, heq⟩
    · rw [heq]
      exact .act hopened
    · rw [heq]
      exact ⟨[.persistFsClient fsid ownerId], [.openReply r false], rfl, List.forall_mem_singleton.mpr trivial, hopened⟩

theorem OpenInv.done_step (h : OpenInv cfg s fs) (hmem : f ∈ fs) (input : Input) (hrule : s.Exclusive (fs.erase f) f)
    {a : Answer} {rest : List Frame} (hrest : ∀ g ∈ rest, g ∈ fs.erase f) (hst : s.Staged (s.Done a) (f :: rest)) :
    Machine.Bystands openObserver openObject Shared.openTable s f (s.exec cfg input f).1 ∧
      (openObserver.answer f = none ∧
          (s.exec cfg input f).1.Staged ((s.exec cfg input f).1.Done a) ((s.exec cfg input f).2 ++ rest) ∨
        openObserver.answer f = some a ∧ (s.exec cfg input f).2 ++ rest = []) := by
  obtain ⟨noise, act, heq, hnoise, hact⟩ := hst
  cases noise with
  | cons g noise =>
    obtain ⟨rfl, rfl⟩ := List.cons.inj heq
    have hchore := hnoise f (List.mem_cons_self ..)
    refine ⟨Shared.bystands h hmem input hchore.passive, Or.inl ⟨?_, h.staged_chore input hrest
      (fun act hact hdone => h.done_kept hmem input hrule hact hdone) hchore
      (fun g hg => hnoise g (List.mem_cons_of_mem f hg)) hact⟩⟩
    cases f <;> first | rfl | exact hchore
  | nil =>
    rw [List.nil_append] at heq
    subst heq
    cases hact with
    | placed hf hexp hseqid ha =>
      rw [List.append_nil]
      exact ⟨Shared.bystands h hmem input (by rcases hf with rfl | rfl <;> exact trivial),
        Or.inl (h.placed_step hmem input hf hexp hseqid ha)⟩
    | opened hr htype ha =>
      exact ⟨Shared.bystands h hmem input trivial, Or.inl ⟨rfl, .act (ha ▸ .reply rfl)⟩⟩
    | closed hr htype hclosed ha =>
      exact ⟨Shared.bystands h hmem input trivial, Or.inl ⟨rfl, .act (ha ▸ .reply rfl)⟩⟩
    | narrowed hr htype ha =>
      exact ⟨Shared.bystands h hmem input trivial, Or.inl ⟨rfl, .act (ha ▸ .reply rfl)⟩⟩
    | reply ha => exact ⟨Shared.bystands h hmem input trivial, Or.inr ⟨ha, rfl⟩⟩

end Own

/-! ### The simulation -/

theorem Shared.not_done_nil (s : Shared) (a : Answer) : ¬s.Staged (s.Done a) [] := by
  rintro ⟨noise, act, heq, -, hdone⟩
  obtain ⟨-, rfl⟩ := List.append_eq_nil_iff.mp heq.symm
  cases hdone

theorem Frame.outside_of_request {f : Frame} (hf : f.Request) (hcall : openObserver.call f = none) (t : Tables) :
    f.Outside t := by
  cases f <;> first | exact trivial | exact hf.elim | cases hcall

theorem Shared.pending_of_request {f : Frame} (s : Shared) (hf : f.NamesClient) {q : OpenCall}
    (hcall : openObserver.call f = some q) : s.Staged (s.Pending q) [f] := by
  refine .act ?_
  cases f with
  | openState args => exact Option.some.inj hcall ▸ .opening (Or.inl rfl)
  | openDelegCur sid args => exact Option.some.inj hcall ▸ .claiming
  | closeState sid clientid expect => exact Option.some.inj hcall ▸ .closing hf
  | openDowngrade sid clientid access deny expect => exact Option.some.inj hcall ▸ .downgrading
  | _ => cases hcall

theorem OpenInv.outside_kept {cfg : Config} {s : Shared} {fs : List Frame} {f : Frame} (h : OpenInv cfg s fs)
    (input : Input) {st : List Frame} (hst : ∀ g ∈ st, g ∈ fs.erase f) (hout : ∀ g ∈ st, g.Outside s.tables) :
    ∀ g ∈ st, g.Outside (s.exec cfg input f).1.tables := fun g hg =>
  (hout g hg).extends (h.live.frames g (List.mem_of_mem_erase (hst g hg))) (.of_change (s.exec_change cfg input f))

/-- The sections in which OPEN, OPEN_DOWNGRADE and CLOSE take effect. -/
def openSimulation (cfg : Config) :
    Machine.Simulation (server cfg) opensExclusive openObserver openObject Shared.openTable where
  inv := OpenInv cfg
  outside s st := ∀ g ∈ st, g.Outside s.tables
  pending s q st := s.Staged (s.Pending q) st
  done s a st := s.Staged (s.Done a) st
  inv_spawn s fs f h hf := ⟨h.live.spawn hf.1, h.filed, h.indexed⟩
  inv_step s pre f post input h hrule := h.step hrule.1 input
  arrive_call s fs f q h hf hcall := s.pending_of_request hf.2 hcall
  arrive_other s fs f h hf hcall := List.forall_mem_singleton.mpr (f.outside_of_request hf.1 hcall s.tables)
  keep_outside s fs input f st h hf hrule hst hout := h.outside_kept input hst hout
  keep_pending s fs input f st q h hf hrule hst hpending :=
    h.staged_kept input hst (fun act hact hp => h.pending_kept hf input hrule.2 hact hp) hpending
  keep_done s fs input f st a h hf hrule hst hdone :=
    h.staged_kept input hst (fun act hact hd => h.done_kept hf input hrule.2 hact hd) hdone
  step_outside s fs input f rest h hf hrule hrest hout := by
    have hthis := hout f (List.mem_cons_self ..)
    refine ⟨Shared.bystands h hf input hthis.passive, List.forall_mem_append.mpr ⟨fun g hg => ?_, ?_⟩⟩
    · exact (s.exec_flow cfg input f g hg).outside h.live.tables (.of_change (s.exec_change cfg input f))
        (h.live.frames f hf) hthis
    · exact h.outside_kept input hrest fun g hg => hout g (List.mem_cons_of_mem f hg)
  step_pending s fs input f rest q h hf hrule hrest hpending := h.pending_step hf input hrule.2 hrest hpending
  step_done s fs input f rest a h hf hrule hrest hdone := h.done_step hf input hrule.2 hrest hdone
  unfinished := Shared.not_done_nil

/-- In every run in which nobody acts on an open between another request's check and its act or answer, the calls of
OPEN, OPEN_DOWNGRADE and CLOSE linearize: their answers, and the live opens at every moment, are those of calls made one
at a time, in an order in which calls that do not overlap stand as they were made. An OPEN answered with `(other, n)` names
a live open until a CLOSE that quotes 0 or at least `n`, the end of its client, or a removal by a release or a reclaim. -/
theorem opens_linearize (cfg : Config) (events : List (Machine.Event Frame Input))
    (hrun : opensExclusive.Permits (server cfg) boot events) :
    ∃ log, Machine.Linearizes (server cfg) openObserver openObject Shared.openTable {} events log ∧
      ∀ before after i clientid file owner access deny n other merged,
        log = before ++ Machine.Entry.call i (.open clientid file owner access deny) (.opened ⟨n, other⟩ merged) :: after →
        ((server cfg).run boot events).state.openTable.Names clientid other n ∨
          ∃ x ∈ after, EndsOpen clientid other n x := by
  have hinit : OpenInv cfg {} [] :=
    { live := Live.boot cfg
      filed := fun r hr => absurd hr (Nat.not_lt_zero r)
      indexed := Tables.Indexed.boot cfg }
  obtain ⟨log, hlog⟩ := (openSimulation cfg).linearizes hinit hrun
  refine ⟨log, hlog, fun before after i clientid file owner access deny n other merged heq => ?_⟩
  obtain ⟨log₁, log₂, hsplit, hend, hmoment⟩ := hlog events [] (List.append_nil events).symm
  rw [hend rfl, List.append_nil] at hsplit
  exact opened_stays (heq ▸ hsplit ▸ hmoment.performs)

/-! ### An OPEN between the check and the act of a CLOSE -/

/-- While another owner's OPEN is on its way, the first open is closed. -/
def closedMeanwhile : List (Machine.Event Frame Input) :=
  openedOnce ++ [Machine.Event.step 3 ({} : Input), .step 3 {}] ++
    request 4 (.openState { clientid := 0x100000001, file := seqidFile, owner := [98], access := 1, deny := 0 }) 5 ++
    request 5 (.closeState (reopened 1) 0x100000001 (some seqidFile)) 8 ++ List.replicate 3 (Machine.Event.step 4 ({} : Input))

theorem opens_linearize_closed_meanwhile :
    (openObserver.history (server {}) boot {} closedMeanwhile).answers =
        [(3, .opened (reopened 1) false), (5, .stateid (reopened 2)), (4, .opened ⟨1, 1, 1, 2⟩ false)] ∧
      ∃ log, Machine.Linearizes (server {}) openObserver openObject Shared.openTable {} closedMeanwhile log ∧
        ∀ before after i clientid file owner access deny n other merged,
          log = before ++ Machine.Entry.call i (.open clientid file owner access deny) (.opened ⟨n, other⟩ merged) :: after →
          ((server {}).run boot closedMeanwhile).state.openTable.Names clientid other n ∨
            ∃ x ∈ after, EndsOpen clientid other n x := by
  have hrun : opensExclusive.Permits (server {}) boot closedMeanwhile := by decide +kernel
  exact ⟨by decide +kernel, opens_linearize {} closedMeanwhile hrun⟩

/-- CLOSE has checked the seqid 1; the OPEN that merges now is answered with 2, and its open is closed. -/
def openOvertakesClose : List (Machine.Event Frame Input) :=
  openedOnce ++ [Machine.Event.step 3 ({} : Input), .step 3 {}] ++ request 4 (.closeState (reopened 1) 0x100000001 (some seqidFile)) 2 ++
    request 5 reopen 6 ++ List.replicate 6 (Machine.Event.step 4 ({} : Input))

def OpenCall.closeSeqid : OpenCall → Option UInt32
  | close sid _ _ => some sid.seqid
  | _ => none

theorem open_lost_to_overtaken_close :
    anyRun.Permits (server {}) boot openOvertakesClose ∧
      ¬∃ log, Machine.Linearizes (server {}) openObserver openObject Shared.openTable {} openOvertakesClose log ∧
        ∀ before after i clientid file owner access deny n other merged,
          log = before ++ Machine.Entry.call i (.open clientid file owner access deny) (.opened ⟨n, other⟩ merged) :: after →
          ((server {}).run boot openOvertakesClose).state.openTable.Names clientid other n ∨
            ∃ x ∈ after, EndsOpen clientid other n x := by
  refine ⟨by decide +kernel, ?_⟩
  rintro ⟨log, hlog, hnames⟩
  obtain ⟨log₁, log₂, hsplit, hend, hfinal⟩ := hlog openOvertakesClose [] (List.append_nil _).symm
  obtain rfl : log = log₁ := by rw [hsplit, hend rfl, List.append_nil]
  have hanswer : (5, .opened (reopened 2) true) ∈
      (openObserver.history (server {}) boot {} openOvertakesClose).answers := by decide +kernel
  have hrequest : (openObserver.history (server {}) boot {} openOvertakesClose).requests[5]? = some reopen := by
    decide +kernel
  obtain ⟨before, after, heq⟩ := List.append_of_mem (hfinal.answered 5 _ reopen _ hanswer hrequest rfl)
  rcases hnames before after _ _ _ _ _ _ _ _ _ heq with ⟨r, e, he, -⟩ | ⟨x, hx, hends⟩
  · have hnone : ((server {}).run boot openOvertakesClose).state.openTable r = none := by
      refine Shared.openTable_eq_none ?_
      rintro ⟨hr, -, hlive⟩
      have hrefs : ((server {}).run boot openOvertakesClose).state.stateRefs = 1 := by decide +kernel
      have hdead : ((server {}).run boot openOvertakesClose).state.dead 0 = true := by decide +kernel
      obtain rfl : r = 0 := Nat.lt_one_iff.mp (hrefs ▸ hr)
      exact absurd ((Shared.not_dead_iff _ _).mpr hlive) (by simp [hdead])
    exact absurd (hnone.symm.trans he) (by simp)
  · have hmem : x ∈ log := by
      rw [heq]
      exact List.mem_append_right _ (List.mem_cons_of_mem _ hx)
    cases x with
    | event act =>
      have hacts : (openObserver.history (server {}) boot {} openOvertakesClose).acts = [] := by decide +kernel
      have hin : act ∈ log.filterMap Machine.Entry.act := List.mem_filterMap.mpr ⟨_, hmem, rfl⟩
      rw [hfinal.acts] at hin
      exact absurd (hacts ▸ hin) List.not_mem_nil
    | call i q a =>
      cases q with
      | close sid clientid expect =>
        obtain ⟨f, hf, hcall⟩ := hfinal.arrived i _ a hmem
        have hcloses : ∀ f ∈ (openObserver.history (server {}) boot {} openOvertakesClose).requests,
            (openObserver.call f).all fun q => q.closeSeqid.all (· = 1) := by decide +kernel
        have hone : sid.seqid = 1 := by simpa [hcall, OpenCall.closeSeqid] using hcloses f (List.mem_of_getElem? hf)
        have hquoted : sid.seqid = 0 ∨ (2 : UInt32) ≤ sid.seqid := hends.2
        rw [hone] at hquoted
        exact absurd hquoted (by decide)
      | «open» | downgrade => exact hends

end LightNfs
