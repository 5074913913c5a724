import LightNfs.State.Server
import LightNfs.State.Runs

/-!
# State ids of other clients

What a client learns about a state id that is not one of its own. Two states that differ in the state
records of other clients are compared by the answer a single request gets in each of them.
-/

namespace LightNfs

/-! ### Requests that carry a state id -/

/-- The operations that quote a state id; READ, WRITE and SETATTR go through `check_io`. -/
inductive StateidOp where
  | io (file : FileKey) (need : ShareBits)
  | openDowngrade (access deny : ShareBits) (expect : Option FileKey)
  | close (expect : Option FileKey)
  | lock (file : FileKey) (exclusive reclaim : Bool) (range : LockRange) (newOwner : Bool) (owner : Bytes)
  | locku (range : LockRange) (expect : Option FileKey)
  | freeStateid
  | delegreturn (file : FileKey)
  | testStateid

/-- The call of the state manager such an operation makes for a client. -/
def StateidOp.frame (a : UInt64) (sid : Stateid) : StateidOp → Frame
  | io file need => .checkIo sid a file need
  | openDowngrade access deny expect => .openDowngrade sid a access deny expect
  | close expect => .closeState sid a expect
  | lock file exclusive reclaim range newOwner owner =>
    .lock { clientid := a, file := file, exclusive := exclusive, reclaim := reclaim, range := range,
            newOwner := newOwner, openStateid := sid, owner := owner, lockStateid := sid }
  | locku range expect => .locku sid a range expect
  | freeStateid => .freeStateid sid a
  | delegreturn file => .delegreturn sid a file
  | testStateid => .testStateid sid

/-- The request, executed alone, comes to this answer. -/
def Answered (cfg : Config) (s : Shared) (f : Frame) (x : Answer) : Prop :=
  ∃ inputs, ((server cfg).alone s f inputs).frames = [.reply x]

section Answered

variable {cfg : Config} {s s₁ : Shared} {f g : Frame} {x y : Answer}

theorem answered_reply : Answered cfg s (.reply y) x ↔ x = y := by
  constructor
  · rintro ⟨inputs, hframes⟩
    cases inputs with
    | nil => simpa [eq_comm] using hframes
    | cons input inputs =>
      rw [Machine.frames_alone_done (by simp [Shared.exec])] at hframes
      cases hframes
  · rintro rfl
    exact ⟨[], by simp⟩

theorem answered_step (hf : ∀ y, f ≠ .reply y) (hexec : ∀ input, s.exec cfg input f = (s₁, [g])) :
    Answered cfg s f x ↔ Answered cfg s₁ g x := by
  constructor
  · rintro ⟨inputs, hframes⟩
    cases inputs with
    | nil => exact absurd (by simpa using hframes) (hf x)
    | cons input inputs =>
      rw [Machine.alone_cons (m := server cfg) (hexec input)] at hframes
      exact ⟨inputs, hframes⟩
  · rintro ⟨inputs, hframes⟩
    refine ⟨{} :: inputs, ?_⟩
    rwa [Machine.alone_cons (m := server cfg) (hexec {})]

end Answered

/-! ### Whose record a state id names -/

namespace Shared

variable (cfg : Config)

/-- The record is held under the client id, or by the client the id leads to. -/
def Owns (s : Shared) (a : UInt64) (r : StateRef) : Prop :=
  (s.holder r).clientid = a ∨ s.findClient cfg a = some (s.states r).client

instance (s : Shared) (a : UInt64) (r : StateRef) : Decidable (s.Owns cfg a r) :=
  inferInstanceAs (Decidable (_ ∨ _))

/-- No record of the client is in the table under the state id. -/
def NamesNoneOf (s : Shared) (a : UInt64) (sid : Stateid) : Prop :=
  ∀ r ∈ s.table.find sid.other, ¬s.Owns cfg a r

instance (s : Shared) (a : UInt64) (sid : Stateid) : Decidable (s.NamesNoneOf cfg a sid) :=
  inferInstanceAs (Decidable (∀ r ∈ s.table.find sid.other, ¬s.Owns cfg a r))

/-- The state id names a record whose client's reclaim chain has started. -/
def namesExpired (s : Shared) (sid : Stateid) : Bool := (s.table.find sid.other).any fun r => (s.holder r).expired

/-- Two states that differ only in the state records of clients other than `a`: in the records, in the
tables and lists they are filed in, in the byte ranges held under them, and in what is counted for them. -/
structure SameButOthers (a : UInt64) (s s' : Shared) : Prop where
  rest : s' = { s with
    states := s'.states, stateRefs := s'.stateRefs, nextState := s'.nextState, table := s'.table, files := s'.files,
    clients := s'.clients, gauges := s'.gauges, locks := s'.locks, lockOwners := s'.lockOwners,
    recallWatch := s'.recallWatch, recallTasks := s'.recallTasks }
  clients : ∀ c, s'.clients c = { s.clients c with
    states := (s'.clients c).states, fsStates := (s'.clients c).fsStates, delegs := (s'.clients c).delegs }
  ownClient : ∀ c, (s.clients c).clientid = a → s'.clients c = s.clients c
  ownRecord : ∀ r, s.Owns cfg a r ∨ s'.Owns cfg a r → s'.states r = s.states r
  ownEntry : ∀ other r, s.Owns cfg a r → (s'.table.find other = some r ↔ s.table.find other = some r)
  ownFile : ∀ key type r, s.Owns cfg a r → (r ∈ (s'.fileAt key).list type ↔ r ∈ (s.fileAt key).list type)

end Shared

namespace Shared

/-- The answer of the reclaim gate of LOCK, if it refuses. -/
def reclaimRefusal (s : Shared) (c : ClientRef) (file : FileKey) (reclaim : Bool) : Option Status :=
  if reclaim ∧ (!s.inGrace file.fsid ∨ (s.clients c).reclaimComplete) then some .noGrace
  else if reclaim ∧ !s.inStableList file.fsid (s.clients c).ownerId then some .reclaimBad
  else if !reclaim ∧ (s.inGrace file.fsid ∨ !(s.clients c).reclaimComplete) then some .grace
  else none

/-- The gates LOCK passes before it looks at its state id, with the answer of the one that refuses. -/
def lockRefusal (cfg : Config) (s : Shared) (a : UInt64) (file : FileKey) (reclaim : Bool) : Option Status :=
  match s.findClient cfg a with
  | none => some .staleClientid
  | some c =>
    if !(s.clients c).confirmed then some .staleClientid
    else if (s.clients c).expired then some .expired
    else s.reclaimRefusal c file reclaim

/-- The answer to an operation whose state id is none of the caller's. -/
def foreignStatus (cfg : Config) (s : Shared) (a : UInt64) (sid : Stateid) (op : StateidOp) : Status :=
  match op with
  | .lock file _ reclaim _ _ _ =>
    (s.lockRefusal cfg a file reclaim).getD (if sid.other.epoch ≠ cfg.epoch32 then .staleStateid else .badStateid)
  | _ =>
    if sid.other.epoch ≠ cfg.epoch32 then .staleStateid
    else
      match op with
      | .testStateid => if (s.table.find sid.other).isSome then .ok else .badStateid
      | .io _ _ => if s.namesExpired sid then .expired else .badStateid
      | _ => .badStateid

end Shared

section Foreign

variable {cfg : Config} {a : UInt64} {s : Shared} {sid : Stateid} {x : Answer}

theorem answered_pass {f g : Frame} (hf : ∀ y, f ≠ .reply y) (hexec : ∀ input, s.exec cfg input f = (s, [g])) :
    Answered cfg s f x ↔ Answered cfg s g x := answered_step hf hexec

theorem answered_refused {f : Frame} {v : Status} (hf : ∀ y, f ≠ .reply y)
    (hexec : ∀ input, s.exec cfg input f = (s, [.reply (.status v)])) : Answered cfg s f x ↔ x = .status v := by
  rw [answered_pass hf hexec, answered_reply]

theorem answered_lookup {f : Frame} {next : StateRef → Frame} {v : Status} (hf : ∀ y, f ≠ .reply y)
    (hexec : ∀ input, s.exec cfg input f = (s, s.lookup cfg sid next)) (hsid : sid.isSpecial = false)
    (hnone : s.table.find sid.other = none → v = .badStateid)
    (hsome : ∀ r, s.table.find sid.other = some r → (Answered cfg s (next r) x ↔ x = .status v)) :
    Answered cfg s f x ↔ x = .status (if sid.other.epoch ≠ cfg.epoch32 then .staleStateid else v) := by
  by_cases hepoch : sid.other.epoch = cfg.epoch32
  · rw [if_neg (not_not.mpr hepoch)]
    cases hfind : s.table.find sid.other with
    | none =>
      rw [hnone hfind]
      exact answered_refused hf fun input => by simp [hexec, Shared.lookup, hsid, hepoch, hfind]
    | some r =>
      rw [answered_pass hf fun input => by simp [hexec, Shared.lookup, hsid, hepoch, hfind]; rfl]
      exact hsome r hfind
  · rw [if_pos hepoch]
    exact answered_refused hf fun input => by simp [hexec, Shared.lookup, hsid, hepoch]

theorem NamesNoneOf.noteGrace (hno : s.NamesNoneOf cfg a sid) : s.noteGrace.NamesNoneOf cfg a sid := by
  unfold Shared.noteGrace
  split
  · exact hno
  · exact hno

section Lock

variable {args : LockArgs} {v : Status}

theorem answered_lockGrace {c : ClientRef} {heldStates : Nat}
    (hstate : Answered cfg s.noteGrace (.lockState c args heldStates) x ↔ x = .status v) :
    Answered cfg s (.lockGrace c args (s.clients c).reclaimComplete heldStates) x ↔
      x = .status ((s.reclaimRefusal c args.file args.reclaim).getD v) := by
  have hexec : ∀ input, s.exec cfg input (.lockGrace c args (s.clients c).reclaimComplete heldStates) =
      (s.noteGrace, [(s.reclaimRefusal c args.file args.reclaim).elim (.lockState c args heldStates)
        fun v => .reply (.status v)]) := by
    intro input
    simp only [Shared.exec, Shared.lockGrace, Shared.reclaimRefusal]
    split_ifs <;> rfl
  rw [answered_step (by simp) hexec]
  cases s.reclaimRefusal c args.file args.reclaim with
  | some v => exact answered_reply
  | none => exact hstate

/-- LOCK comes to its state id through its gates. -/
theorem answered_lock (hstate : ∀ c, s.findClient cfg args.clientid = some c →
      (Answered cfg s.noteGrace (.lockState c args (s.clients c).states.length) x ↔ x = .status v)) :
    Answered cfg s (.lock args) x ↔
      x = .status ((s.lockRefusal cfg args.clientid args.file args.reclaim).getD v) := by
  simp only [Shared.lockRefusal]
  cases hfind : s.findClient cfg args.clientid with
  | none => exact answered_refused (by simp) (by simp [Shared.exec, Shared.lock, hfind])
  | some c =>
    by_cases hconf : (s.clients c).confirmed = true
    · by_cases hexp : (s.clients c).expired = true
      · simp only [hconf, hexp]
        exact answered_refused (by simp) (by simp [Shared.exec, Shared.lock, hfind, hconf, hexp])
      · have hgate : ∀ input, s.exec cfg input (.lock args) = (s, [.lockGate c args]) := by
          simp [Shared.exec, Shared.lock, hfind, hconf, hexp]
        rw [answered_pass (by simp) hgate, answered_pass (by simp) fun input => rfl, answered_lockGrace (hstate c hfind)]
        simp [hconf, hexp]
    · simp only [hconf]
      exact answered_refused (by simp) (by simp [Shared.exec, Shared.lock, hfind, hconf])

theorem answered_lockState (hsid : sid.isSpecial = false) (hno : s.NamesNoneOf cfg args.clientid sid)
    (hopen : args.openStateid = sid) (hlock : args.lockStateid = sid) {c : ClientRef}
    (hfind : s.findClient cfg args.clientid = some c) (heldStates : Nat) :
    Answered cfg s (.lockState c args heldStates) x ↔
      x = .status (if sid.other.epoch ≠ cfg.epoch32 then .staleStateid else .badStateid) := by
  have hexec : ∀ input, s.exec cfg input (.lockState c args heldStates) =
      (s, s.lookup cfg sid fun r => .lockCheck c args heldStates r) := by
    simp [Shared.exec, Shared.lockState, hopen, hlock]
  refine answered_lookup (by simp) hexec hsid (fun _ => rfl) fun r hr => ?_
  have hother : (s.states r).client ≠ c := fun h => hno r hr (Or.inr (h ▸ hfind))
  exact answered_refused (by simp) fun input => by simp [Shared.exec, Shared.lockCheck, hother]

end Lock

theorem answered_foreign (ha : a ≠ 0) (hsid : sid.isSpecial = false) (hno : s.NamesNoneOf cfg a sid)
    (op : StateidOp) : Answered cfg s (op.frame a sid) x ↔ x = .status (s.foreignStatus cfg a sid op) := by
  have hholder : ∀ r, s.table.find sid.other = some r → (s.holder r).clientid ≠ a := fun r hr h => hno r hr (Or.inl h)
  cases op with
  | io file need =>
    have hexec : ∀ input, s.exec cfg input ((StateidOp.io file need).frame a sid) =
        (s, s.lookup cfg sid fun r => .ioCheck r sid a file need) := by
      simp [Shared.exec, StateidOp.frame, Shared.checkIo, hsid]
    refine answered_lookup (by simp [StateidOp.frame]) hexec hsid (fun hnone => ?_) fun r hr => ?_
    · simp [Shared.namesExpired, hnone]
    · refine answered_refused (by simp) fun input => ?_
      by_cases hexp : (s.holder r).expired = true
      · simp [Shared.exec, Shared.ioCheck, Shared.namesExpired, hr, hexp]
      · simp [Shared.exec, Shared.ioCheck, Shared.namesExpired, hr, hexp, hholder r hr]
  | openDowngrade access deny expect =>
    refine answered_lookup (by simp [StateidOp.frame]) (fun input => rfl) hsid (fun _ => rfl) fun r hr => ?_
    exact answered_refused (by simp) fun input => by simp [Shared.exec, Shared.downgradeCheck, hholder r hr]
  | close expect =>
    refine answered_lookup (by simp [StateidOp.frame]) (fun input => rfl) hsid (fun _ => rfl) fun r hr => ?_
    exact answered_refused (by simp) fun input => by simp [Shared.exec, Shared.closeCheck, ha, hholder r hr]
  | lock file exclusive reclaim range newOwner owner =>
    refine answered_lock fun c hfind => ?_
    refine answered_lockState hsid (NamesNoneOf.noteGrace hno) rfl rfl ?_ _
    rw [Shared.noteGrace]
    split <;> exact hfind
  | locku range expect =>
    refine answered_lookup (by simp [StateidOp.frame]) (fun input => rfl) hsid (fun _ => rfl) fun r hr => ?_
    exact answered_refused (by simp) fun input => by simp [Shared.exec, Shared.lockuCheck, hholder r hr]
  | freeStateid =>
    refine answered_lookup (by simp [StateidOp.frame]) (fun input => rfl) hsid (fun _ => rfl) fun r hr => ?_
    exact answered_refused (by simp) fun input => by simp [Shared.exec, Shared.freeCheck, hholder r hr]
  | delegreturn file =>
    refine answered_refused (by simp [StateidOp.frame]) fun input => ?_
    by_cases hepoch : sid.other.epoch = cfg.epoch32
    · cases hr : s.table.find sid.other with
      | none => simp [StateidOp.frame, Shared.exec, Shared.delegreturn, Shared.foreignStatus, hepoch, hr]
      | some r =>
        simp [StateidOp.frame, Shared.exec, Shared.delegreturn, Shared.foreignStatus, hepoch, hr, hholder r hr]
    · simp [StateidOp.frame, Shared.exec, Shared.delegreturn, Shared.foreignStatus, hepoch]
  | testStateid =>
    refine answered_lookup (by simp [StateidOp.frame]) (fun input => rfl) hsid (fun hnone => ?_) fun r hr => ?_
    · simp [hnone]
    · simp [answered_reply, hr]

end Foreign

/-! ### Comparing two states -/

namespace Shared.SameButOthers

variable {cfg : Config} {a : UInt64} {s s' : Shared} {sid : Stateid}

theorem clientid_eq (h : SameButOthers cfg a s s') (c : ClientRef) : (s'.clients c).clientid = (s.clients c).clientid := by
  rw [h.clients c]

theorem findClient_eq (h : SameButOthers cfg a s s') (clientid : UInt64) :
    s'.findClient cfg clientid = s.findClient cfg clientid := by
  rw [h.rest]
  rfl

theorem lockRefusal_eq (h : SameButOthers cfg a s s') (file : FileKey) (reclaim : Bool) :
    s'.lockRefusal cfg a file reclaim = s.lockRefusal cfg a file reclaim := by
  have hgrace : s'.inGrace file.fsid = s.inGrace file.fsid := by rw [h.rest]; rfl
  have hlisted : ∀ owner, s'.inStableList file.fsid owner = s.inStableList file.fsid owner := by
    intro owner
    rw [h.rest]
    rfl
  have hclient : ∀ c, s'.reclaimRefusal c file reclaim = s.reclaimRefusal c file reclaim := by
    intro c
    rw [reclaimRefusal, h.clients c, hgrace, hlisted]
    rfl
  simp only [lockRefusal, h.findClient_eq, hclient]
  cases s.findClient cfg a with
  | none => rfl
  | some c =>
    dsimp only
    rw [h.clients c]

theorem namesNoneOf (h : SameButOthers cfg a s s') (hno : s.NamesNoneOf cfg a sid) : s'.NamesNoneOf cfg a sid := by
  intro r hr hown
  have hrec : s'.states r = s.states r := h.ownRecord r (Or.inr hown)
  have hown' : s.Owns cfg a r := by
    rw [Owns, holder, hrec, h.clientid_eq, h.findClient_eq] at hown
    exact hown
  exact hno r ((h.ownEntry sid.other r hown').mp hr) hown'

end Shared.SameButOthers

/-- The two states agree on what the operation gives away: TEST_STATEID tells whether anybody has the state id, and
`check_io` whether it belongs to a client whose reclaim chain has started. -/
def Hides (cfg : Config) (sid : Stateid) (s s' : Shared) : StateidOp → Prop
  | .testStateid =>
    sid.other.epoch = cfg.epoch32 → (s.table.find sid.other).isSome = (s'.table.find sid.other).isSome
  | .io _ _ => sid.other.epoch = cfg.epoch32 → s.namesExpired sid = s'.namesExpired sid
  | _ => True

/-- A request with a state id that is none of the client's gets the same answer in two states that differ only in
other clients' state records, unless it is one of the two operations that look further. -/
theorem foreign_stateid_alike_iff {cfg : Config} {a : UInt64} {s s' : Shared} {sid : Stateid} (ha : a ≠ 0)
    (hsame : s.SameButOthers cfg a s') (hsid : sid.isSpecial = false) (hno : s.NamesNoneOf cfg a sid)
    (op : StateidOp) :
    (∀ x, Answered cfg s (op.frame a sid) x ↔ Answered cfg s' (op.frame a sid) x) ↔ Hides cfg sid s s' op := by
  have hiff : (∀ x, Answered cfg s (op.frame a sid) x ↔ Answered cfg s' (op.frame a sid) x) ↔
      s.foreignStatus cfg a sid op = s'.foreignStatus cfg a sid op := by
    simp only [answered_foreign ha hsid hno, answered_foreign ha hsid (hsame.namesNoneOf hno)]
    exact ⟨fun h => Answer.status.inj ((h _).mp rfl), fun h x => by rw [h]⟩
  rw [hiff]
  cases op with
  | testStateid =>
    simp only [Shared.foreignStatus, Hides]
    by_cases hepoch : sid.other.epoch = cfg.epoch32
    · cases (s.table.find sid.other).isSome <;> cases (s'.table.find sid.other).isSome <;> simp [hepoch]
    · simp [hepoch]
  | io file need =>
    simp only [Shared.foreignStatus, Hides]
    by_cases hepoch : sid.other.epoch = cfg.epoch32
    · cases s.namesExpired sid <;> cases s'.namesExpired sid <;> simp [hepoch]
    · simp [hepoch]
  | lock file exclusive reclaim range newOwner owner => simp [Shared.foreignStatus, Hides, hsame.lockRefusal_eq]
  | _ => simp [Shared.foreignStatus, Hides]

theorem sameButOthers_unlinkState {cfg : Config} {a : UInt64} {s : Shared} {r : StateRef} (fromClient handover : Bool)
    (hr : s.table.find (s.states r).other = some r) (hno : ¬s.Owns cfg a r) :
    s.SameButOthers cfg a (s.unlinkState r fromClient handover).1 := by
  unfold Shared.unlinkState
  split
  · exact ⟨rfl, fun _ => rfl, fun _ _ => rfl, fun _ _ => rfl, fun _ _ _ => Iff.rfl, fun _ _ _ _ => Iff.rfl⟩
  · refine ⟨rfl, fun _ => rfl, fun _ _ => rfl, fun r' hown => ?_, fun other r' hown => ?_, fun _ _ _ _ => Iff.rfl⟩
    · have hne : r' ≠ r := by
        rintro rfl
        refine hno (hown.elim id fun h => ?_)
        simpa [Shared.Owns, Shared.holder, Shared.modState, Shared.findClient] using h
      simp [Shared.modState, hne]
    · have hne : r' ≠ r := fun h => hno (h ▸ hown)
      simp only [Shared.modState, Table.find_remove]
      split
      · subst other
        simp [hr, hne.symm]
      · rfl

theorem sameButOthers_step {cfg : Config} {a : UInt64} {c : Machine.Config Shared Frame} {i : Nat} {r : StateRef}
    {fromClient handover : Bool} {rest : List Frame} (htask : c.tasks[i]? = some (.unlinkState r fromClient handover :: rest))
    (input : Input) (hr : c.state.table.find (c.state.states r).other = some r) (hno : ¬c.state.Owns cfg a r) :
    c.state.SameButOthers cfg a ((server cfg).apply c (.step i input)).state := by
  obtain ⟨-, -, -, hstate, -⟩ := Machine.apply_step (m := server cfg) htask input
  rw [hstate]
  exact sameButOthers_unlinkState fromClient handover hr hno

/-- Two clients join, B opens a file, and its CLOSE has passed the checks. -/
def otherCloses : List (Machine.Event Frame Input) :=
  join 0 [65] 0x100000001 ++ join 3 [66] 0x100000002 ++
    request 6 (.openState { clientid := 0x100000002, file := ⟨1, ⟨[1], length_one_le⟩⟩, owner := [98], access := 1, deny := 0 }) 8 ++
    request 7 (.closeState ⟨1, ⟨1, 1, 1⟩⟩ 0x100000002 none) 2

theorem otherCloses_step :
    ((server {}).run boot otherCloses).state.SameButOthers {} 0x100000001
      ((server {}).run boot (otherCloses ++ [Machine.Event.step 7 ({} : Input)])).state := by
  have htask : ((server {}).run boot otherCloses).tasks[7]? =
      some (Frame.unlinkState 0 true false :: [.closeReply 0 ⟨1, 1, 1⟩]) := by decide +kernel
  rw [Machine.run_append, Machine.run_cons, Machine.run_nil]
  exact sameButOthers_step htask {} (by decide +kernel) (by decide +kernel)

/-- While B's open is in the table, CLOSE by A of B's state id is answered as it is without it. -/
theorem foreign_stateid_alike_close :
    ((server {}).run boot otherCloses).state.NamesNoneOf {} 0x100000001 ⟨1, ⟨1, 1, 1⟩⟩ ∧
      ∀ x, Answered {} ((server {}).run boot otherCloses).state
          ((StateidOp.close none).frame 0x100000001 ⟨1, ⟨1, 1, 1⟩⟩) x ↔
        Answered {} ((server {}).run boot (otherCloses ++ [Machine.Event.step 7 ({} : Input)])).state
          ((StateidOp.close none).frame 0x100000001 ⟨1, ⟨1, 1, 1⟩⟩) x := by
  have hno : ((server {}).run boot otherCloses).state.NamesNoneOf {} 0x100000001 ⟨1, ⟨1, 1, 1⟩⟩ := by decide +kernel
  exact ⟨hno, (foreign_stateid_alike_iff (by decide) otherCloses_step (by decide) hno (.close none)).mpr trivial⟩

/-- A asks TEST_STATEID about B's open: OK while it is there, BAD_STATEID once B's CLOSE has taken it out. -/
theorem test_stateid_tells_of_other :
    ((server {}).run boot otherCloses).state.SameButOthers {} 0x100000001
        ((server {}).run boot (otherCloses ++ [Machine.Event.step 7 ({} : Input)])).state ∧
      ((server {}).run boot otherCloses).state.NamesNoneOf {} 0x100000001 ⟨1, ⟨1, 1, 1⟩⟩ ∧
      Answered {} ((server {}).run boot otherCloses).state (StateidOp.testStateid.frame 0x100000001 ⟨1, ⟨1, 1, 1⟩⟩)
        (.status .ok) ∧
      Answered {} ((server {}).run boot (otherCloses ++ [Machine.Event.step 7 ({} : Input)])).state
        (StateidOp.testStateid.frame 0x100000001 ⟨1, ⟨1, 1, 1⟩⟩) (.status .badStateid) := by
  have hno : ((server {}).run boot otherCloses).state.NamesNoneOf {} 0x100000001 ⟨1, ⟨1, 1, 1⟩⟩ := by decide +kernel
  have hnone : ((server {}).run boot (otherCloses ++ [Machine.Event.step 7 ({} : Input)])).state.NamesNoneOf {}
      0x100000001 ⟨1, ⟨1, 1, 1⟩⟩ := otherCloses_step.namesNoneOf hno
  refine ⟨otherCloses_step, hno, ?_, ?_⟩
  · rw [answered_foreign (by decide) (by decide) hno]
    exact congrArg Answer.status (by decide +kernel)
  · rw [answered_foreign (by decide) (by decide) hnone]
    exact congrArg Answer.status (by decide +kernel)

end LightNfs
