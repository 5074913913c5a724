import LightNfs.State.Client

/-!
# The SEQUENCE slot

A slot remembers the last executed sequence id and its reply. `sequence_begin` classifies a request
against it under the session shard's lock; a request that waits for the one being executed classifies
itself again when it is woken, which is the same frame executed again.
-/

namespace LightNfs

inductive SlotVerdict where
  | claim
  | wait
  | misordered
  | replay (bytes : Bytes)
  | uncached
deriving DecidableEq

namespace Slot

/-- The part of `sequence_begin` that looks at the slot. A stored sequence id of 0 marks a slot never used. -/
def classify (slot : Slot) (seqid : UInt32) : SlotVerdict :=
  if slot.inFlight then
    if seqid = slot.seqid + 1 then .wait else .misordered
  else if seqid = slot.seqid + 1 then .claim
  else if seqid = slot.seqid ∧ slot.seqid ≠ 0 then
    if slot.cached then .replay slot.reply else .uncached
  else .misordered

def claim (slot : Slot) : Slot := { slot with inFlight := true }

/-- `sequence_abort`. -/
def release (slot : Slot) : Slot := { slot with inFlight := false }

def complete (seqid : UInt32) (cache : Bool) (reply : Bytes) : Slot :=
  { seqid := seqid, inFlight := false, cached := cache, reply := if cache then reply else [] }

end Slot

namespace SessionRec

def bind (session : SessionRec) (connId : UInt64) : SessionRec :=
  { session with boundConns := session.boundConns.insert connId }

def slot (session : SessionRec) (slotid : UInt32) : Slot := session.slots.getD slotid.toNat {}

def setSlot (session : SessionRec) (slotid : UInt32) (slot : Slot) : SessionRec :=
  { session with slots := session.slots.set slotid.toNat slot }

end SessionRec

namespace Shared

variable (cfg : Config)

def putSession (s : Shared) (id : SessionId) (session : SessionRec) : Shared :=
  { s with sessions := s.sessions.put id session }

/-- `SEQ4_STATUS_CB_PATH_DOWN` and `SEQ4_STATUS_LEASE_MOVED`. -/
def statusFlags (s : Shared) (session : SessionRec) : UInt32 :=
  let client := s.clients session.client
  (if client.delegs > 0 ∧ !s.usable session then 1 else 0) |||
    if client.leaseMovedUntil ≠ 0 ∧ s.now < client.leaseMovedUntil then 0x80 else 0

def sequenceBegin (s : Shared) (args : SequenceArgs) : Shared × List Frame :=
  match s.sessions.find args.id with
  | none => (s, [.reply (.status .badsession)])
  | some session =>
    if (s.clients session.client).expired then (s, [.reply (.status .badsession)])
    else
      let bound := session.bind args.connId
      let s' := s.putSession args.id bound
      if args.slotid.toNat ≥ session.slots.length then (s', [.reply (.status .badslot)])
      else if args.highest.toNat ≥ session.slots.length then (s', [.reply (.status .badHighSlot)])
      else
        match (session.slot args.slotid).classify args.seqid with
        | .wait => (s', [.sequenceBegin args])
        | .misordered => (s', [.reply (.status .seqMisordered)])
        | .replay bytes => (s'.renew cfg session.client, [.reply (.replay bytes)])
        | .uncached => (s'.renew cfg session.client, [.reply (.status .retryUncachedRep)])
        | .claim =>
          ((s.putSession args.id (bound.setSlot args.slotid (session.slot args.slotid).claim)).renew cfg session.client,
            [.reply (.accepted
              { maxOps := session.fore.maxOps, maxRequest := session.fore.maxRequest,
                maxResponse := session.fore.maxResponse, maxResponseCached := session.fore.maxResponseCached,
                highestSlot := UInt32.ofNat (session.slots.length - 1),
                statusFlags := s.statusFlags session })])

/-- The slot of a session that still exists, rewritten under the session shard's lock. -/
def modSlot (s : Shared) (id : SessionId) (slotid : UInt32) (f : Slot → Slot) : Shared :=
  match s.sessions.find id with
  | none => s
  | some session =>
    if slotid.toNat < session.slots.length then s.putSession id (session.setSlot slotid (f (session.slot slotid)))
    else s

def sequenceAbort (s : Shared) (id : SessionId) (slotid : UInt32) : Shared := s.modSlot id slotid Slot.release

def sequenceComplete (s : Shared) (id : SessionId) (slotid seqid : UInt32) (cache : Bool) (reply : Bytes) : Shared :=
  s.modSlot id slotid fun _ => Slot.complete seqid cache reply

end Shared

/-! ### The history of a slot -/

inductive SlotEvent where
  | arrive (seqid : UInt32)
  | complete (cache : Bool) (reply : Bytes)
  | abort

/-- A slot, the request that holds it, and the replies of those completed on it with whether they were to be kept,
the last one first. -/
structure SlotRun where
  slot : Slot := {}
  running : Option UInt32 := none
  done : List (Bytes × Bool) := []

namespace SlotRun

variable (r : SlotRun)

def step : SlotEvent → SlotRun
  | .arrive seqid =>
    if r.slot.classify seqid = .claim then { r with slot := r.slot.claim, running := some seqid } else r
  | .complete cache reply =>
    match r.running with
    | some seqid => ⟨Slot.complete seqid cache reply, none, (reply, cache) :: r.done⟩
    | none => r
  | .abort => if r.running.isSome then { r with slot := r.slot.release, running := none } else r

structure Exact : Prop where
  seqid : r.slot.seqid = UInt32.ofNat r.done.length
  running : r.running = if r.slot.inFlight then some (r.slot.seqid + 1) else none
  last : ∀ reply cache, r.done.head? = some (reply, cache) → r.slot.cached = cache ∧ (cache = true → r.slot.reply = reply)

variable {r}

theorem Exact.step (h : r.Exact) (e : SlotEvent) : (r.step e).Exact := by
  have hrunning := h.running
  cases e with
  | arrive seqid =>
    simp only [SlotRun.step]
    split
    · next hclaim =>
      have hnext : seqid = r.slot.seqid + 1 := by grind [Slot.classify]
      exact ⟨h.seqid, by rw [hnext]; rfl, h.last⟩
    · exact h
  | complete cache reply =>
    simp only [SlotRun.step]
    split
    · next seqid heq =>
      have hnext : seqid = r.slot.seqid + 1 := by grind
      refine ⟨?_, rfl, ?_⟩
      · rw [List.length_cons, UInt32.ofNat_add, ← h.seqid]
        exact hnext
      · rintro _ _ ⟨⟩
        exact ⟨rfl, fun h => if_pos h⟩
    · exact h
  | abort =>
    simp only [SlotRun.step]
    split
    · exact ⟨h.seqid, rfl, h.last⟩
    · exact h

/-- Whatever arrives, completes and aborts, a slot answers from its history: it executes only the number after the
completed ones, and sends again only the reply of the last one, if that was to be kept. -/
theorem answers_from_history (events : List SlotEvent) (seqid : UInt32) :
    let r := events.foldl SlotRun.step {}
    let count := UInt32.ofNat r.done.length
    (r.slot.classify seqid = .claim ↔ r.running = none ∧ seqid = count + 1) ∧
    (r.slot.classify seqid = .wait ↔ r.running = some seqid) ∧
    (∀ reply, r.slot.classify seqid = .replay reply ↔
      r.running = none ∧ seqid = count ∧ count ≠ 0 ∧ r.done.head? = some (reply, true)) ∧
    (r.slot.classify seqid = .uncached ↔
      r.running = none ∧ seqid = count ∧ count ≠ 0 ∧ ∃ reply, r.done.head? = some (reply, false)) := by
  intro r count
  have hrun : ∀ r : SlotRun, r.Exact → (events.foldl SlotRun.step r).Exact := by
    induction events with
    | nil => exact fun _ h => h
    | cons e events ih => exact fun r h => ih _ (h.step e)
  obtain ⟨hseqid, hrunning, hlast⟩ : r.Exact := hrun {} ⟨rfl, rfl, fun _ _ h => by cases h⟩
  have hdone : count ≠ 0 → ∃ reply cache, r.done.head? = some (reply, cache) := by
    intro hne
    cases heq : r.done with
    | nil => simp [count, heq] at hne
    | cons last rest => exact ⟨last.1, last.2, rfl⟩
  have hcount : r.slot.seqid = count := hseqid
  have hsucc : count ≠ count + 1 := by simp
  grind [Slot.classify]

end SlotRun

/-! ### The slot of a session -/

namespace Shared

variable {s : Shared} {id : SessionId} {slotid : UInt32} {slot : Slot} {r : SlotRun}

def slotAt (s : Shared) (id : SessionId) (slotid : UInt32) : Option Slot :=
  (s.sessions.find id).bind fun session => session.slots[slotid.toNat]?

theorem slotAt_some (h : s.slotAt id slotid = some slot) : ∃ session, s.sessions.find id = some session ∧
    slotid.toNat < session.slots.length ∧ session.slot slotid = slot := by
  obtain ⟨session, hfind, hget⟩ := Option.bind_eq_some_iff.mp h
  obtain ⟨hlt, -⟩ := List.getElem?_eq_some_iff.mp hget
  exact ⟨session, hfind, hlt, by rw [SessionRec.slot, List.getD_eq_getElem?_getD, hget]; rfl⟩

theorem sessions_renew (cfg : Config) (s : Shared) (c : ClientRef) : (s.renew cfg c).sessions = s.sessions := by
  unfold renew armLeaseCheck
  dsimp only
  split_ifs <;> rfl

theorem slotAt_put (session : SessionRec) (hlt : slotid.toNat < session.slots.length) (slot : Slot) :
    (s.putSession id (session.setSlot slotid slot)).slotAt id slotid = some slot := by
  simp [slotAt, putSession, SessionRec.setSlot, hlt]

theorem slotAt_modSlot (h : s.slotAt id slotid = some slot) (f : Slot → Slot) :
    (s.modSlot id slotid f).slotAt id slotid = some (f slot) := by
  obtain ⟨session, hfind, hlt, rfl⟩ := slotAt_some h
  simp only [modSlot, hfind, if_pos hlt]
  exact slotAt_put session hlt _

/-- What SEQUENCE, its completion and its abort do to a slot of a session is what the history's steps do to it. -/
theorem slotAt_follows (cfg : Config) (h : s.slotAt id slotid = some r.slot) :
    (∀ args session, args.id = id → args.slotid = slotid → s.sessions.find id = some session →
      (s.clients session.client).expired = false → args.highest.toNat < session.slots.length →
      (s.sequenceBegin cfg args).1.slotAt id slotid = some (r.step (.arrive args.seqid)).slot) ∧
    (∀ seqid cache reply, r.running = some seqid →
      (s.sequenceComplete id slotid seqid cache reply).slotAt id slotid = some (r.step (.complete cache reply)).slot) ∧
    (r.running ≠ none → (s.sequenceAbort id slotid).slotAt id slotid = some (r.step .abort).slot) := by
  refine ⟨?_, ?_, ?_⟩
  · rintro args session rfl rfl hfind hexp hhigh
    obtain ⟨session', hfind', hlt, hslot⟩ := slotAt_some h
    obtain rfl := Option.some.inj (hfind.symm.trans hfind')
    have hbound : (s.putSession args.id (session.bind args.connId)).slotAt args.id args.slotid = some r.slot := by
      simpa [slotAt, putSession, SessionRec.bind, hfind] using h
    have hrenew : ∀ u : Shared, (u.renew cfg session.client).slotAt args.id args.slotid = u.slotAt args.id args.slotid :=
      fun u => by rw [slotAt, sessions_renew, slotAt]
    simp only [sequenceBegin, hfind, hexp, Bool.false_eq_true, if_false, if_neg (Nat.not_le.mpr hlt),
      if_neg (Nat.not_le.mpr hhigh), hslot, SlotRun.step]
    cases r.slot.classify args.seqid with
    | claim => exact (hrenew _).trans (slotAt_put (session.bind args.connId) hlt _)
    | wait | misordered => exact hbound
    | replay | uncached => exact (hrenew _).trans hbound
  · intro seqid cache reply hrunning
    rw [sequenceComplete, slotAt_modSlot h, SlotRun.step, hrunning]
  · intro hrunning
    rw [sequenceAbort, slotAt_modSlot h, SlotRun.step, if_pos (Option.isSome_iff_ne_none.mpr hrunning)]

end Shared

end LightNfs
