import LightNfs.State.Owners

/-!
# Sessions and their clients

CREATE_SESSION enters a session at its client in one lock section and in the session table in a later one. In
between the client may leave. A session then stays behind unless its erasure is still to come.
-/

namespace LightNfs

def Frame.insertId : Frame → Option SessionId
  | createInsert id _ => some id
  | _ => none

def insertIds (fs : List Frame) : List SessionId := fs.filterMap Frame.insertId

theorem mem_insertIds {fs : List Frame} {id : SessionId} :
    id ∈ insertIds fs ↔ ∃ session, Frame.createInsert id session ∈ fs := by
  rw [insertIds, List.mem_filterMap]
  constructor
  · rintro ⟨f, hf, hid⟩
    cases f with
    | createInsert id' session =>
      obtain rfl : id' = id := Option.some.inj hid
      exact ⟨session, hf⟩
    | _ => exact absurd hid (by simp [Frame.insertId])
  · rintro ⟨session, hf⟩
    exact ⟨_, hf, rfl⟩

namespace Tables

variable {cfg : Config} {t t' : Tables}

/-! ### What a frame does to sessions -/

theorem ClientStep.session_stays {c : ClientRef} {f : Frame} {v : ClientView} (h : t.ClientStep c f v) {id : SessionId}
    (hid : id ∈ (t.clients c).sessions) : id ∈ v.sessions ∨ f = .destroySessionClient c id ∨ v.expired = true := by
  cases h with
  | session => exact Or.inl (List.mem_append_left _ hid)
  | retired => exact Or.inr (Or.inr rfl)
  | @dropped id' =>
    by_cases heq : id = id'
    · rw [heq]
      exact Or.inr (Or.inl rfl)
    · exact Or.inl (List.mem_filter.mpr ⟨hid, by simpa using heq⟩)
  | _ => exact Or.inl hid

theorem ClientStep.confirmed_of_sessions {c : ClientRef} {f : Frame} {v : ClientView} (h : t.ClientStep c f v)
    (hconf : (t.clients c).sessions ≠ [] → (t.clients c).confirmed = true) (hv : v.sessions ≠ []) :
    v.confirmed = true := by
  cases h with
  | session => rfl
  | retired => exact absurd rfl hv
  | dropped =>
    apply hconf
    intro hnil
    simp [hnil] at hv
  | _ => exact hconf hv

theorem sessions_change {f : Frame} (hc : Change cfg t f t') :
    t'.sessions = t.sessions ∨ (∃ id session, f = .createInsert id session ∧ t' = t.setSession id (some session.client)) ∨
      ∃ id, (f = .eraseSession id ∨ ∃ connId, f = .destroySession id connId) ∧ t' = t.setSession id none := by
  cases hc with
  | insertSession => exact Or.inr (Or.inl ⟨_, _, rfl, rfl⟩)
  | eraseSession => exact Or.inr (Or.inr ⟨_, Or.inl rfl, rfl⟩)
  | destroySession => exact Or.inr (Or.inr ⟨_, Or.inr ⟨_, rfl⟩, rfl⟩)
  | exchangeFull hu => exact Or.inl ((OnlyClients.exchanged hu).eq_of_read Tables.sessions fun _ => rfl)
  | exchangeNew hu => exact Or.inl ((OnlyClients.exchanged hu).eq_of_read Tables.sessions fun _ => rfl)
  | createFirst => exact Or.inl ((OnlyClients.confirmIncarnation cfg t _).eq_of_read Tables.sessions fun _ => rfl)
  | destroyClient | scanLapsed => exact Or.inl ((OnlyClients.remove cfg t _).eq_of_read Tables.sessions fun _ => rfl)
  | unpersist => exact Or.inl ((OnlyClients.unpersist cfg t _).eq_of_read Tables.sessions fun _ => rfl)
  | @dropFromFile r =>
    obtain ⟨files, heq⟩ := t.dropFromFile_eq r
    rw [heq]
    exact Or.inl rfl
  | _ => exact Or.inl rfl

theorem nextSession_change {f : Frame} (hc : Change cfg t f t') :
    t'.nextSession = t.nextSession ∨ ∃ c args, f = .createClient c args ∧ args.sequence = (t.clients c).csSequence ∧
      t'.nextSession = t.nextSession + 1 := by
  cases hc with
  | createAgain hconf hseq => exact Or.inr ⟨_, _, rfl, hseq, rfl⟩
  | @createFirst c args nonce hconf hseq =>
    have hnext := (OnlyClients.confirmIncarnation cfg t c).eq_of_read Tables.nextSession fun _ => rfl
    exact Or.inr ⟨_, _, rfl, hseq, congrArg (· + 1) hnext⟩
  | exchangeFull hu => exact Or.inl ((OnlyClients.exchanged hu).eq_of_read Tables.nextSession fun _ => rfl)
  | exchangeNew hu => exact Or.inl ((OnlyClients.exchanged hu).eq_of_read Tables.nextSession fun _ => rfl)
  | destroyClient | scanLapsed => exact Or.inl ((OnlyClients.remove cfg t _).eq_of_read Tables.nextSession fun _ => rfl)
  | unpersist => exact Or.inl ((OnlyClients.unpersist cfg t _).eq_of_read Tables.nextSession fun _ => rfl)
  | @dropFromFile r =>
    obtain ⟨files, heq⟩ := t.dropFromFile_eq r
    rw [heq]
    exact Or.inl rfl
  | _ => exact Or.inl rfl

/-! ### The invariant -/

/-- The id is in the table, on its way in, or on its way out. -/
def Known (t : Tables) (fs : List Frame) (id : SessionId) : Prop :=
  t.sessions id ≠ none ∨ id ∈ insertIds fs ∨ ∃ c, Frame.destroySessionClient c id ∈ fs

structure Sessions (cfg : Config) (t : Tables) (fs : List Frame) : Prop where
  table : ∀ id c, t.sessions id = some c →
    t.Registered cfg c ∧ id ∈ (t.clients c).sessions ∨ Frame.eraseSession id ∈ fs
  confirmed : ∀ c < t.clientRefs, (t.clients c).sessions ≠ [] → (t.clients c).confirmed = true
  entering : ∀ id session, Frame.createInsert id session ∈ fs →
    t.sessions id = none ∧ (t.Registered cfg session.client → id ∈ (t.clients session.client).sessions)
  leaving : ∀ c id, Frame.destroySessionClient c id ∈ fs → t.sessions id = none ∧ id ∉ insertIds fs
  once : (insertIds fs).Nodup
  fresh : t.nextSession ≠ 0 → ∀ id, t.Known fs id → id.counter < t.nextSession

/-- A CREATE_SESSION in sequence finds the session counter not wrapped. -/
def SessionIdsLeft (t : Tables) : Frame → Prop
  | .createClient c args => args.sequence = (t.clients c).csSequence → t.nextSession ≠ 0
  | _ => True

/-- A session is inserted while its client is in the table or its erasure is still to come. -/
def InsertsInTime (cfg : Config) (t : Tables) (fs : List Frame) : Frame → Prop
  | .createInsert id session => t.Registered cfg session.client ∨ Frame.eraseSession id ∈ fs
  | _ => True

end Tables

theorem Shared.insertIds_acceptedFrames (s : Shared) (cfg : Config) (c : ClientRef) (args : CreateArgs) (nonce : UInt32)
    (old : Option ClientRef) : insertIds (s.acceptedFrames cfg c args nonce old) = [s.newSessionId c nonce] := by
  have herase : ∀ ids : List SessionId, (ids.map Frame.eraseSession).filterMap Frame.insertId = [] := by
    intro ids
    simp [Frame.insertId]
  have hreap : ∀ others : List StateOther, (others.map Frame.reapState).filterMap Frame.insertId = [] := by
    intro others
    simp [Frame.insertId]
  simp only [insertIds, acceptedFrames, List.filterMap_cons, List.filterMap_append, herase, hreap, Frame.insertId]
  rfl

theorem Shared.exec_inserts (s : Shared) (cfg : Config) (input : Input) (f : Frame) :
    insertIds (s.exec cfg input f).2 = [] ∨ ∃ id, insertIds (s.exec cfg input f).2 = [id] := by
  have hflow := s.exec_flow cfg input f
  cases hids : insertIds (s.exec cfg input f).2 with
  | nil => exact Or.inl rfl
  | cons id rest =>
    obtain ⟨session, hmem⟩ := mem_insertIds.mp (hids ▸ List.mem_cons_self ..)
    cases hflow _ hmem with
    | @createInsert c args =>
      have hall : insertIds (s.createClient cfg c args input.nonce).2 = [] ∨
          insertIds (s.createClient cfg c args input.nonce).2 = [s.newSessionId c input.nonce] := by
        unfold createClient
        dsimp only
        split_ifs
        · exact Or.inl rfl
        · exact Or.inl rfl
        · exact Or.inl rfl
        · exact Or.inr (insertIds_acceptedFrames ..)
        · exact Or.inr (insertIds_acceptedFrames ..)
      rcases hall with hnil | hone
      · exact absurd (hids.symm.trans hnil) (by simp)
      · exact Or.inr ⟨_, hids.symm.trans hone⟩

namespace Tables

variable {cfg : Config} {t t' : Tables} {f : Frame} {pre next post : List Frame}
variable {id : SessionId}

theorem sessions_back (hc : Change cfg t f t') {c : ClientRef} (h : t'.sessions id = some c) :
    t.sessions id = some c ∨ ∃ session, f = .createInsert id session ∧ session.client = c ∧
      t' = t.setSession id (some c) := by
  rcases sessions_change hc with hsame | ⟨id', session, hf, ht'⟩ | ⟨id', -, ht'⟩
  · rw [hsame] at h
    exact Or.inl h
  · rw [ht'] at h
    simp only [setSession, Function.update_apply] at h
    split at h
    · rename_i heq
      subst heq
      obtain rfl := Option.some.inj h
      exact Or.inr ⟨session, hf, rfl, ht'⟩
    · exact Or.inl h
  · rw [ht'] at h
    simp only [setSession, Function.update_apply] at h
    split at h
    · exact absurd h (by simp)
    · exact Or.inl h

theorem sessions_erased (hc : Change cfg t (.eraseSession id) t') : t'.sessions id = none := by
  cases hc with
  | quiet hf => exact hf.elim
  | eraseSession => simp [setSession]
  | insert hf => cases hf
  | trackRefused hf => cases hf
  | track hf => cases hf

theorem Known.back (hs : Step cfg t f t' next) (hk : t'.Known (pre ++ (next ++ post)) id) :
    t.Known (pre ++ f :: post) id ∨ ∃ c args, f = .createClient c args ∧ id ∈ insertIds next ∧
      args.sequence = (t.clients c).csSequence ∧ t'.nextSession = t.nextSession + 1 ∧ id.counter = t.nextSession := by
  rcases hk with htable | hids | ⟨c, hc⟩
  · obtain ⟨c, hc⟩ := Option.ne_none_iff_exists'.mp htable
    rcases sessions_back hs.change hc with hc | ⟨session, rfl, -⟩
    · exact Or.inl (Or.inl (by simp [hc]))
    · exact Or.inl (Or.inr (Or.inl (mem_insertIds.mpr ⟨session, by simp⟩)))
  · obtain ⟨session, hmem⟩ := mem_insertIds.mp hids
    rcases Machine.mem_of_mem_step hmem with hmem | hmem
    · have hid : id ∈ insertIds next := mem_insertIds.mpr ⟨session, hmem⟩
      cases hs.flow _ hmem with
      | createInsert hseq hnext => exact Or.inr ⟨_, _, rfl, hid, hseq, hnext, rfl⟩
    · exact Or.inl (Or.inr (Or.inl (mem_insertIds.mpr ⟨session, hmem⟩)))
  · rcases Machine.mem_of_mem_step hc with hmem | hmem
    · cases hs.flow _ hmem with
      | destroySessionClient hc => exact Or.inl (Or.inl (by simp [hc]))
    · exact Or.inl (Or.inr (Or.inr ⟨c, hmem⟩))

theorem Sessions.unknown_of_new {fs : List Frame} (h : t.Sessions cfg fs) (hsids : t.SessionIdsLeft f)
    (hs : Step cfg t f t' next) (hid : id ∈ insertIds next) : ¬t.Known fs id := by
  obtain ⟨session, hmem⟩ := mem_insertIds.mp hid
  cases hs.flow _ hmem with
  | createInsert hseq =>
    intro hk
    exact UInt32.lt_irrefl _ (h.fresh (hsids hseq) _ hk)

theorem Sessions.fresh_step (h : t.Sessions cfg (pre ++ f :: post)) (hs : Step cfg t f t' next)
    (hsids : t.SessionIdsLeft f) (hne : t'.nextSession ≠ 0)
    (hk : t'.Known (pre ++ (next ++ post)) id) : id.counter < t'.nextSession := by
  rcases nextSession_change hs.change with hsame | ⟨c, args, hf, hseq, hnext⟩
  · rw [hsame] at hne ⊢
    rcases hk.back hs with hk | ⟨c, args, -, -, -, hnext, -⟩
    · exact h.fresh hne id hk
    · rw [hsame] at hnext
      exact absurd hnext (by lia)
  · have hleft : t.nextSession ≠ 0 := by
      subst hf
      exact hsids hseq
    rw [hnext] at hne ⊢
    rcases hk.back hs with hk | ⟨c, args, -, -, -, -, hcounter⟩
    · have hlt := h.fresh hleft id hk
      lia
    · rw [hcounter]
      lia

theorem Sessions.once_step (h : t.Sessions cfg (pre ++ f :: post)) (hs : Step cfg t f t' next)
    (hone : insertIds next = [] ∨ ∃ id, insertIds next = [id]) (hsids : t.SessionIdsLeft f) :
    (insertIds (pre ++ (next ++ post))).Nodup := by
  refine Machine.nodup_tickets_step h.once (hone.imp_right fun ⟨id, hid⟩ => ⟨id, hid, fun hknown => ?_⟩)
  exact h.unknown_of_new hsids hs (hid ▸ List.mem_singleton_self id) (Or.inr (Or.inl hknown))

theorem Sessions.step (h : t.Sessions cfg (pre ++ f :: post)) (hwf : t.Wf cfg) (hi : t.Indexed cfg)
    (hi' : t'.Indexed cfg) (hfresh : t.FreshSlots) (hframes : Frame.AllWf t (pre ++ f :: post))
    (hs : Step cfg t f t' next) (hone : insertIds next = [] ∨ ∃ id, insertIds next = [id])
    (hids : t.ClientIdsLeft f) (hsids : t.SessionIdsLeft f) (htime : t.InsertsInTime cfg (pre ++ f :: post) f) : t'.Sessions cfg (pre ++ (next ++ post)) := by
  have hf : f.Wf t := hframes f (by simp)
  have he : t.Extends t' := .of_change hs.change
  have hreg := fun {c} hlt => registered_change (c := c) hi hwf hfresh hf hids hs.change hlt
  have hclient := fun {c} hlt => clientStep_change (c := c) hf hs.change hlt
  -- a session stays listed at a client that stays registered
  have hstays : ∀ {c id}, c < t.clientRefs → t'.Registered cfg c → id ∈ (t.clients c).sessions →
      f ≠ .destroySessionClient c id → id ∈ (t'.clients c).sessions := by
    intro c id hlt hreg' hid hne
    rcases (hclient hlt).session_stays hid with hid | heq | hexp
    · exact hid
    · exact absurd heq hne
    · exact absurd hreg' (hi'.expired c (hlt.trans_le he.clientRefs) hexp)
  have hnone_of : ∀ {id}, ¬t.sessions id ≠ none → (∀ session, f ≠ .createInsert id session) → t'.sessions id = none := by
    intro id hfree hne
    by_contra hsome
    obtain ⟨c, hc⟩ := Option.ne_none_iff_exists'.mp hsome
    rcases sessions_back hs.change hc with hold | ⟨session, hf, -⟩
    · exact hfree (by simp [hold])
    · exact hne session hf
  refine ⟨fun id c hc => ?_, fun c hc hne => ?_, fun id session hmem => ?_, fun c id hmem => ?_, h.once_step hs hone hsids,
    fun hne id hk => h.fresh_step hs hsids hne hk⟩
  · rcases sessions_back hs.change hc with hold | ⟨session, rfl, rfl, ht'⟩
    · rcases h.table id c hold with ⟨hr, hid⟩ | herase
      · have hlt : c < t.clientRefs := (hwf.sessions id c hold).1
        by_cases hr' : t'.Registered cfg c
        · refine Or.inl ⟨hr', hstays hlt hr' hid ?_⟩
          rintro rfl
          simp [(h.leaving c id (by simp)).1] at hold
        · have hl : t.Leaves t' c f := ((hreg hlt).2 hr).resolve_left hr'
          have hconf := h.confirmed c hlt (List.ne_nil_of_mem hid)
          exact Or.inr (Machine.mem_step_of_next ((hs.tearsDown c hl hr hr' hconf).1 id hid))
      · refine Or.inr (Machine.mem_step_of_ne next herase ?_)
        rintro rfl
        simp [sessions_erased hs.change] at hc
    · rcases htime with hr | herase
      · rw [ht']
        exact Or.inl ⟨hr, (h.entering id session (by simp)).2 hr⟩
      · exact Or.inr (Machine.mem_step_of_ne next herase (by simp))
  · by_cases hlt : c < t.clientRefs
    · exact (hclient hlt).confirmed_of_sessions (h.confirmed c hlt) hne
    · exact absurd (sessions_new hs.change hlt hc) hne
  · rcases Machine.new_or_waiting hmem with hnew | hwait
    · have hunknown := h.unknown_of_new hsids hs (mem_insertIds.mpr ⟨session, hnew⟩)
      have hnone := hnone_of (fun hold => hunknown (Or.inl hold))
      cases hs.flow _ hnew with
      | createInsert hseq hnext hconf hid => exact ⟨hnone (by simp), fun _ => hid⟩
    · have hmem' := Machine.mem_of_waiting (f := f) hwait
      obtain ⟨hfree, hlisted⟩ := h.entering id session hmem'
      refine ⟨hnone_of (fun hold => hold hfree) ?_, fun hr' => ?_⟩
      · rintro session' rfl
        exact Machine.ticket_not_waiting h.once rfl (mem_insertIds.mpr ⟨session, hwait⟩)
      · have hlt : session.client < t.clientRefs := (hframes _ hmem').1
        refine hstays hlt hr' (hlisted ((hreg hlt).1 hr')) ?_
        rintro rfl
        exact (h.leaving session.client id (by simp)).2 (mem_insertIds.mpr ⟨session, hmem'⟩)
  · rcases Machine.new_or_waiting hmem with hnew | hwait
    · cases hs.flow _ hnew with
      | destroySessionClient hc hu =>
        refine ⟨by simp [hu, setSession], fun hid => ?_⟩
        obtain ⟨session, hmem⟩ := mem_insertIds.mp hid
        rcases Machine.new_or_waiting hmem with hmem | hmem
        · cases hs.flow _ hmem
        · simp [(h.entering id session (Machine.mem_of_waiting hmem)).1] at hc
    · obtain ⟨hfree, hnot⟩ := h.leaving c id (Machine.mem_of_waiting hwait)
      refine ⟨hnone_of (fun hold => hold hfree) ?_, fun hid => ?_⟩
      · rintro session rfl
        exact hnot (mem_insertIds.mpr ⟨session, by simp⟩)
      · obtain ⟨session, hmem⟩ := mem_insertIds.mp hid
        rcases Machine.new_or_waiting hmem with hmem | hmem
        · exact h.unknown_of_new hsids hs (mem_insertIds.mpr ⟨session, hmem⟩)
            (Or.inr (Or.inr ⟨c, Machine.mem_of_waiting hwait⟩))
        · exact hnot (mem_insertIds.mpr ⟨session, Machine.mem_of_waiting hmem⟩)

theorem Sessions.spawn {fs : List Frame} (h : t.Sessions cfg fs) (hf : f.Request) : t.Sessions cfg (fs ++ [f]) := by
  have hnone : f.insertId = none := by cases f <;> first | exact hf.elim | rfl
  have hids : insertIds (fs ++ [f]) = insertIds fs := by
    rw [insertIds, List.filterMap_append, List.filterMap_cons_none hnone, List.filterMap_nil, List.append_nil, insertIds]
  refine ⟨fun id c hc => (h.table id c hc).imp_right (List.mem_append_left _), h.confirmed, fun id session hmem => ?_,
    fun c id hmem => ?_, ?_, fun hne id hk => h.fresh hne id ?_⟩
  · exact h.entering id session (Frame.mem_of_spawn hf (fun hr => hr) hmem)
  · rw [hids]
    exact h.leaving c id (Frame.mem_of_spawn hf (fun hr => hr) hmem)
  · rw [hids]
    exact h.once
  · rcases hk with htable | hmem | ⟨c, hmem⟩
    · exact Or.inl htable
    · rw [hids] at hmem
      exact Or.inr (Or.inl hmem)
    · exact Or.inr (Or.inr ⟨c, Frame.mem_of_spawn hf (fun hr => hr) hmem⟩)

end Tables

/-! ### Runs -/

namespace Shared

/-- The owner table, the client table and the session table agree. -/
structure ClientsConsistent (cfg : Config) (s : Shared) : Prop where
  found : ∀ owner slot c, s.byOwner.find owner = some slot → slot.confirmed = some c ∨ slot.unconfirmed = some c →
    s.findClient cfg (s.clients c).clientid = some c
  listed : ∀ key c, s.byId.find key = some c → ∃ slot, s.byOwner.find (s.clients c).ownerId = some slot ∧
    (if (s.clients c).confirmed then slot.confirmed else slot.unconfirmed) = some c
  unique : ∀ key key' c d, s.byId.find key = some c → s.byId.find key' = some d →
    (s.clients c).ownerId = (s.clients d).ownerId → (s.clients c).confirmed = (s.clients d).confirmed → c = d
  owned : ∀ id session, s.sessions.find id = some session → s.Registered cfg session.client

variable {cfg : Config} {s : Shared}

theorem listed_of_slots (hwf : s.tables.Wf cfg) (hslots : s.tables.Slots cfg) {key : Nat × UInt64} {c : ClientRef}
    (hc : s.byId.find key = some c) : ∃ slot, s.byOwner.find (s.clients c).ownerId = some slot ∧
      (if (s.clients c).confirmed then slot.confirmed else slot.unconfirmed) = some c := by
  obtain ⟨hlt, rfl⟩ := hwf.ids key c hc
  have hsome : (if (s.clients c).confirmed then (s.tables.byOwner (s.clients c).ownerId).confirmed
      else (s.tables.byOwner (s.clients c).ownerId).unconfirmed) = some c := by
    split
    · rename_i hconf
      exact hslots.lists c hlt hc hconf
    · rename_i hconf
      exact hslots.listsNew c hlt hc (Bool.eq_false_iff.mpr hconf)
  cases hfind : s.byOwner.find (s.clients c).ownerId with
  | none => simp [tables, hfind] at hsome
  | some slot =>
    refine ⟨slot, rfl, ?_⟩
    simpa [tables, hfind] using hsome

theorem clientsConsistent_of_tables (hwf : s.tables.Wf cfg) (hi : s.tables.Indexed cfg) (hslots : s.tables.Slots cfg)
    (hsessions : s.tables.Sessions cfg []) : s.ClientsConsistent cfg := by
  refine ⟨fun owner slot c hslot hc => ?_, fun key c hc => listed_of_slots hwf hslots hc,
    fun key key' c d hc hd howner hconf => ?_, fun id session hid => ?_⟩
  · have hat : s.tables.byOwner owner = slot := by simp [tables, hslot]
    rcases hc with hc | hc
    · rw [← hat] at hc
      exact findClient_of_registered hi (hwf.confirmed owner c hc).1 (hslots.confirmed owner c hc)
    · rw [← hat] at hc
      exact findClient_of_registered hi (hwf.unconfirmed owner c hc).1 (hslots.unconfirmed owner c hc).1
  · obtain ⟨slot, hslot, hplace⟩ := listed_of_slots hwf hslots hc
    obtain ⟨slot', hslot', hplace'⟩ := listed_of_slots hwf hslots hd
    rw [← howner, hslot] at hslot'
    obtain rfl := Option.some.inj hslot'
    rw [← hconf, hplace] at hplace'
    exact Option.some.inj hplace'
  · have hclient : s.tables.sessions id = some session.client := by simp [tables, hid]
    rcases hsessions.table id _ hclient with hreg | herase
    · exact hreg.1
    · exact absurd herase List.not_mem_nil

end Shared

def Frame.eraseId : Frame → Option SessionId
  | eraseSession id => some id
  | _ => none

theorem mem_eraseSession {fs : List Frame} {id : SessionId} :
    (∃ f ∈ fs, f.eraseId = some id) ↔ Frame.eraseSession id ∈ fs := by
  constructor
  · rintro ⟨f, hf, hid⟩
    cases f with
    | eraseSession id' =>
      obtain rfl : id' = id := Option.some.inj hid
      exact hf
    | _ => exact absurd hid (by simp [Frame.eraseId])
  · exact fun hf => ⟨_, hf, rfl⟩

instance (fs : List Frame) (id : SessionId) : Decidable (Frame.eraseSession id ∈ fs) := decidable_of_iff _ mem_eraseSession

instance (cfg : Config) (t : Tables) (c : ClientRef) : Decidable (t.Registered cfg c) := inferInstanceAs (Decidable (_ = _))

instance (cfg : Config) (t : Tables) (f : Frame) : Decidable (t.ClientStays cfg f) := by
  apply @Frame.casesOn _ f <;> intros <;> dsimp only [Tables.ClientStays] <;> infer_instance

instance (t : Tables) (f : Frame) : Decidable (t.SessionIdsLeft f) := by
  apply @Frame.casesOn _ f <;> intros <;> dsimp only [Tables.SessionIdsLeft] <;> infer_instance

instance (cfg : Config) (t : Tables) (fs : List Frame) (f : Frame) : Decidable (t.InsertsInTime cfg fs f) := by
  apply @Frame.casesOn _ f <;> intros <;> dsimp only [Tables.InsertsInTime] <;> infer_instance

/-- Runs in which CREATE_SESSION never goes on for a client that has left, and no id counter wraps. -/
abbrev clientsStay (cfg : Config) : Machine.Rules Shared Frame Input where
  spawn _ _ f := f.Request
  step s fs _ f := (s.tables.ClientStays cfg f ∧ s.tables.InsertsInTime cfg fs f) ∧
    s.tables.ClientIdsLeft f ∧ s.tables.SessionIdsLeft f

structure ClientInv (cfg : Config) (s : Shared) (fs : List Frame) : Prop where
  live : Live cfg s fs
  indexed : s.tables.Indexed cfg
  slots : s.tables.Slots cfg
  sessions : s.tables.Sessions cfg fs

namespace ClientInv

variable {cfg : Config} {s : Shared} {fs pre post : List Frame} {f : Frame}

theorem boot (cfg : Config) : ClientInv cfg LightNfs.boot.state LightNfs.boot.frames where
  live := Live.boot cfg
  indexed := Tables.Indexed.boot cfg
  slots := Tables.Slots.boot cfg
  sessions :=
    { table := fun _ _ h => absurd h (by simp [Machine.start, Shared.tables])
      confirmed := fun c hc => absurd hc (Nat.not_lt_zero c)
      entering := fun _ _ h => absurd h List.not_mem_nil
      leaving := fun _ _ h => absurd h List.not_mem_nil
      once := List.nodup_nil
      fresh := fun _ id h => by simp [Tables.Known, Machine.start, Shared.tables, insertIds, Machine.Config.frames] at h }

theorem spawn (h : ClientInv cfg s fs) (hf : f.Request) : ClientInv cfg s (fs ++ [f]) :=
  ⟨h.live.spawn hf, h.indexed, h.slots, h.sessions.spawn hf⟩

theorem step (h : ClientInv cfg s (pre ++ f :: post)) (input : Input)
    (hstays : s.tables.ClientStays cfg f) (htime : s.tables.InsertsInTime cfg (pre ++ f :: post) f)
    (hids : s.tables.ClientIdsLeft f) (hsids : s.tables.SessionIdsLeft f) :
    ClientInv cfg (s.exec cfg input f).1 (pre ++ ((s.exec cfg input f).2 ++ post)) := by
  have hchange := s.exec_change cfg input f
  have hindexed := h.indexed.change h.live.tables h.live.current hids hchange
  refine ⟨h.live.step input, hindexed, ?_, ?_⟩
  · exact h.slots.change h.indexed h.live.tables h.live.current hids hstays hchange
  · exact h.sessions.step h.live.tables h.indexed hindexed (fun o c hc => (h.slots.unconfirmed o c hc).2) h.live.frames
      (s.exec_step cfg input f) (s.exec_inserts cfg input f) hids hsids htime

end ClientInv

/-- At every quiet moment of a run in which CREATE_SESSION never goes on for a client that has left, the owner
table, the client table and the session table agree. -/
theorem client_tables_consistent (cfg : Config) (events : List (Machine.Event Frame Input))
    (hrun : (clientsStay cfg).Permits (server cfg) boot events)
    (hquiet : ((server cfg).run boot events).Quiescent) :
    ((server cfg).run boot events).state.ClientsConsistent cfg := by
  have hinv : ClientInv cfg ((server cfg).run boot events).state ((server cfg).run boot events).frames :=
    Machine.run_invariant (fun _ _ _ h hf => h.spawn hf)
      (fun _ _ _ _ input h hstep => h.step input hstep.1.1 hstep.1.2 hstep.2.1 hstep.2.2) (ClientInv.boot cfg) hrun
  rw [hquiet] at hinv
  exact Shared.clientsConsistent_of_tables hinv.live.tables hinv.indexed hinv.slots hinv.sessions

/-- Two clients create their sessions and one of them is expired. -/
def expiryBeside : List (Machine.Event Frame Input) :=
  join 0 [65] 0x100000001 ++ join 3 [66] 0x100000002 ++ request 6 (.expireClient 0x100000001 .forced) 5

theorem client_tables_consistent_after_expiry :
    ((server {}).run boot expiryBeside).state.Registered {} 1 ∧
      ¬((server {}).run boot expiryBeside).state.Registered {} 0 ∧
      ((server {}).run boot expiryBeside).state.ClientsConsistent {} :=
  ⟨by decide +kernel, by decide +kernel, client_tables_consistent {} _ (by decide +kernel) (by decide +kernel)⟩

/-- A second CREATE_SESSION has found its client; the client is expired before its lock is taken. -/
def lateSession : List (Machine.Event Frame Input) :=
  join 0 [65] 0x100000001 ++
    request 3 (.createSession { clientid := 0x100000001, sequence := 2, principal := [65] }) 1 ++
    request 4 (.expireClient 0x100000001 .forced) 5 ++ List.replicate 4 (Machine.Event.step 3 ({} : Input))

/-- The session outlives its client. -/
theorem client_tables_broken_by_late_session :
    anyRun.Permits (server {}) boot lateSession ∧ ((server {}).run boot lateSession).Quiescent ∧
      ¬((server {}).run boot lateSession).state.ClientsConsistent {} := by
  refine ⟨by decide +kernel, by decide +kernel, fun h => ?_⟩
  have hsession : (((server {}).run boot lateSession).state.sessions.find ⟨0x100000001, 2, 0⟩).map SessionRec.client =
      some 0 := by decide +kernel
  obtain ⟨session, hfind, hclient⟩ := Option.map_eq_some_iff.mp hsession
  have hreg := h.owned _ session hfind
  rw [hclient] at hreg
  exact absurd hreg (by decide +kernel)

end LightNfs
