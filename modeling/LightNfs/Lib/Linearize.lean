import LightNfs.Lib.Machine

/-!
# Linearization

A run is observed from outside: calls arrive as tasks, tasks send answers, and some steps are acts of the
environment on the object the calls share. A log linearizes the run when it performs calls and acts one at a time on
a sequential object and grows with the run: at every moment the part of the log written so far leaves the object as
the state shows it, holds every call that has been answered, with its answer, and only calls that have arrived. Calls
that do not overlap therefore stand in the log in their real order.

A `Simulation` says where each call takes effect; every run of the machine is then linearized.
-/

namespace Machine

variable {σ φ ι T C A E : Type}

/-! ### Sequential objects -/

/-- What a call may answer and do to the object, and what the environment may do to it. -/
structure SeqObject (T C A E : Type) where
  call : T → C → A → T → Prop
  event : T → E → T → Prop

inductive Entry (C A E : Type) where
  | call (task : Nat) (c : C) (a : A)
  | event (e : E)

namespace Entry

def task : Entry C A E → Option Nat
  | call i _ _ => some i
  | event _ => none

def act : Entry C A E → Option E
  | call _ _ _ => none
  | event e => some e

variable {log : List (Entry C A E)} {i : Nat}

theorem mem_tasks {q : C} {a : A} (h : call i q a ∈ log) :
    i ∈ log.filterMap task := List.mem_filterMap.mpr ⟨call i q a, h, rfl⟩

theorem of_mem_tasks (h : i ∈ log.filterMap task) : ∃ q a, call i q a ∈ log := by
  obtain ⟨x, hx, htask⟩ := List.mem_filterMap.mp h
  cases x with
  | event e => cases htask
  | call j q a =>
    obtain rfl := Option.some.inj htask
    exact ⟨q, a, hx⟩

theorem unique (h : (log.filterMap task).Nodup) {q q' : C} {a a' : A}
    (hq : call i q a ∈ log) (hq' : call i q' a' ∈ log) : a = a' := by
  induction log with
  | nil => exact absurd hq List.not_mem_nil
  | cons x log ih =>
    rcases List.mem_cons.mp hq with rfl | hmem
    · rcases List.mem_cons.mp hq' with hsame | hmem'
      · cases hsame
        rfl
      · exact absurd (mem_tasks hmem') (List.nodup_cons.mp h).1
    · rcases List.mem_cons.mp hq' with rfl | hmem'
      · exact absurd (mem_tasks hmem) (List.nodup_cons.mp h).1
      · exact ih (h.sublist ((List.sublist_cons_self x log).filterMap task)) hmem hmem'

end Entry

namespace SeqObject

variable (obj : SeqObject T C A E)

def Step (t : T) : Entry C A E → T → Prop
  | .call _ c a, t' => obj.call t c a t'
  | .event e, t' => obj.event t e t'

def Performs : T → List (Entry C A E) → T → Prop
  | t, [], t' => t = t'
  | t, x :: log, t' => ∃ u, obj.Step t x u ∧ Performs u log t'

variable {obj}

theorem performs_append {t t' : T} {log log' : List (Entry C A E)} :
    obj.Performs t (log ++ log') t' ↔ ∃ u, obj.Performs t log u ∧ obj.Performs u log' t' := by
  induction log generalizing t with
  | nil => simp [Performs]
  | cons x log ih =>
    simp only [List.cons_append, Performs, ih]
    constructor
    · rintro ⟨u, hstep, v, hlog, hlog'⟩
      exact ⟨v, ⟨u, hstep, hlog⟩, hlog'⟩
    · rintro ⟨v, ⟨u, hstep, hlog⟩, hlog'⟩
      exact ⟨u, hstep, v, hlog, hlog'⟩

theorem Performs.keeps {P : T → Prop} {Ends : Entry C A E → Prop}
    (hstep : ∀ t x t', P t → obj.Step t x t' → P t' ∨ Ends x) {t t' : T} {log : List (Entry C A E)}
    (h : obj.Performs t log t') (ht : P t) : P t' ∨ ∃ x ∈ log, Ends x := by
  induction log generalizing t with
  | nil => exact Or.inl (h ▸ ht)
  | cons x log ih =>
    obtain ⟨u, hx, hlog⟩ := h
    rcases hstep t x u ht hx with hu | hends
    · rcases ih hlog hu with hkept | ⟨y, hy, hends⟩
      · exact Or.inl hkept
      · exact Or.inr ⟨y, List.mem_cons_of_mem x hy, hends⟩
    · exact Or.inr ⟨x, List.mem_cons_self .., hends⟩

end SeqObject

/-! ### Observed runs -/

/-- Which requests are calls, which frames answer, and which steps are acts of the environment. -/
structure Observer (σ φ C A E : Type) where
  call : φ → Option C
  answer : φ → Option A
  event : σ → φ → σ → Option E

/-- The requests in the order of their tasks, the answers with the task that sent them, and the acts. -/
structure History (φ A E : Type) where
  requests : List φ := []
  answers : List (Nat × A) := []
  acts : List E := []

variable (m : Machine σ φ ι)

namespace Observer

variable (obs : Observer σ φ C A E)

def note (c : Config σ φ) (h : History φ A E) : Event φ ι → History φ A E
  | .spawn f => { h with requests := h.requests ++ [f] }
  | .step i input =>
    match c.tasks[i]? with
    | some (f :: _) =>
      { h with
        answers := h.answers ++ (obs.answer f).toList.map (i, ·)
        acts := h.acts ++ (obs.event c.state f (m.exec input f c.state).1).toList }
    | _ => h

def history (c : Config σ φ) (h : History φ A E) : List (Event φ ι) → History φ A E
  | [] => h
  | e :: es => history (m.apply c e) (obs.note m c h e) es

variable {m obs}

theorem note_step {c : Config σ φ} {i : Nat} {f : φ} {rest : List φ} (h : History φ A E)
    (htask : c.tasks[i]? = some (f :: rest)) (input : ι) : obs.note m c h (.step i input) =
      { h with
        answers := h.answers ++ (obs.answer f).toList.map (i, ·)
        acts := h.acts ++ (obs.event c.state f (m.exec input f c.state).1).toList } := by
  simp [note, htask]

end Observer

/-- The log accounts for everything observed up to this configuration. -/
structure Accounts (obs : Observer σ φ C A E) (obj : SeqObject T C A E) (view : σ → T) (t₀ : T) (h : History φ A E)
    (c : Config σ φ) (log : List (Entry C A E)) : Prop where
  performs : obj.Performs t₀ log (view c.state)
  once : (log.filterMap Entry.task).Nodup
  acts : log.filterMap Entry.act = h.acts
  arrived : ∀ i q a, .call i q a ∈ log → ∃ f, h.requests[i]? = some f ∧ obs.call f = some q
  answered : ∀ i a f q, (i, a) ∈ h.answers → h.requests[i]? = some f → obs.call f = some q → .call i q a ∈ log
  finished : ∀ i q a, .call i q a ∈ log → c.tasks[i]? = some [] → (i, a) ∈ h.answers

/-- At every moment of the run the log written so far, in the end all of it, accounts for what has been observed. -/
def Linearizes (obs : Observer σ φ C A E) (obj : SeqObject T C A E) (view : σ → T) (s₀ : σ)
    (es : List (Event φ ι)) (log : List (Entry C A E)) : Prop :=
  ∀ es₁ es₂, es = es₁ ++ es₂ → ∃ log₁ log₂, log = log₁ ++ log₂ ∧ (es₂ = [] → log₂ = []) ∧
    Accounts obs obj view (view s₀) (obs.history m (start s₀) {} es₁) (m.run (start s₀) es₁) log₁

/-! ### Simulations -/

theorem Config.mem_others [DecidableEq φ] {c : Config σ φ} {i : Nat} {f : φ} {rest : List φ}
    (htask : c.tasks[i]? = some (f :: rest)) :
    (∀ g ∈ rest, g ∈ c.frames.erase f) ∧
      ∀ j st, j ≠ i → c.tasks[j]? = some st → ∀ g ∈ st, g ∈ c.frames.erase f := by
  obtain ⟨hi, hget⟩ := List.getElem?_eq_some_iff.mp htask
  have hsplit : c.tasks = c.tasks.take i ++ (f :: rest) :: c.tasks.drop (i + 1) := by
    rw [← hget, List.getElem_cons_drop, List.take_append_drop]
  have hframes : c.frames = (c.tasks.take i).flatten ++ f :: (rest ++ (c.tasks.drop (i + 1)).flatten) := by
    have hflat := congrArg List.flatten hsplit
    simpa [Config.frames] using hflat
  have hperm : (c.frames.erase f).Perm ((c.tasks.take i).flatten ++ (rest ++ (c.tasks.drop (i + 1)).flatten)) := by
    rw [hframes]
    have hmiddle : ((c.tasks.take i).flatten ++ f :: (rest ++ (c.tasks.drop (i + 1)).flatten)).Perm
        (f :: ((c.tasks.take i).flatten ++ (rest ++ (c.tasks.drop (i + 1)).flatten))) := List.perm_middle
    simpa using hmiddle.erase f
  refine ⟨fun g hg => hperm.mem_iff.mpr (by simp [hg]), fun j st hj hst g hg => hperm.mem_iff.mpr ?_⟩
  rcases Nat.lt_or_gt_of_ne hj with hlt | hgt
  · have hmem : st ∈ c.tasks.take i := List.mem_of_getElem? (i := j) (by rw [List.getElem?_take_of_lt hlt, hst])
    exact List.mem_append_left _ (List.mem_flatten.mpr ⟨st, hmem, hg⟩)
  · have hmem : st ∈ c.tasks.drop (i + 1) := by
      refine List.mem_of_getElem? (i := j - (i + 1)) ?_
      rw [List.getElem?_drop, Nat.add_sub_cancel' hgt, hst]
    exact List.mem_append_right _ (List.mem_append_right _ (List.mem_flatten.mpr ⟨st, hmem, hg⟩))

/-- The step leaves the object alone or is an act of the environment on it. -/
def Bystands (obs : Observer σ φ C A E) (obj : SeqObject T C A E) (view : σ → T) (s : σ) (f : φ) (s' : σ) : Prop :=
  obs.event s f s' = none ∧ view s' = view s ∨ ∃ e, obs.event s f s' = some e ∧ obj.event (view s) e (view s')

theorem Bystands.entries {obs : Observer σ φ C A E} {obj : SeqObject T C A E} {view : σ → T} {s s' : σ} {f : φ}
    (hby : Bystands obs obj view s f s') :
    ∃ ext, obj.Performs (view s) ext (view s') ∧ ext.filterMap Entry.task = [] ∧
      ext.filterMap Entry.act = (obs.event s f s').toList ∧ ∀ i q a, .call i q a ∉ ext := by
  rcases hby with ⟨hnone, hsame⟩ | ⟨e, hsome, hact⟩
  · exact ⟨[], hsame.symm, rfl, by rw [hnone]; rfl, fun _ _ _ => List.not_mem_nil⟩
  · exact ⟨[.event e], ⟨_, hact, rfl⟩, rfl, by rw [hsome]; rfl, by simp⟩

/-- Where a call takes effect: until then its task is `pending`, from then on it is `done` and will give the answer
the object gave. Tasks that are no calls are `outside`. -/
structure Simulation [DecidableEq φ] (r : Rules σ φ ι) (obs : Observer σ φ C A E) (obj : SeqObject T C A E)
    (view : σ → T) where
  inv : σ → List φ → Prop
  outside : σ → List φ → Prop
  pending : σ → C → List φ → Prop
  done : σ → A → List φ → Prop
  inv_spawn : ∀ s fs f, inv s fs → r.spawn s fs f → inv s (fs ++ [f])
  inv_step : ∀ s pre f post input, inv s (pre ++ f :: post) → r.step s (pre ++ f :: post) input f →
    inv (m.exec input f s).1 (pre ++ ((m.exec input f s).2 ++ post))
  arrive_call : ∀ s fs f q, inv s fs → r.spawn s fs f → obs.call f = some q → pending s q [f]
  arrive_other : ∀ s fs f, inv s fs → r.spawn s fs f → obs.call f = none → outside s [f]
  keep_outside : ∀ s fs input f st, inv s fs → f ∈ fs → r.step s fs input f → (∀ g ∈ st, g ∈ fs.erase f) →
    outside s st → outside (m.exec input f s).1 st
  keep_pending : ∀ s fs input f st q, inv s fs → f ∈ fs → r.step s fs input f → (∀ g ∈ st, g ∈ fs.erase f) →
    pending s q st → pending (m.exec input f s).1 q st
  keep_done : ∀ s fs input f st a, inv s fs → f ∈ fs → r.step s fs input f → (∀ g ∈ st, g ∈ fs.erase f) →
    done s a st → done (m.exec input f s).1 a st
  step_outside : ∀ s fs input f rest, inv s fs → f ∈ fs → r.step s fs input f → (∀ g ∈ rest, g ∈ fs.erase f) →
    outside s (f :: rest) →
    Bystands obs obj view s f (m.exec input f s).1 ∧ outside (m.exec input f s).1 ((m.exec input f s).2 ++ rest)
  step_pending : ∀ s fs input f rest q, inv s fs → f ∈ fs → r.step s fs input f → (∀ g ∈ rest, g ∈ fs.erase f) →
    pending s q (f :: rest) → obs.answer f = none ∧
      (Bystands obs obj view s f (m.exec input f s).1 ∧ pending (m.exec input f s).1 q ((m.exec input f s).2 ++ rest) ∨
        obs.event s f (m.exec input f s).1 = none ∧ ∃ a, obj.call (view s) q a (view (m.exec input f s).1) ∧
          done (m.exec input f s).1 a ((m.exec input f s).2 ++ rest))
  step_done : ∀ s fs input f rest a, inv s fs → f ∈ fs → r.step s fs input f → (∀ g ∈ rest, g ∈ fs.erase f) →
    done s a (f :: rest) → Bystands obs obj view s f (m.exec input f s).1 ∧
      (obs.answer f = none ∧ done (m.exec input f s).1 a ((m.exec input f s).2 ++ rest) ∨
        obs.answer f = some a ∧ (m.exec input f s).2 ++ rest = [])
  unfinished : ∀ s a, ¬done s a []

namespace Simulation

variable {m} [DecidableEq φ] {r : Rules σ φ ι} {obs : Observer σ φ C A E} {obj : SeqObject T C A E} {view : σ → T}
  (sim : Simulation m r obs obj view)

theorem getElem?_snoc {α : Type} {l : List α} {a x : α} {i : Nat} (h : (l ++ [a])[i]? = some x) :
    i < l.length ∧ l[i]? = some x ∨ i = l.length ∧ x = a := by
  rw [List.getElem?_append] at h
  split at h
  · next hlt => exact Or.inl ⟨hlt, h⟩
  · next hge =>
    rw [List.getElem?_singleton] at h
    split at h
    · next hzero => exact Or.inr ⟨by omega, (Option.some.inj h).symm⟩
    · exact absurd h (by simp)

inductive Phase (s : σ) (answers : List (Nat × A)) (log : List (Entry C A E)) (i : Nat) (q : C) (st : List φ) : Prop
  | pending (hst : sim.pending s q st) (hlog : i ∉ log.filterMap Entry.task)
  | done (a : A) (hlog : .call i q a ∈ log) (hst : sim.done s a st)
  | answered (a : A) (hlog : .call i q a ∈ log) (hst : st = []) (hsent : (i, a) ∈ answers)

structure Relates (t₀ : T) (h : History φ A E) (c : Config σ φ) (log : List (Entry C A E)) : Prop where
  inv : sim.inv c.state c.frames
  length : h.requests.length = c.tasks.length
  performs : obj.Performs t₀ log (view c.state)
  once : (log.filterMap Entry.task).Nodup
  acts : log.filterMap Entry.act = h.acts
  arrived : ∀ i q a, .call i q a ∈ log → ∃ f, h.requests[i]? = some f ∧ obs.call f = some q
  answered : ∀ i a f q, (i, a) ∈ h.answers → h.requests[i]? = some f → obs.call f = some q → .call i q a ∈ log
  senders : ∀ i a, (i, a) ∈ h.answers → i < h.requests.length
  outside : ∀ (i : Nat) f st, h.requests[i]? = some f → c.tasks[i]? = some st → obs.call f = none → sim.outside c.state st
  phase : ∀ (i : Nat) f q st, h.requests[i]? = some f → c.tasks[i]? = some st → obs.call f = some q →
    sim.Phase c.state h.answers log i q st

variable {sim}

theorem Relates.accounts {t₀ : T} {h : History φ A E} {c : Config σ φ} {log : List (Entry C A E)}
    (hrel : sim.Relates t₀ h c log) : Accounts obs obj view t₀ h c log where
  performs := hrel.performs
  once := hrel.once
  acts := hrel.acts
  arrived := hrel.arrived
  answered := hrel.answered
  finished i q a hlog hst := by
    obtain ⟨f, hf, hq⟩ := hrel.arrived i q a hlog
    cases hrel.phase i f q [] hf hst hq with
    | pending _ hnew => exact absurd (Entry.mem_tasks hlog) hnew
    | done a' _ hdone => exact absurd hdone (sim.unfinished c.state a')
    | answered a' hlog' _ hsent => exact Entry.unique hrel.once hlog' hlog ▸ hsent

theorem Relates.spawn {t₀ : T} {h : History φ A E} {c : Config σ φ} {log : List (Entry C A E)}
    (hrel : sim.Relates t₀ h c log) {f : φ} (hf : r.spawn c.state c.frames f) :
    sim.Relates t₀ (obs.note m c h (.spawn f)) (m.apply c (.spawn f)) log := by
  have hold : ∀ {i : Nat} {g : φ} {st : List φ}, (h.requests ++ [f])[i]? = some g → (c.tasks ++ [[f]])[i]? = some st →
      h.requests[i]? = some g ∧ c.tasks[i]? = some st ∨ i = h.requests.length ∧ g = f ∧ st = [f] := by
    intro i g st hg hst
    rcases getElem?_snoc hg with ⟨hlt, hg⟩ | ⟨hi, rfl⟩
    · rcases getElem?_snoc hst with ⟨-, hst⟩ | ⟨hi, -⟩
      · exact Or.inl ⟨hg, hst⟩
      · exact absurd hlt (by rw [hrel.length, hi]; exact Nat.lt_irrefl _)
    · rcases getElem?_snoc hst with ⟨hlt, -⟩ | ⟨-, rfl⟩
      · exact absurd hlt (by rw [← hrel.length, hi]; exact Nat.lt_irrefl _)
      · exact Or.inr ⟨hi, rfl, rfl⟩
  have hmore : ∀ {i : Nat} {g : φ}, h.requests[i]? = some g → (h.requests ++ [f])[i]? = some g := by
    intro i g hg
    rw [List.getElem?_append_left (List.getElem?_eq_some_iff.mp hg).1]
    exact hg
  refine ⟨frames_spawn c f ▸ sim.inv_spawn _ _ _ hrel.inv hf, ?_, hrel.performs, hrel.once, hrel.acts, ?_, ?_, ?_, ?_,
    ?_⟩
  · simp [Observer.note, apply, hrel.length]
  · intro i q a hlog
    obtain ⟨g, hg, hq⟩ := hrel.arrived i q a hlog
    exact ⟨g, hmore hg, hq⟩
  · intro i a g q hsent hg hq
    rcases getElem?_snoc hg with ⟨-, hg⟩ | ⟨hi, -⟩
    · exact hrel.answered i a g q hsent hg hq
    · exact absurd (hrel.senders i a hsent) (by rw [hi]; exact Nat.lt_irrefl _)
  · intro i a hsent
    have hlt := hrel.senders i a hsent
    simp only [Observer.note, List.length_append, List.length_singleton]
    omega
  · intro i g st hg hst hq
    rcases hold hg hst with ⟨hg, hst⟩ | ⟨-, rfl, rfl⟩
    · exact hrel.outside i g st hg hst hq
    · exact sim.arrive_other _ _ _ hrel.inv hf hq
  · intro i g q st hg hst hq
    rcases hold hg hst with ⟨hg, hst⟩ | ⟨hi, rfl, rfl⟩
    · exact hrel.phase i g q st hg hst hq
    · refine .pending (sim.arrive_call _ _ _ _ hrel.inv hf hq) fun hin => ?_
      obtain ⟨q', a, hlog⟩ := Entry.of_mem_tasks hin
      obtain ⟨g', hg', -⟩ := hrel.arrived i q' a hlog
      rw [hi, List.getElem?_eq_none (Nat.le_refl _)] at hg'
      exact absurd hg' (by simp)

/-- What the executed task has to provide for the entries it adds to the log. -/
structure Extends (c : Config σ φ) (h : History φ A E) (log : List (Entry C A E)) (i : Nat) (f : φ) (s' : σ)
    (st : List φ) (ext : List (Entry C A E)) : Prop where
  performs : obj.Performs (view c.state) ext (view s')
  once : ext.filterMap Entry.task = [] ∨ ext.filterMap Entry.task = [i] ∧ i ∉ log.filterMap Entry.task
  acts : ext.filterMap Entry.act = (obs.event c.state f s').toList
  arrived : ∀ q a, .call i q a ∈ ext → ∃ f₀, h.requests[i]? = some f₀ ∧ obs.call f₀ = some q
  answered : ∀ a f₀ q, obs.answer f = some a → h.requests[i]? = some f₀ → obs.call f₀ = some q →
    .call i q a ∈ log ++ ext
  outside : ∀ f₀, h.requests[i]? = some f₀ → obs.call f₀ = none → sim.outside s' st
  phase : ∀ f₀ q, h.requests[i]? = some f₀ → obs.call f₀ = some q →
    sim.Phase s' (h.answers ++ (obs.answer f).toList.map (i, ·)) (log ++ ext) i q st

variable {t₀ : T} {h : History φ A E} {c : Config σ φ} {log ext : List (Entry C A E)} {i : Nat} {input : ι} {f : φ}
  {rest : List φ}

theorem Extends.task_eq {s' : σ} {st : List φ} (hext : sim.Extends c h log i f s' st ext) {j : Nat} {q : C} {a : A}
    (hx : .call j q a ∈ ext) : j = i := by
  have hmem := Entry.mem_tasks hx
  rcases hext.once with hnil | ⟨hone, -⟩
  · exact absurd (hnil ▸ hmem) List.not_mem_nil
  · exact List.mem_singleton.mp (hone ▸ hmem)

theorem Relates.advance (hrel : sim.Relates t₀ h c log) (htask : c.tasks[i]? = some (f :: rest))
    (hrule : r.step c.state c.frames input f)
    (hext : sim.Extends c h log i f (m.exec input f c.state).1 ((m.exec input f c.state).2 ++ rest) ext) :
    sim.Relates t₀ (obs.note m c h (.step i input)) (m.apply c (.step i input)) (log ++ ext) := by
  obtain ⟨-, hothers⟩ := Config.mem_others htask
  have hmem : f ∈ c.frames := Config.mem_frames htask
  have hi : i < c.tasks.length := (List.getElem?_eq_some_iff.mp htask).1
  obtain ⟨pre, post, hframes, hstate, hnext⟩ := apply_step (m := m) htask input
  have htasks : (m.apply c (.step i input)).tasks = c.tasks.set i ((m.exec input f c.state).2 ++ rest) := by
    simp [apply, htask]
  have hown : ∀ st, (m.apply c (.step i input)).tasks[i]? = some st → st = (m.exec input f c.state).2 ++ rest := by
    intro st hst
    rw [htasks, List.getElem?_set_self hi] at hst
    exact (Option.some.inj hst).symm
  have hother : ∀ {j : Nat}, j ≠ i → (m.apply c (.step i input)).tasks[j]? = c.tasks[j]? := by
    intro j hj
    rw [htasks, List.getElem?_set_ne (Ne.symm hj)]
  rw [Observer.note_step h htask input]
  refine ⟨?_, ?_, ?_, ?_, ?_, ?_, ?_, ?_, ?_, ?_⟩
  · rw [hstate, hnext]
    exact sim.inv_step _ _ _ _ _ (hframes ▸ hrel.inv) (hframes ▸ hrule)
  · rw [htasks, List.length_set]
    exact hrel.length
  · rw [hstate]
    exact SeqObject.performs_append.mpr ⟨_, hrel.performs, hext.performs⟩
  · rw [List.filterMap_append]
    rcases hext.once with hnil | ⟨hone, hnew⟩
    · rw [hnil, List.append_nil]
      exact hrel.once
    · rw [hone]
      exact List.nodup_append_comm.mpr (List.nodup_cons.mpr ⟨hnew, hrel.once⟩)
  · rw [List.filterMap_append, hrel.acts, hext.acts]
  · intro j q a hlog
    rcases List.mem_append.mp hlog with hlog | hx
    · exact hrel.arrived j q a hlog
    · obtain rfl := hext.task_eq hx
      exact hext.arrived q a hx
  · intro j a f₀ q hsent hf₀ hq
    rcases List.mem_append.mp hsent with hsent | hsent
    · exact List.mem_append_left _ (hrel.answered j a f₀ q hsent hf₀ hq)
    · obtain ⟨a', ha', hpair⟩ := List.mem_map.mp hsent
      obtain ⟨rfl, rfl⟩ := Prod.mk.inj hpair
      exact hext.answered a' f₀ q (Option.mem_toList.mp ha') hf₀ hq
  · intro j a hsent
    rcases List.mem_append.mp hsent with hsent | hsent
    · exact hrel.senders j a hsent
    · obtain ⟨a', -, hpair⟩ := List.mem_map.mp hsent
      obtain ⟨rfl, -⟩ := Prod.mk.inj hpair
      exact hrel.length ▸ hi
  · intro j f₀ st hf₀ hst hq
    rw [hstate]
    by_cases hj : j = i
    · subst hj
      rw [hown st hst]
      exact hext.outside f₀ hf₀ hq
    · rw [hother hj] at hst
      exact sim.keep_outside _ _ _ _ _ hrel.inv hmem hrule (hothers j st hj hst) (hrel.outside j f₀ st hf₀ hst hq)
  · intro j f₀ q st hf₀ hst hq
    rw [hstate]
    by_cases hj : j = i
    · subst hj
      rw [hown st hst]
      exact hext.phase f₀ q hf₀ hq
    · rw [hother hj] at hst
      cases hrel.phase j f₀ q st hf₀ hst hq with
      | pending hpend hnew =>
        refine .pending (sim.keep_pending _ _ _ _ _ _ hrel.inv hmem hrule (hothers j st hj hst) hpend) fun hin => ?_
        obtain ⟨q', a, hlog⟩ := Entry.of_mem_tasks hin
        rcases List.mem_append.mp hlog with hlog | hx
        · exact hnew (Entry.mem_tasks hlog)
        · exact hj (hext.task_eq hx)
      | done a hlog hdone =>
        exact .done a (List.mem_append_left _ hlog)
          (sim.keep_done _ _ _ _ _ _ hrel.inv hmem hrule (hothers j st hj hst) hdone)
      | answered a hlog hnil hsent =>
        exact .answered a (List.mem_append_left _ hlog) hnil (List.mem_append_left _ hsent)

theorem Relates.step (hrel : sim.Relates t₀ h c log) (htask : c.tasks[i]? = some (f :: rest))
    (hrule : r.step c.state c.frames input f) :
    ∃ ext, sim.Relates t₀ (obs.note m c h (.step i input)) (m.apply c (.step i input)) (log ++ ext) := by
  obtain ⟨hrest, -⟩ := Config.mem_others htask
  have hmem : f ∈ c.frames := Config.mem_frames htask
  obtain ⟨f₀, hf₀⟩ : ∃ f₀, h.requests[i]? = some f₀ := by
    have hi : i < h.requests.length := hrel.length ▸ (List.getElem?_eq_some_iff.mp htask).1
    exact ⟨_, List.getElem?_eq_getElem hi⟩
  have hthis : ∀ {g : φ}, h.requests[i]? = some g → g = f₀ := fun hg => Option.some.inj (hg.symm.trans hf₀)
  cases hcall : obs.call f₀ with
  | none =>
    obtain ⟨hby, hout⟩ := sim.step_outside _ _ input _ _ hrel.inv hmem hrule hrest (hrel.outside i f₀ _ hf₀ htask hcall)
    obtain ⟨ext, hperf, hnil, hacts, hno⟩ := Bystands.entries hby
    refine ⟨ext, hrel.advance htask hrule ⟨hperf, Or.inl hnil, hacts, ?_, ?_, fun _ _ _ => hout, ?_⟩⟩
    · exact fun q a hx => absurd hx (hno i q a)
    · intro a g q _ hg hq
      rw [hthis hg, hcall] at hq
      exact absurd hq (by simp)
    · intro g q hg hq
      rw [hthis hg, hcall] at hq
      exact absurd hq (by simp)
  | some q =>
    have hcalls : ∀ {g : φ} {q' : C}, h.requests[i]? = some g → obs.call g = some q' → q' = q := by
      intro g q' hg hq
      rw [hthis hg, hcall] at hq
      exact (Option.some.inj hq).symm
    have hnone : ∀ g, h.requests[i]? = some g → obs.call g = none → False := by
      intro g hg hq
      rw [hthis hg, hcall] at hq
      exact absurd hq (by simp)
    cases hrel.phase i f₀ q _ hf₀ htask hcall with
    | pending hpend hnew =>
      obtain ⟨hanswer, ⟨hby, hpend'⟩ | ⟨hnoact, a, heffect, hdone⟩⟩ :=
        sim.step_pending _ _ input _ _ _ hrel.inv hmem hrule hrest hpend
      · obtain ⟨ext, hperf, hnil, hacts, hno⟩ := Bystands.entries hby
        refine ⟨ext, hrel.advance htask hrule
          ⟨hperf, Or.inl hnil, hacts, fun q a hx => absurd hx (hno i q a), ?_, fun g hg hq => (hnone g hg hq).elim, ?_⟩⟩
        · intro a g q' ha
          rw [hanswer] at ha
          exact absurd ha (by simp)
        · intro g q' hg hq
          obtain rfl := hcalls hg hq
          refine .pending hpend' ?_
          rw [List.filterMap_append, hnil, List.append_nil]
          exact hnew
      · refine ⟨[.call i q a], hrel.advance htask hrule
          ⟨⟨_, heffect, rfl⟩, Or.inr ⟨rfl, hnew⟩, by rw [hnoact]; rfl, ?_, ?_, fun g hg hq => (hnone g hg hq).elim, ?_⟩⟩
        · intro q' a' hx
          cases List.mem_singleton.mp hx
          exact ⟨f₀, hf₀, hcall⟩
        · intro a' g q' ha
          rw [hanswer] at ha
          exact absurd ha (by simp)
        · intro g q' hg hq
          obtain rfl := hcalls hg hq
          exact .done a (by simp) hdone
    | done a hlog hdone =>
      obtain ⟨hby, hnext⟩ := sim.step_done _ _ input _ _ _ hrel.inv hmem hrule hrest hdone
      obtain ⟨ext, hperf, hnil, hacts, hno⟩ := Bystands.entries hby
      refine ⟨ext, hrel.advance htask hrule
        ⟨hperf, Or.inl hnil, hacts, fun q a hx => absurd hx (hno i q a), ?_, fun g hg hq => (hnone g hg hq).elim, ?_⟩⟩
      · intro a' g q' ha hg hq
        obtain rfl := hcalls hg hq
        rcases hnext with ⟨hquiet, -⟩ | ⟨hsends, -⟩
        · exact absurd (hquiet.symm.trans ha) (by simp)
        · obtain rfl := Option.some.inj (hsends.symm.trans ha)
          exact List.mem_append_left _ hlog
      · intro g q' hg hq
        obtain rfl := hcalls hg hq
        rcases hnext with ⟨-, hdone'⟩ | ⟨hsends, hend⟩
        · exact .done a (List.mem_append_left _ hlog) hdone'
        · exact .answered a (List.mem_append_left _ hlog) hend (by simp [hsends])
    | answered a hlog hnil hsent => cases hnil

theorem Relates.apply (hrel : sim.Relates t₀ h c log) {e : Event φ ι} (hallow : r.Allows c e) :
    ∃ ext, sim.Relates t₀ (obs.note m c h e) (m.apply c e) (log ++ ext) := by
  cases e with
  | spawn f => exact ⟨[], by simpa using hrel.spawn hallow⟩
  | step i input =>
    cases htask : c.tasks[i]? with
    | none => exact ⟨[], by simpa [Observer.note, Machine.apply, htask] using hrel⟩
    | some stack =>
      cases stack with
      | nil => exact ⟨[], by simpa [Observer.note, Machine.apply, htask] using hrel⟩
      | cons f rest => exact hrel.step htask (by simpa [Rules.Allows, htask] using hallow)

/-- Every run of a simulated machine is linearized, whatever has been observed before. -/
theorem Relates.run (hrel : sim.Relates t₀ h c log) {es : List (Event φ ι)} (hes : r.Permits m c es) :
    ∃ ext, ∀ es₁ es₂, es = es₁ ++ es₂ → ∃ ext₁ ext₂, ext = ext₁ ++ ext₂ ∧ (es₂ = [] → ext₂ = []) ∧
      sim.Relates t₀ (obs.history m c h es₁) (m.run c es₁) (log ++ ext₁) := by
  induction es generalizing c h log with
  | nil =>
    refine ⟨[], fun es₁ es₂ hsplit => ?_⟩
    obtain ⟨rfl, rfl⟩ := List.append_eq_nil_iff.mp hsplit.symm
    exact ⟨[], [], rfl, fun _ => rfl, by simpa [Observer.history] using hrel⟩
  | cons e es ih =>
    obtain ⟨ext, hnext⟩ := hrel.apply hes.1
    obtain ⟨later, hlater⟩ := ih hnext hes.2
    refine ⟨ext ++ later, fun es₁ es₂ hsplit => ?_⟩
    cases es₁ with
    | nil =>
      refine ⟨[], ext ++ later, rfl, fun hend => ?_, by simpa [Observer.history] using hrel⟩
      exact absurd (hsplit.trans (congrArg ([] ++ ·) hend)) (by simp)
    | cons e' es₁ =>
      obtain ⟨rfl, hes'⟩ := List.cons.inj hsplit
      obtain ⟨ext₁, ext₂, rfl, hend, hmoment⟩ := hlater es₁ es₂ hes'
      exact ⟨ext ++ ext₁, ext₂, by simp, hend, by simpa [Observer.history] using hmoment⟩

theorem linearizes (sim : Simulation m r obs obj view) {s₀ : σ} (hinit : sim.inv s₀ []) {es : List (Event φ ι)}
    (hes : r.Permits m (start s₀) es) : ∃ log, Linearizes m obs obj view s₀ es log := by
  have hstart : sim.Relates (view s₀) {} (start s₀) [] :=
    ⟨hinit, rfl, rfl, List.nodup_nil, rfl, by simp, by simp, by simp, by simp, by simp⟩
  obtain ⟨log, hlog⟩ := hstart.run hes
  refine ⟨log, fun es₁ es₂ hsplit => ?_⟩
  obtain ⟨log₁, log₂, heq, hend, hmoment⟩ := hlog es₁ es₂ hsplit
  exact ⟨log₁, log₂, heq, hend, hmoment.accounts⟩

end Simulation

end Machine
