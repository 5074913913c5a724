import Mathlib

/-!
# Interleavings of cooperative tasks

A server runs each request as a coroutine that holds at most one lock at a time. A task is then a
stack of *frames*, a frame being the code from one suspension point to the next together with the
local variables it needs. Executing the top frame changes the shared state and replaces the frame by
the frames that follow it, so a call is a frame pushed above the caller's continuation.

An interleaving is a list of events: a new task arrives, or one of the tasks executes its top frame.
-/

/-- `exec input frame state` is the state after the frame and the frames to run in its place. The
input is whatever the environment supplies to that step. -/
structure Machine (σ φ ι : Type) where
  exec : ι → φ → σ → σ × List φ

namespace Machine

variable {σ φ ι : Type}

structure Config (σ φ : Type) where
  state : σ
  tasks : List (List φ)

inductive Event (φ ι : Type) where
  | spawn (frame : φ)
  | step (task : Nat) (input : ι)

namespace Config

def frames (c : Config σ φ) : List φ := c.tasks.flatten

/-- All tasks have finished. -/
def Quiescent (c : Config σ φ) : Prop := c.frames = []

instance (c : Config σ φ) : Decidable c.Quiescent := inferInstanceAs (Decidable (_ = []))

end Config

def start (state : σ) : Config σ φ := ⟨state, []⟩

variable {c : Config σ φ} {f g : φ} {pre : List φ} {es : List (Event φ ι)} {i : Nat} {input : ι}
variable {post next rest stack : List φ}

@[simp] theorem frames_start (state : σ) : (start state : Config σ φ).frames = [] := rfl

variable (m : Machine σ φ ι)

/-- A step of a task that does not exist or has finished does nothing. -/
def apply (c : Config σ φ) : Event φ ι → Config σ φ
  | .spawn f => { c with tasks := c.tasks ++ [[f]] }
  | .step i input =>
    match c.tasks[i]? with
    | some (f :: rest) =>
      ⟨(m.exec input f c.state).1, c.tasks.set i ((m.exec input f c.state).2 ++ rest)⟩
    | _ => c

def run (c : Config σ φ) (events : List (Event φ ι)) : Config σ φ := events.foldl m.apply c

@[simp] theorem run_nil (c : Config σ φ) : m.run c [] = c := rfl

@[simp] theorem run_cons (c : Config σ φ) (e : Event φ ι) (es : List (Event φ ι)) :
    m.run c (e :: es) = m.run (m.apply c e) es := rfl

theorem run_append (c : Config σ φ) (es es' : List (Event φ ι)) :
    m.run c (es ++ es') = m.run (m.run c es) es' := List.foldl_append

variable {m}

theorem frames_spawn (c : Config σ φ) (f : φ) : (m.apply c (.spawn f)).frames = c.frames ++ [f] := by
  simp [apply, Config.frames]

theorem apply_step (htask : c.tasks[i]? = some (f :: rest))
    (input : ι) :
    ∃ pre post, c.frames = pre ++ f :: post ∧ (m.apply c (.step i input)).state = (m.exec input f c.state).1 ∧
      (m.apply c (.step i input)).frames = pre ++ ((m.exec input f c.state).2 ++ post) := by
  obtain ⟨hi, hget⟩ := List.getElem?_eq_some_iff.mp htask
  refine ⟨(c.tasks.take i).flatten, rest ++ (c.tasks.drop (i + 1)).flatten, ?_, ?_, ?_⟩
  · have hsplit : c.tasks = c.tasks.take i ++ (f :: rest) :: c.tasks.drop (i + 1) := by
      rw [← hget, List.getElem_cons_drop, List.take_append_drop]
    have hflat := congrArg List.flatten hsplit
    simpa [Config.frames] using hflat
  · simp [apply, htask]
  · simp only [apply, htask, Config.frames]
    rw [List.set_eq_take_append_cons_drop, if_pos hi]
    simp

theorem apply_step_cases (c : Config σ φ) (i : Nat) (input : ι) :
    m.apply c (.step i input) = c ∨
      ∃ f rest pre post, c.tasks[i]? = some (f :: rest) ∧ c.frames = pre ++ f :: post ∧
        (m.apply c (.step i input)).state = (m.exec input f c.state).1 ∧
        (m.apply c (.step i input)).frames = pre ++ ((m.exec input f c.state).2 ++ post) := by
  cases htask : c.tasks[i]? with
  | none => exact Or.inl (by simp [apply, htask])
  | some stack =>
    cases stack with
    | nil => exact Or.inl (by simp [apply, htask])
    | cons f rest =>
      obtain ⟨pre, post, hframes, hstate, hnext⟩ := apply_step (m := m) htask input
      exact Or.inr ⟨f, rest, pre, post, rfl, hframes, hstate, hnext⟩

/-! ### Runs under rules -/

/-- Which tasks may arrive and which steps a run may take, given the state and all pending frames. -/
structure Rules (σ φ ι : Type) where
  spawn : σ → List φ → φ → Prop
  step : σ → List φ → ι → φ → Prop

variable {r : Rules σ φ ι}

namespace Rules

variable (r : Rules σ φ ι)

def Allows (c : Config σ φ) : Event φ ι → Prop
  | .spawn f => r.spawn c.state c.frames f
  | .step i input =>
    match c.tasks[i]? with
    | some (f :: _) => r.step c.state c.frames input f
    | _ => True

variable (m) in
/-- Every event of the run is allowed in the configuration it happens in. -/
def Permits (c : Config σ φ) : List (Event φ ι) → Prop
  | [] => True
  | e :: es => r.Allows c e ∧ Permits (m.apply c e) es

instance instDecidableAllows [∀ s fs f, Decidable (r.spawn s fs f)] [∀ s fs input f, Decidable (r.step s fs input f)]
    (c : Config σ φ) (e : Event φ ι) : Decidable (r.Allows c e) :=
  match e with
  | .spawn f => inferInstanceAs (Decidable (r.spawn c.state c.frames f))
  | .step i input =>
    match h : c.tasks[i]? with
    | some (f :: rest) => decidable_of_iff (r.step c.state c.frames input f) (by simp [Allows, h])
    | some [] => isTrue (by simp [Allows, h])
    | none => isTrue (by simp [Allows, h])

instance instDecidablePermits [∀ c e, Decidable (r.Allows c e)] (c : Config σ φ) :
    ∀ es, Decidable (r.Permits m c es)
  | [] => isTrue trivial
  | e :: es =>
    have := instDecidablePermits (m.apply c e) es
    inferInstanceAs (Decidable (r.Allows c e ∧ r.Permits m (m.apply c e) es))

end Rules

theorem Rules.permits_append {es' : List (Event φ ι)} :
    r.Permits m c (es ++ es') ↔ r.Permits m c es ∧ r.Permits m (m.run c es) es' := by
  induction es generalizing c with
  | nil => simp [Permits]
  | cons e es ih => simp [Permits, ih, and_assoc]

theorem Rules.permits_step (h : r.Permits m c (es ++ [Event.step i input]))
    (htask : (m.run c es).tasks[i]? = some (f :: rest)) :
    r.Permits m c es ∧ r.step (m.run c es).state (m.run c es).frames input f := by
  obtain ⟨hes, hlast, -⟩ := permits_append.mp h
  exact ⟨hes, by simpa [Allows, htask] using hlast⟩

theorem Config.mem_frames (htask : c.tasks[i]? = some (f :: rest)) :
    f ∈ c.frames :=
  List.mem_flatten.mpr ⟨f :: rest, List.mem_of_getElem? htask, List.mem_cons_self ..⟩

/-- What one arrival and one frame preserve, every permitted run preserves. -/
theorem run_invariant {r : Rules σ φ ι} {Inv : σ → List φ → Prop}
    (hspawn : ∀ s fs f, Inv s fs → r.spawn s fs f → Inv s (fs ++ [f]))
    (hstep : ∀ s pre f post input, Inv s (pre ++ f :: post) → r.step s (pre ++ f :: post) input f →
      Inv (m.exec input f s).1 (pre ++ ((m.exec input f s).2 ++ post)))
    {c : Config σ φ} (hinit : Inv c.state c.frames) {es : List (Event φ ι)} (hes : r.Permits m c es) :
    Inv (m.run c es).state (m.run c es).frames := by
  induction es generalizing c with
  | nil => exact hinit
  | cons e es ih =>
    obtain ⟨hallow, hrest⟩ := hes
    apply ih _ hrest
    cases e with
    | spawn f =>
      rw [frames_spawn]
      exact hspawn _ _ _ hinit hallow
    | step i input =>
      obtain hsame | ⟨f, rest, pre, post, htask, hframes, hstate, hnext⟩ := apply_step_cases (m := m) c i input
      · rw [hsame]
        exact hinit
      · have hguard : r.step c.state c.frames input f := by simpa [Rules.Allows, htask] using hallow
        rw [hstate, hnext]
        rw [hframes] at hinit hguard
        exact hstep _ _ _ _ _ hinit hguard

/-! ### One task at a time -/

/-- Every task but the last one has finished. -/
def Config.Sequential (c : Config σ φ) (stack : List φ) : Prop :=
  c.tasks = [] ∧ stack = [] ∨ ∃ n, c.tasks = List.replicate n [] ++ [stack]

theorem Config.Sequential.frames (h : c.Sequential stack) : c.frames = stack := by
  obtain ⟨htasks, rfl⟩ | ⟨n, htasks⟩ := h
  · simp [Config.frames, htasks]
  · simp [Config.frames, htasks]

theorem Config.Sequential.spawn (h : c.Sequential []) (f : φ) :
    (m.apply c (.spawn f)).Sequential [f] := by
  obtain ⟨htasks, -⟩ | ⟨n, htasks⟩ := h
  · exact Or.inr ⟨0, by simp [apply, htasks]⟩
  · exact Or.inr ⟨n + 1, by simp [apply, htasks, List.replicate_succ']⟩

theorem Config.Sequential.step (h : c.Sequential stack) (i : Nat) (input : ι) :
    m.apply c (.step i input) = c ∨
      ∃ f rest, c.tasks[i]? = some (f :: rest) ∧ stack = f :: rest ∧
        (m.apply c (.step i input)).state = (m.exec input f c.state).1 ∧
        (m.apply c (.step i input)).Sequential ((m.exec input f c.state).2 ++ rest) := by
  obtain ⟨htasks, rfl⟩ | ⟨n, htasks⟩ := h
  · exact Or.inl (by simp [apply, htasks])
  · rcases Nat.lt_trichotomy i n with hi | rfl | hi
    · have hdone : c.tasks[i]? = some [] := by simp [htasks, List.getElem?_append_left, hi]
      exact Or.inl (by simp [apply, hdone])
    · have htask : c.tasks[i]? = some stack := by simp [htasks]
      cases stack with
      | nil => exact Or.inl (by simp [apply, htask])
      | cons f rest =>
        refine Or.inr ⟨f, rest, htask, rfl, by simp [apply, htask], Or.inr ⟨i, ?_⟩⟩
        simp [apply, htasks]
    · have hnone : c.tasks[i]? = none := by
        rw [htasks, List.getElem?_eq_none_iff]
        simpa using Nat.succ_le_of_lt hi
      exact Or.inl (by simp [apply, hnone])

/-- An invariant of runs in which a task arrives only when the others have finished: it is about one stack,
and only the top of the stack is ever executed. -/
theorem run_sequential {Inv : σ → List φ → Prop} (hseq : ∀ s fs f, r.spawn s fs f → fs = [])
    (hspawn : ∀ s f, Inv s [] → r.spawn s [] f → Inv s [f])
    (hstep : ∀ s f rest input, Inv s (f :: rest) → r.step s (f :: rest) input f →
      Inv (m.exec input f s).1 ((m.exec input f s).2 ++ rest)) (hc : c.Sequential stack) (hinit : Inv c.state stack)
    (hes : r.Permits m c es) : Inv (m.run c es).state (m.run c es).frames := by
  induction es generalizing c stack with
  | nil => exact hc.frames.symm ▸ hinit
  | cons e es ih =>
    obtain ⟨hallow, hrest⟩ := hes
    cases e with
    | spawn f =>
      have hallow' : r.spawn c.state stack f := hc.frames ▸ hallow
      obtain rfl := hseq _ _ _ hallow'
      exact ih (hc.spawn f) (hspawn _ _ hinit hallow') hrest
    | step i input =>
      obtain hsame | ⟨f, rest, htask, rfl, hstate, hnext⟩ := hc.step (m := m) i input
      · rw [hsame] at hrest
        rw [run_cons, hsame]
        exact ih hc hinit hrest
      · have hguard : r.step c.state (f :: rest) input f := by simpa [Rules.Allows, htask, hc.frames] using hallow
        refine ih hnext ?_ hrest
        rw [hstate]
        exact hstep _ _ _ _ hinit hguard

/-! ### A task alone -/

/-- One request arrives in a state with nothing pending and its frames are executed one after the other. -/
def alone (m : Machine σ φ ι) (s : σ) (f : φ) (inputs : List ι) : Config σ φ :=
  m.run (start s) (.spawn f :: inputs.map (.step 0))

@[simp] theorem frames_alone_nil (s : σ) (f : φ) : (m.alone s f []).frames = [f] := rfl

theorem alone_cons {s s₁ : σ} (hexec : m.exec input f s = (s₁, [g])) (inputs : List ι) :
    m.alone s f (input :: inputs) = m.alone s₁ g inputs := by
  simp [alone, start, apply, hexec]

theorem frames_alone_done {s : σ} (hexec : (m.exec input f s).2 = []) (inputs : List ι) :
    (m.alone s f (input :: inputs)).frames = [] := by
  have hidle : ∀ c : Config σ φ, c.tasks = [[]] → m.run c (inputs.map (.step 0)) = c := by
    intro c hc
    induction inputs with
    | nil => rfl
    | cons input inputs ih =>
      have hstay : m.apply c (.step 0 input) = c := by simp [apply, hc]
      rw [List.map_cons, run_cons, hstay, ih]
  have hstep : m.alone s f (input :: inputs) =
      m.run ⟨(m.exec input f s).1, [[]]⟩ (inputs.map (.step 0)) := by
    simp [alone, start, apply, hexec]
  rw [hstep, hidle _ rfl]
  rfl

theorem mem_of_waiting (h : g ∈ pre ++ post) : g ∈ pre ++ f :: post := by
  rw [List.mem_append] at h ⊢
  exact h.imp_right (List.mem_cons_of_mem f)

theorem new_or_waiting (h : g ∈ pre ++ (next ++ post)) :
    g ∈ next ∨ g ∈ pre ++ post := by
  simp only [List.mem_append] at h ⊢
  tauto

theorem mem_of_mem_step (h : g ∈ pre ++ (next ++ post)) :
    g ∈ next ∨ g ∈ pre ++ f :: post := (new_or_waiting h).imp_right mem_of_waiting

theorem mem_step_of_ne (next : List φ) (h : g ∈ pre ++ f :: post) (hne : g ≠ f) :
    g ∈ pre ++ (next ++ post) := by
  simp only [List.mem_append, List.mem_cons] at h ⊢
  tauto

theorem mem_step_of_next (h : g ∈ next) : g ∈ pre ++ (next ++ post) := by
  simp [h]

/-- A property of single frames survives a step that keeps it for every waiting frame and establishes it
for the new ones. -/
theorem forall_frames_step {J J' : φ → Prop}
    (h : ∀ g ∈ pre ++ f :: post, J g) (hkeep : ∀ g, J g → J' g) (hnext : ∀ g ∈ next, J' g) :
    ∀ g ∈ pre ++ (next ++ post), J' g := by
  intro g hg
  rcases mem_of_mem_step hg with hg | hg
  · exact hnext g hg
  · exact hkeep g (h g hg)

/-! ### Tickets

Some frames carry a ticket that no other pending frame may carry. -/

section Tickets

variable {τ : Type} {ticket : φ → Option τ} {pre post next : List φ} {f : φ}

theorem nodup_tickets_step (h : ((pre ++ f :: post).filterMap ticket).Nodup)
    (hnext : next.filterMap ticket = [] ∨
      ∃ a, next.filterMap ticket = [a] ∧ a ∉ (pre ++ f :: post).filterMap ticket) :
    ((pre ++ (next ++ post)).filterMap ticket).Nodup := by
  have hsub : (pre ++ post).Sublist (pre ++ f :: post) := List.Sublist.append_left (List.sublist_cons_self f post) pre
  have hwait : ((pre ++ post).filterMap ticket).Nodup := h.sublist (hsub.filterMap ticket)
  rw [List.filterMap_append] at hwait
  rw [List.filterMap_append, List.filterMap_append]
  rcases hnext with hnil | ⟨a, hone, hnew⟩
  · rwa [hnil, List.nil_append]
  · have hnew' : a ∉ (pre ++ post).filterMap ticket := fun ha => hnew ((hsub.filterMap ticket).subset ha)
    rw [List.filterMap_append] at hnew'
    rw [hone, List.singleton_append, List.nodup_middle]
    exact List.nodup_cons.mpr ⟨hnew', hwait⟩

theorem nodup_tickets_pass (h : ((pre ++ f :: post).filterMap ticket).Nodup)
    (hnext : (next.filterMap ticket).Sublist ([f].filterMap ticket)) :
    ((pre ++ (next ++ post)).filterMap ticket).Nodup := by
  refine h.sublist ?_
  rw [List.append_cons, List.append_assoc]
  simp only [List.filterMap_append]
  exact List.Sublist.append_left (List.Sublist.append_right hnext _) _

theorem ticket_not_waiting {a : τ} (h : ((pre ++ f :: post).filterMap ticket).Nodup) (hf : ticket f = some a) :
    a ∉ (pre ++ post).filterMap ticket := by
  rw [List.filterMap_append, List.filterMap_cons_some hf] at h
  rw [List.filterMap_append]
  exact (List.nodup_cons.mp (List.nodup_middle.mp h)).1

end Tickets

/-! ### Weights

A counter that lags behind the state is off by what the pending frames still owe it. -/

theorem sum_weights_step {w w' : φ → Int} (next : List φ) (f : φ)
    (hkeep : ∀ g ∈ pre ++ post, w' g = w g) :
    ((pre ++ (next ++ post)).map w').sum = ((pre ++ f :: post).map w).sum - w f + (next.map w').sum := by
  have hpre : pre.map w' = pre.map w := List.map_congr_left fun g hg => hkeep g (List.mem_append_left _ hg)
  have hpost : post.map w' = post.map w := List.map_congr_left fun g hg => hkeep g (List.mem_append_right _ hg)
  simp only [List.map_append, List.map_cons, List.sum_append, List.sum_cons, hpre, hpost]
  omega

end Machine
