import LightNfs.Lib.Machine

/-!
# Machines with more detail

A machine may refine another one: its state and its frames carry more, and some of its frames have no
counterpart. If every frame executes as its projection does, or changes nothing the projection sees, then
every run projects to a run.
-/

namespace Machine

variable {σ φ ι σ' φ' : Type}

/-- The frame `f` stands for the frames `frames f`. Executing it is executing the first of them, or is not seen. -/
structure Projects (m : Machine σ φ ι) (m' : Machine σ' φ' ι) (state : σ → σ') (frames : φ → List φ') : Prop where
  exec : ∀ input f s,
    (∃ g rest, frames f = g :: rest ∧ state (m.exec input f s).1 = (m'.exec input g (state s)).1 ∧
      (m.exec input f s).2.flatMap frames = (m'.exec input g (state s)).2 ++ rest) ∨
    (state (m.exec input f s).1 = state s ∧ (m.exec input f s).2.flatMap frames = frames f)

namespace Projects

variable {m : Machine σ φ ι} {m' : Machine σ' φ' ι} {state : σ → σ'} {frames : φ → List φ'}

def view (state : σ → σ') (frames : φ → List φ') (c : Config σ φ) : Config σ' φ' :=
  ⟨state c.state, c.tasks.map (List.flatMap frames)⟩

theorem step (h : Projects m m' state frames) (c : Config σ φ) (i : Nat) (input : ι) :
    view state frames (m.apply c (.step i input)) = m'.apply (view state frames c) (.step i input) ∨
      view state frames (m.apply c (.step i input)) = view state frames c := by
  cases htask : c.tasks[i]? with
  | none => exact Or.inr (by simp [apply, htask])
  | some stack =>
    cases stack with
    | nil => exact Or.inr (by simp [apply, htask])
    | cons f rest =>
      obtain ⟨g, more, hframes, hstate, hnext⟩ | ⟨hstate, hnext⟩ := h.exec input f c.state
      · left
        have hview : (view state frames c).tasks[i]? = some (g :: (more ++ rest.flatMap frames)) := by
          simp [view, htask, hframes]
        simp only [apply, htask, hview]
        simp [view, hstate, hnext, List.map_set]
      · right
        obtain ⟨hi, hget⟩ := List.getElem?_eq_some_iff.mp htask
        simp only [apply, htask, view, hstate, List.map_set, List.flatMap_append, hnext]
        rw [← List.flatMap_cons, ← hget, ← List.map_set, List.set_getElem_self]

/-- Every run whose arrivals stand for one frame each projects to a run with these arrivals. -/
theorem run (h : Projects m m' state frames) (c : Config σ φ) (es : List (Event φ ι))
    (hspawn : ∀ f, .spawn f ∈ es → ∃ g, frames f = [g]) :
    ∃ es', m'.run (view state frames c) es' = view state frames (m.run c es) ∧
      ∀ g, .spawn g ∈ es' → ∃ f, .spawn f ∈ es ∧ frames f = [g] := by
  induction es generalizing c with
  | nil => exact ⟨[], rfl, by simp⟩
  | cons e es ih =>
    obtain ⟨es', hrun, harrive⟩ := ih (m.apply c e) fun f hf => hspawn f (List.mem_cons_of_mem _ hf)
    have hlater : ∀ g, .spawn g ∈ es' → ∃ f, .spawn f ∈ e :: es ∧ frames f = [g] := by
      intro g hg
      obtain ⟨f, hf, hfg⟩ := harrive g hg
      exact ⟨f, List.mem_cons_of_mem _ hf, hfg⟩
    cases e with
    | spawn f =>
      obtain ⟨g, hg⟩ := hspawn f (List.mem_cons_self ..)
      have harrives : m'.apply (view state frames c) (.spawn g) = view state frames (m.apply c (.spawn f)) := by
        simp [apply, view, hg]
      refine ⟨.spawn g :: es', by rw [run_cons, harrives, hrun, run_cons], ?_⟩
      rintro g' (_ | ⟨_, hin⟩)
      · exact ⟨f, List.mem_cons_self .., hg⟩
      · exact hlater g' hin
    | step i input =>
      rcases h.step c i input with hsame | hunseen
      · refine ⟨.step i input :: es', by rw [run_cons, ← hsame, hrun, run_cons], ?_⟩
        rintro g (_ | ⟨_, hin⟩)
        exact hlater g hin
      · exact ⟨es', by rw [← hunseen, hrun, run_cons], hlater⟩

end Projects

end Machine
