import Mathlib.Data.List.Basic

/-!
# Labelled transition systems and their runs

A system is a set of initial states with a labelled step relation.  A run records every transition
it takes, oldest first, so that a statement about a history is a statement about a list.  The rules
below are the ones used to verify a system: an invariant is carried along a run (`Run.invariant`),
a run is cut at any of its transitions (`Run.cut`), and a simulation transports reachability from
one system to another (`Simulation.reachable`).
-/

namespace Reactive

/-- Initial states and labelled steps. -/
structure System (S L : Type*) where
  init : S → Prop
  step : S → L → S → Prop

/-- One step of a run, with the states on both sides. -/
structure Transition (S L : Type*) where
  src : S
  label : L
  dst : S

namespace System

variable {S L : Type*} (M : System S L)

/-- Runs from `s₀`, with the transitions taken. -/
inductive Run (s₀ : S) : List (Transition S L) → S → Prop where
  | nil : Run s₀ [] s₀
  | snoc {ts : List (Transition S L)} {s t : S} {l : L} :
      Run s₀ ts s → M.step s l t → Run s₀ (ts ++ [⟨s, l, t⟩]) t

/-- A run that starts in an initial state. -/
def Execution (ts : List (Transition S L)) (s : S) : Prop := ∃ s₀, M.init s₀ ∧ M.Run s₀ ts s

def Reachable (s : S) : Prop := ∃ ts, M.Execution ts s

variable {M} {s₀ s t : S} {ts us : List (Transition S L)} {l : L}

theorem Run.append (first : M.Run s₀ ts s) (second : M.Run s us t) : M.Run s₀ (ts ++ us) t := by
  induction second with
  | nil => rwa [List.append_nil]
  | snoc _ step ih => rw [← List.append_assoc]; exact ih.snoc step

theorem Run.single (step : M.step s l t) : M.Run s [⟨s, l, t⟩] t := Run.nil.snoc step

theorem Execution.init (h : M.init s) : M.Execution [] s := ⟨s, h, .nil⟩

theorem Execution.append (first : M.Execution ts s) (second : M.Run s us t) :
    M.Execution (ts ++ us) t := by
  obtain ⟨s₀, h₀, run⟩ := first
  exact ⟨s₀, h₀, run.append second⟩

theorem Execution.snoc (exec : M.Execution ts s) (step : M.step s l t) :
    M.Execution (ts ++ [⟨s, l, t⟩]) t :=
  exec.append (.single step)

theorem Execution.reachable (exec : M.Execution ts s) : M.Reachable s := ⟨ts, exec⟩

theorem Reachable.step (h : M.Reachable s) (step : M.step s l t) : M.Reachable t := by
  obtain ⟨ts, exec⟩ := h
  exact ⟨_, exec.snoc step⟩

/-- A run through a given transition is a run up to it, the step itself and a run after it. -/
theorem Run.cut {τ : Transition S L} (run : M.Run s₀ (ts ++ τ :: us) t) :
    M.Run s₀ ts τ.src ∧ M.step τ.src τ.label τ.dst ∧ M.Run τ.dst us t := by
  generalize h : ts ++ τ :: us = vs at run
  induction run generalizing us with
  | nil => simp at h
  | @snoc vs s t l run step ih =>
    rcases List.eq_nil_or_concat us with rfl | ⟨us', υ, rfl⟩
    · obtain ⟨rfl, rfl⟩ : ts = vs ∧ τ = ⟨s, l, t⟩ := by simpa using List.append_inj' h rfl
      exact ⟨run, step, .nil⟩
    · rw [List.concat_eq_append, ← List.cons_append, ← List.append_assoc] at h
      obtain ⟨hvs, hυ⟩ := List.append_inj' h rfl
      obtain rfl := List.singleton_injective hυ
      obtain ⟨before, at_τ, after⟩ := ih hvs
      exact ⟨before, at_τ, by rw [List.concat_eq_append]; exact after.snoc step⟩

theorem Run.eq_of_nil (run : M.Run s₀ [] t) : t = s₀ := by
  generalize hvs : ([] : List (Transition S L)) = vs at run
  cases run with
  | nil => rfl
  | snoc _ _ => simp at hvs

/-- A run begins with the step of its first label. -/
theorem Run.head {ls : List L} (run : M.Run s₀ ts t) (labels : ts.map Transition.label = l :: ls) :
    ∃ s us, M.step s₀ l s ∧ M.Run s us t ∧ us.map Transition.label = ls := by
  cases ts with
  | nil => simp at labels
  | cons τ us =>
    obtain ⟨rfl, rfl⟩ : τ.label = l ∧ us.map Transition.label = ls := by simpa using labels
    have whole : M.Run s₀ ([] ++ τ :: us) t := run
    obtain ⟨before, step, after⟩ := whole.cut
    exact ⟨τ.dst, us, before.eq_of_nil ▸ step, after, rfl⟩

theorem Execution.cut {τ : Transition S L} (exec : M.Execution (ts ++ τ :: us) t) :
    M.Execution ts τ.src ∧ M.step τ.src τ.label τ.dst ∧ M.Run τ.dst us t := by
  obtain ⟨s₀, h₀, run⟩ := exec
  obtain ⟨before, at_τ, after⟩ := run.cut
  exact ⟨⟨s₀, h₀, before⟩, at_τ, after⟩

/-- An execution goes on after a given transition. -/
theorem Execution.snoc_after {τ : Transition S L} (exec : M.Execution (ts ++ τ :: us) s)
    (step : M.step s l t) : M.Execution (ts ++ τ :: (us ++ [⟨s, l, t⟩])) t := by
  have longer := exec.snoc step
  rwa [List.append_assoc, List.cons_append] at longer

/-- Both ends of a transition of an execution are reachable. -/
theorem Execution.reachable_of_mem {τ : Transition S L} (exec : M.Execution ts s) (h : τ ∈ ts) :
    M.Reachable τ.src ∧ M.step τ.src τ.label τ.dst ∧ M.Reachable τ.dst := by
  obtain ⟨as, bs, rfl⟩ := List.append_of_mem h
  obtain ⟨before, at_τ, -⟩ := exec.cut
  exact ⟨before.reachable, at_τ, before.reachable.step at_τ⟩

/-- In a deterministic system the labels of a run determine it. -/
theorem Run.unique (det : ∀ s l t u, M.step s l t → M.step s l u → t = u) (run : M.Run s₀ ts s)
    (other : M.Run s₀ us t) (labels : ts.map Transition.label = us.map Transition.label) :
    ts = us ∧ s = t := by
  induction run generalizing us t with
  | nil =>
    cases other with
    | nil => exact ⟨rfl, rfl⟩
    | snoc _ _ => simp at labels
  | @snoc ts s u l run step ih =>
    cases other with
    | nil => simp at labels
    | @snoc us v _ m other step' =>
      rw [List.map_append, List.map_append] at labels
      obtain ⟨same, last⟩ := List.append_inj' labels rfl
      obtain ⟨rfl, rfl⟩ := ih other same
      obtain rfl : l = m := by simpa using last
      obtain rfl := det _ _ _ _ step step'
      exact ⟨rfl, rfl⟩

/-- A predicate kept by the steps that satisfy `P` holds after every run of such steps. -/
theorem Run.invariant_of {I : S → Prop} {P : Transition S L → Prop}
    (keep : ∀ s l t, I s → M.step s l t → P ⟨s, l, t⟩ → I t) (run : M.Run s₀ ts s)
    (all : ∀ τ ∈ ts, P τ) (h₀ : I s₀) : I s := by
  induction run with
  | nil => exact h₀
  | @snoc ts s t l run step ih =>
    have hs : I s := ih fun τ hτ => all τ (List.mem_append_left _ hτ)
    exact keep s l t hs step (all _ (by simp))

/-- The invariant rule. -/
theorem Run.invariant {I : S → Prop} (keep : ∀ s l t, I s → M.step s l t → I t)
    (run : M.Run s₀ ts s) (h₀ : I s₀) : I s :=
  run.invariant_of (P := fun _ => True) (fun s l t hs step _ => keep s l t hs step)
    (fun _ _ => trivial) h₀

theorem Reachable.invariant {I : S → Prop} (init : ∀ s, M.init s → I s)
    (keep : ∀ s l t, I s → M.step s l t → I t) (h : M.Reachable s) : I s := by
  obtain ⟨ts, s₀, h₀, run⟩ := h
  exact run.invariant keep (init s₀ h₀)

/-- The history rule: a predicate on the transitions taken and the state they lead to. -/
theorem Execution.history {I : List (Transition S L) → S → Prop} (init : ∀ s, M.init s → I [] s)
    (keep : ∀ ts s l t, M.Reachable s → I ts s → M.step s l t → I (ts ++ [⟨s, l, t⟩]) t)
    (exec : M.Execution ts s) : I ts s := by
  obtain ⟨s₀, h₀, run⟩ := exec
  induction run with
  | nil => exact init s₀ h₀
  | @snoc ts s t l run step ih => exact keep ts s l t ⟨ts, s₀, h₀, run⟩ ih step

end System

/-- `R` relates every step of `M` to a step of `A` or to no step at all. -/
structure Simulation {S L S' L' : Type*} (M : System S L) (A : System S' L') (R : S → S' → Prop) :
    Prop where
  init : ∀ s, M.init s → ∃ a, A.init a ∧ R s a
  step : ∀ s l t a, R s a → M.step s l t → R t a ∨ ∃ l' b, A.step a l' b ∧ R t b

theorem Simulation.reachable {S L S' L' : Type*} {M : System S L} {A : System S' L'}
    {R : S → S' → Prop} (sim : Simulation M A R) {s : S} (h : M.Reachable s) :
    ∃ a, A.Reachable a ∧ R s a := by
  refine h.invariant (I := fun s => ∃ a, A.Reachable a ∧ R s a) ?_ ?_
  · intro s hs
    obtain ⟨a, ha, hR⟩ := sim.init s hs
    exact ⟨a, (System.Execution.init ha).reachable, hR⟩
  · rintro s l t ⟨a, ha, hR⟩ step
    rcases sim.step s l t a hR step with hR' | ⟨l', b, hb, hR'⟩
    · exact ⟨a, ha, hR'⟩
    · exact ⟨b, ha.step hb, hR'⟩

/-- `R` relates every step of `M` to a step of `A` with the same observation, or to no step at all if
there is nothing to observe. -/
structure Refinement {S L S' L' X : Type*} (M : System S L) (A : System S' L')
    (see : Transition S L → List X) (see' : Transition S' L' → List X) (R : S → S' → Prop) :
    Prop where
  init : ∀ s, M.init s → ∃ a, A.init a ∧ R s a
  step : ∀ s l t a, A.Reachable a → R s a → M.step s l t → see ⟨s, l, t⟩ = [] ∧ R t a ∨
    ∃ l' b, A.step a l' b ∧ see' ⟨a, l', b⟩ = see ⟨s, l, t⟩ ∧ R t b

/-- What one observes in a run of `M` can be observed in a run of `A`. -/
theorem Refinement.execution {S L S' L' X : Type*} {M : System S L} {A : System S' L'}
    {see : Transition S L → List X} {see' : Transition S' L' → List X} {R : S → S' → Prop}
    (refines : Refinement M A see see' R) {ts : List (Transition S L)} {s : S}
    (exec : M.Execution ts s) :
    ∃ us a, A.Execution us a ∧ R s a ∧ us.flatMap see' = ts.flatMap see := by
  refine exec.history
    (I := fun ts s => ∃ us a, A.Execution us a ∧ R s a ∧ us.flatMap see' = ts.flatMap see) ?_ ?_
  · intro s hs
    obtain ⟨a, ha, hR⟩ := refines.init s hs
    exact ⟨[], a, .init ha, hR, rfl⟩
  · rintro ts s l t - ⟨us, a, abstract, hR, same⟩ step
    rw [List.flatMap_append, List.flatMap_singleton, ← same]
    rcases refines.step s l t a abstract.reachable hR step with ⟨none, hR'⟩ | ⟨l', b, hb, seen, hR'⟩
    · exact ⟨us, a, abstract, hR', by rw [none, List.append_nil]⟩
    · exact ⟨_, b, abstract.snoc hb, hR', by simp [seen]⟩

end Reactive
