import Ams.Lib.Run
import Mathlib.Data.List.Infix

/-!
# Creating tasks one after another

The first task of a program creates the others in a fixed order.  Each creation initialises the task
and lets it run, so the operations of the tasks that have been created fall between the creations of
the others.
-/

namespace Reactive

/-- The tasks `T` share the states `S` and have the operations `L`. -/
structure Startup (T S L : Type*) where
  order : List T
  start : S → Prop
  initialise : T → S → S → Prop
  /-- the operation is one of the tasks created so far -/
  runs : List T → L → Prop
  step : S → L → S → Prop

structure Booting (T S : Type*) where
  created : List T
  state : S

inductive Creation (T L : Type*) where
  | create (t : T)
  | run (l : L)
  deriving DecidableEq, Repr

namespace Startup

variable {T S L : Type*} (M : Startup T S L)

inductive Step : Booting T S → Creation T L → Booting T S → Prop where
  | create {b : Booting T S} {t : T} {rest : List T} {s : S} : M.order = b.created ++ t :: rest →
      M.initialise t b.state s → Step b (.create t) ⟨b.created ++ [t], s⟩
  | run {b : Booting T S} {l : L} {s : S} : M.runs b.created l → M.step b.state l s →
      Step b (.run l) ⟨b.created, s⟩

def system : System (Booting T S) (Creation T L) where
  init b := b.created = [] ∧ M.start b.state
  step := M.Step

variable {M} {b c : Booting T S} {a : Creation T L} {t u : T}
  {ts : List (Transition (Booting T S) (Creation T L))}

/-- The tasks created are the first ones of the order. -/
theorem created_prefix (h : M.system.Reachable b) : b.created <+: M.order := by
  refine h.invariant (I := fun b => b.created <+: M.order) ?_ ?_
  · rintro b ⟨none, -⟩
    rw [none]
    exact List.nil_prefix
  · rintro b a c before made
    cases made with
    | @create t rest s split made => exact ⟨rest, by simp [split]⟩
    | run _ _ => exact before

/-- The tasks before a created one are created. -/
theorem created_of_created {pre post : List T} (h : M.system.Reachable b)
    (split : M.order = pre ++ u :: post) (hu : u ∉ pre) (created : u ∈ b.created) (ht : t ∈ pre) :
    t ∈ b.created := by
  have all := created_prefix h
  rw [split] at all
  rcases List.prefix_or_prefix_of_prefix all (List.prefix_append pre _) with short | long
  · exact absurd (short.subset created) hu
  · exact long.subset ht

/-- A creation finds exactly the tasks before it created. -/
theorem Step.created_eq {pre post : List T} (made : M.Step b (.create t) c)
    (split : M.order = pre ++ t :: post) (hpre : t ∉ pre) (hpost : t ∉ post) :
    b.created = pre ∧ c.created = pre ++ [t] := by
  cases made with
  | @create t rest s split' made =>
    rw [split] at split'
    obtain ⟨rfl, -, -⟩ := (List.append_cons_inj_of_notMem hpre hpost).1 split'
    exact ⟨rfl, rfl⟩

theorem created_prefix_of_run (run : M.system.Run b ts c) : b.created <+: c.created := by
  refine run.invariant (I := fun c => b.created <+: c.created) ?_ (List.prefix_refl _)
  intro c a d before made
  cases made with
  | create _ _ => exact before.trans (List.prefix_append _ _)
  | run _ _ => exact before

/-- A task is created by one of the steps. -/
theorem mem_created_iff (exec : M.system.Execution ts b) :
    t ∈ b.created ↔ ∃ τ ∈ ts, τ.label = .create t := by
  refine exec.history (I := fun ts b => t ∈ b.created ↔ ∃ τ ∈ ts, τ.label = .create t) ?_ ?_
  · rintro b ⟨none, -⟩
    simp [none]
  · intro ts b a c _ before made
    cases made with
    | @create u rest s split made => simp [before, or_and_right, exists_or, eq_comm]
    | run _ _ => simp [before, or_and_right, exists_or]

end Startup

end Reactive
