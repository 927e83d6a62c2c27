import Ams.Lib.Signal
import Mathlib.Order.Defs.PartialOrder

/-!
# Timed events and one-shot timers

Events are listed with their instants, oldest first; `Between a b es` says that they happen one
after another from `a` to `b`.  A one-shot timer is pending from the instant of its latest start
until it expires, is stopped or is started again.  `Due` is when its callback may be delivered: not
before the requested delay has passed since the start it belongs to.  `advance` runs the timer
through the start and stop commands found in a list of timed events.
-/

namespace Reactive

variable {T E : Type*}

/-- The events happen one after another, none before `a` and none after `b`. -/
def Between [LE T] (a b : T) : List (T × E) → Prop
  | [] => a ≤ b
  | e :: es => a ≤ e.1 ∧ Between e.1 b es

section Between

variable [Preorder T] {a b : T} {es : List (T × E)}

theorem Between.le (h : Between a b es) : a ≤ b := by
  induction es generalizing a with
  | nil => exact h
  | cons e es ih => exact le_trans h.1 (ih h.2)

theorem Between.le_of_mem (h : Between a b es) {e : T × E} (he : e ∈ es) : a ≤ e.1 := by
  induction es generalizing a with
  | nil => cases he
  | cons x es ih =>
    rcases List.mem_cons.1 he with rfl | he
    · exact h.1
    · exact le_trans h.1 (ih h.2 he)

/-- Events at one instant. -/
theorem between_map (fs : List E) : Between a a (fs.map fun e => (a, e)) := by
  induction fs with
  | nil => exact le_refl a
  | cons e fs ih => exact ⟨le_refl a, ih⟩

theorem Between.mono_right {c : T} (h : Between a b es) (le : b ≤ c) : Between a c es := by
  induction es generalizing a with
  | nil => exact le_trans h le
  | cons e es ih => exact ⟨h.1, ih h.2⟩

/-- One more event at the end. -/
theorem Between.snoc (h : Between a b es) (x : E) : Between a b (es ++ [(b, x)]) := by
  induction es generalizing a with
  | nil => exact ⟨h, le_refl b⟩
  | cons e es ih => exact ⟨h.1, ih h.2⟩

end Between

/-- The instant and the delay of the start that is pending, if any. -/
structure OneShot (T : Type*) where
  pending : Option (T × T)

namespace OneShot

inductive Command (T : Type*) where
  | start (delay : T)
  | stop

def idle : OneShot T := ⟨none⟩

/-- The callback of the pending start may be delivered at `now`. -/
def Due [Add T] [LE T] (timer : OneShot T) (now : T) : Prop :=
  ∃ start delay, timer.pending = some (start, delay) ∧ start + delay ≤ now

/-- A start supersedes the pending one, and a stop withdraws it. -/
def apply (now : T) : Command T → OneShot T
  | .start delay => ⟨some (now, delay)⟩
  | .stop => idle

/-- The timer after the commands among the timed events `es`. -/
def advance (command : E → Option (Command T)) (timer : OneShot T) (es : List (T × E)) : OneShot T :=
  es.foldl (fun timer e => ((command e.2).map (apply e.1)).getD timer) timer

variable {command : E → Option (Command T)} {timer : OneShot T} {es : List (T × E)}

/-- Events without commands leave the timer alone. -/
theorem advance_quiet (quiet : ∀ e ∈ es, command e.2 = none) : advance command timer es = timer := by
  induction es with
  | nil => rfl
  | cons e es ih =>
    have he := quiet e (by simp)
    simp only [advance, List.foldl_cons, he, Option.map_none, Option.getD_none]
    exact ih fun x hx => quiet x (List.mem_cons_of_mem _ hx)

/-- What is pending was pending before, or is the start of one of the events. -/
theorem pending_advance {start delay : T}
    (pending : (advance command timer es).pending = some (start, delay)) :
    timer.pending = some (start, delay) ∨
      ∃ e ∈ es, e.1 = start ∧ command e.2 = some (.start delay) := by
  induction es using List.reverseRecOn with
  | nil => exact .inl pending
  | append_singleton es e ih =>
    have last : (advance command timer (es ++ [e])) =
        ((command e.2).map (apply e.1)).getD (advance command timer es) := by simp [advance]
    rw [last] at pending
    cases given : command e.2 with
    | none =>
      rw [given] at pending
      refine (ih pending).imp_right ?_
      rintro ⟨x, hx, started⟩
      exact ⟨x, List.mem_append_left _ hx, started⟩
    | some c =>
      rw [given, Option.map_some, Option.getD_some] at pending
      cases c with
      | stop => cases pending
      | start delay' =>
        obtain ⟨rfl, rfl⟩ : e.1 = start ∧ delay' = delay := by simpa [apply] using pending
        exact .inr ⟨e, by simp, rfl, given⟩

/-- The level that a command gives to the signal "pending". -/
def Command.arms : Command T → Bool
  | start _ => true
  | stop => false

/-- Whether the timer is pending is a signal that the commands drive. -/
theorem isSome_pending_advance : (advance command timer es).pending.isSome =
    level (fun e => (command e.2).map Command.arms) timer.pending.isSome es := by
  induction es using List.reverseRecOn with
  | nil => rfl
  | append_singleton es e ih =>
    rw [level_append, ← ih]
    cases given : command e.2 with
    | none => simp [advance, level, given]
    | some c => cases c <;> simp [advance, level, given, apply, idle, Command.arms]

/-- A pending timer that becomes due has waited for its delay. -/
theorem Due.le [Add T] [LE T] {now start delay : T} (due : timer.Due now)
    (h : timer.pending = some (start, delay)) : start + delay ≤ now := by
  obtain ⟨start', delay', pending, le⟩ := due
  obtain ⟨rfl, rfl⟩ : start' = start ∧ delay' = delay := by simpa [pending] using h
  exact le

end OneShot

end Reactive
