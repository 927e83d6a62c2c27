import Mathlib.Data.Nat.Basic

/-!
# Functions bounded by a nesting depth

A program whose functions call each other without an obvious measure is modelled by functions that
take a bound on the nesting of calls and answer `none` when it is used up.  `Returns f y` says that
the call modelled by `f` comes back with `y` after finitely many nested calls: every large enough
bound gives `y`.  `Yields f P` is total correctness: the call comes back, with a value satisfying
`P`.  A call that exhausts every bound never returns (`not_returns_of_none`).
-/

namespace Reactive

universe u

variable {α β : Type u} {f : ℕ → Option α} {y z : α}

/-- The bounded computation `f` returns `y` for every large enough bound. -/
def Returns (f : ℕ → Option α) (y : α) : Prop := ∃ N, ∀ n, N ≤ n → f n = some y

theorem Returns.unique (hy : Returns f y) (hz : Returns f z) : y = z := by
  obtain ⟨N, hN⟩ := hy
  obtain ⟨M, hM⟩ := hz
  have h := (hN (N + M) (by omega)).symm.trans (hM (N + M) (by omega))
  exact Option.some.inj h

theorem returns_of_eq (h : ∀ n, f n = some y) : Returns f y := ⟨0, fun n _ => h n⟩

/-- A bound that suffices, found by evaluation. -/
theorem returns_of_add (N : ℕ) (h : ∀ n, f (n + N) = some y) : Returns f y := by
  refine ⟨N, fun n hn => ?_⟩
  obtain ⟨m, rfl⟩ := Nat.exists_eq_add_of_le' hn
  exact h m

/-- One more call around a computation that returns. -/
theorem returns_of_succ (h : Returns (fun n => f (n + 1)) y) : Returns f y := by
  obtain ⟨N, hN⟩ := h
  refine ⟨N + 1, fun n hn => ?_⟩
  obtain ⟨m, rfl⟩ : ∃ m, n = m + 1 := ⟨n - 1, by omega⟩
  exact hN m (by omega)

theorem Returns.bind {g : ℕ → α → Option β} {w : β} (hf : Returns f y)
    (hg : Returns (fun n => g n y) w) : Returns (fun n => f n >>= g n) w := by
  obtain ⟨N, hN⟩ := hf
  obtain ⟨M, hM⟩ := hg
  refine ⟨N + M, fun n hn => ?_⟩
  simp only [hN n (by omega), Option.bind_eq_bind, Option.bind_some]
  exact hM n (by omega)

theorem Returns.map (g : α → β) (hf : Returns f y) :
    Returns (fun n => f n >>= fun v => some (g v)) (g y) :=
  hf.bind (returns_of_eq fun _ => rfl)

/-- The bounded computation `f` returns, and `P` holds of what it returns. -/
def Yields (f : ℕ → Option α) (P : α → Prop) : Prop := ∃ y, Returns f y ∧ P y

theorem Returns.yields {P : α → Prop} (hf : Returns f y) (h : P y) : Yields f P := ⟨y, hf, h⟩

theorem yields_of_eq {P : α → Prop} (hf : ∀ n, f n = some y) (h : P y) : Yields f P :=
  (returns_of_eq hf).yields h

theorem Yields.mono {P Q : α → Prop} (hf : Yields f P) (h : ∀ y, P y → Q y) : Yields f Q := by
  obtain ⟨y, hy, hP⟩ := hf
  exact ⟨y, hy, h y hP⟩

theorem Yields.bind {g : ℕ → α → Option β} {P : α → Prop} {Q : β → Prop} (hf : Yields f P)
    (hg : ∀ y, P y → Yields (fun n => g n y) Q) : Yields (fun n => f n >>= g n) Q := by
  obtain ⟨y, hy, hP⟩ := hf
  obtain ⟨w, hw, hQ⟩ := hg y hP
  exact ⟨w, hy.bind hw, hQ⟩

/-- A computation that exhausts every bound does not return. -/
theorem not_returns_of_none (h : ∀ n, f n = none) : ¬ Returns f y := by
  rintro ⟨N, hN⟩
  simpa [h] using hN N (Nat.le_refl N)

/-- A continuation that exhausts every bound does not return. -/
theorem not_returns_bind {g : ℕ → α → Option β} {w : β} (hf : Returns f y)
    (hg : ∀ n, g n y = none) : ¬ Returns (fun n => f n >>= g n) w := by
  rintro ⟨N, hN⟩
  obtain ⟨M, hM⟩ := hf
  have h := hN (N + M) (by omega)
  simp only [hM (N + M) (by omega), Option.bind_eq_bind, Option.bind_some, hg, reduceCtorEq] at h

end Reactive
