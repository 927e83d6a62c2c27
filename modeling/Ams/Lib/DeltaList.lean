import Mathlib.Algebra.Order.Group.Nat
import Mathlib.Data.List.Sort

/-!
# Delta lists

A queue of deadlines in which each entry stores the time from the one before it, so that only the
first entry has to be counted down.  `deadlines now es` lists the instants that the entries stand for.
Whatever the entries are, an operation on the list is the operation of the same name on the instants
(`deadlines_insert`, `deadlines_remove`); the passing of time leaves them alone (`deadlines_tick`), and
what is due at an instant is what stands for it (`mem_due`).
-/

namespace Reactive

/-- Entries with the time from the entry before. -/
abbrev DeltaList (A : Type*) := List (A × ℕ)

namespace DeltaList

variable {A : Type*} {r : ℕ → ℕ → Prop} {a b : A} {now n t : ℕ} {es fs : DeltaList A}

/-- The instants of the entries. -/
def deadlines (now : ℕ) : DeltaList A → List (A × ℕ)
  | [] => []
  | (a, d) :: es => (a, now + d) :: deadlines (now + d) es

/-- The new entry goes before the first one that it precedes in `r`. -/
def insert (r : ℕ → ℕ → Prop) [DecidableRel r] (a : A) (n : ℕ) : DeltaList A → DeltaList A
  | [] => [(a, n)]
  | (b, d) :: es => if r n d then (a, n) :: (b, d - n) :: es else (b, d) :: insert r a (n - d) es

/-- All entries `n` later. -/
def delay (n : ℕ) : DeltaList A → DeltaList A
  | [] => []
  | (a, d) :: es => (a, d + n) :: es

def remove [DecidableEq A] (a : A) : DeltaList A → DeltaList A
  | [] => []
  | (b, d) :: es => if b = a then delay d es else (b, d) :: remove a es

/-- The time passes by one. -/
def tick : DeltaList A → DeltaList A
  | [] => []
  | (a, d) :: es => (a, d - 1) :: es

/-- The entries that are due, and the rest. -/
def due : DeltaList A → List A × DeltaList A
  | (a, 0) :: es => (a :: (due es).1, (due es).2)
  | es => ([], es)

/-- The comparison decides for the earlier time, and always in the same way between equal ones. -/
structure Earlier (r : ℕ → ℕ → Prop) : Prop where
  le : ∀ {m n}, r m n → m ≤ n
  of_lt : ∀ {m n}, m < n → r m n
  add : ∀ k m n, r (k + m) (k + n) ↔ r m n

theorem earlier_lt : Earlier (· < ·) := ⟨le_of_lt, id, fun _ _ _ => by omega⟩

theorem earlier_le : Earlier (· ≤ ·) := ⟨id, le_of_lt, fun _ _ _ => by omega⟩

theorem Earlier.ge_of_not (earlier : Earlier r) {m n : ℕ} (h : ¬ r m n) : n ≤ m :=
  not_lt.1 (mt earlier.of_lt h)

/-! ## The instants -/

@[simp]
theorem deadlines_nil : deadlines now ([] : DeltaList A) = [] := rfl

@[simp]
theorem deadlines_cons (e : A × ℕ) :
    deadlines now (e :: es) = (e.1, now + e.2) :: deadlines (now + e.2) es := rfl

@[simp]
theorem map_fst_deadlines (now : ℕ) (es : DeltaList A) : (deadlines now es).map Prod.fst = es.map Prod.fst := by
  induction es generalizing now with
  | nil => rfl
  | cons e es ih => simp [ih]

theorem le_of_mem_deadlines (h : (a, t) ∈ deadlines now es) : now ≤ t := by
  induction es generalizing now with
  | nil => cases h
  | cons e es ih =>
    rcases List.mem_cons.1 h with same | h
    · obtain ⟨-, rfl⟩ := Prod.mk.inj same
      exact Nat.le_add_right _ _
    · exact le_trans (Nat.le_add_right _ _) (ih h)

/-- An entry stands for some instant. -/
theorem exists_deadline (h : a ∈ es.map Prod.fst) : ∃ t, (a, t) ∈ deadlines now es := by
  rw [← map_fst_deadlines now] at h
  obtain ⟨⟨b, t⟩, mem, rfl⟩ := List.mem_map.1 h
  exact ⟨t, mem⟩

/-- No entry is further from the one before than its instant is from now. -/
theorem exists_deadline_le (now : ℕ) (h : (a, n) ∈ es) : ∃ t, (a, t) ∈ deadlines now es ∧ now + n ≤ t := by
  induction es generalizing now with
  | nil => cases h
  | cons e es ih =>
    rcases List.mem_cons.1 h with rfl | h
    · exact ⟨now + n, List.mem_cons_self, Nat.le_refl _⟩
    · obtain ⟨t, mem, le⟩ := ih (now + e.2) h
      exact ⟨t, List.mem_cons_of_mem _ mem, by omega⟩

theorem mem_of_mem_deadlines (h : (a, t) ∈ deadlines now es) : a ∈ es.map Prod.fst := by
  rw [← map_fst_deadlines now]
  exact List.mem_map_of_mem h

/-- Each entry stands for one instant. -/
theorem deadline_unique {u : ℕ} (distinct : (es.map Prod.fst).Nodup) (h : (a, t) ∈ deadlines now es)
    (h' : (a, u) ∈ deadlines now es) : t = u := by
  rw [← map_fst_deadlines now] at distinct
  exact (Prod.mk.inj (List.inj_on_of_nodup_map distinct h h' rfl)).2

/-- The instants from one entry on, counted from another moment. -/
theorem deadlines_add (k : ℕ) :
    deadlines (k + now) es = (deadlines now es).map fun x => (x.1, k + x.2) := by
  induction es generalizing now with
  | nil => rfl
  | cons e es ih => simp [← ih, add_assoc]

/-! ## The operations -/

theorem deadlines_delay : deadlines now (delay n es) = deadlines (now + n) es := by
  cases es with
  | nil => rfl
  | cons e es => simp [delay, add_assoc, add_comm e.2 n]

theorem deadlines_insert [DecidableRel r] (earlier : Earlier r) :
    deadlines now (insert r a n es) =
      (deadlines now es).orderedInsert (fun x y => r x.2 y.2) (a, now + n) := by
  induction es generalizing now n with
  | nil => rfl
  | cons e es ih =>
    obtain ⟨b, d⟩ := e
    simp only [insert, deadlines_cons, List.orderedInsert_cons, earlier.add]
    split_ifs with first
    · have le := earlier.le first
      have same : now + n + (d - n) = now + d := by omega
      simp only [deadlines_cons, same]
    · have le := earlier.ge_of_not first
      have same : now + d + (n - d) = now + n := by omega
      simp only [deadlines_cons, ih, same]

theorem deadlines_remove [DecidableEq A] :
    deadlines now (remove a es) = (deadlines now es).eraseP fun x => x.1 = a := by
  induction es generalizing now with
  | nil => rfl
  | cons e es ih =>
    obtain ⟨b, d⟩ := e
    simp only [remove, deadlines_cons]
    split_ifs with h
    · rw [deadlines_delay, List.eraseP_cons_of_pos (by simpa using h)]
    · rw [deadlines_cons, ih, List.eraseP_cons_of_neg (by simpa using h)]

theorem mem_deadlines_insert [DecidableRel r] (earlier : Earlier r) :
    (b, t) ∈ deadlines now (insert r a n es) ↔
      b = a ∧ t = now + n ∨ (b, t) ∈ deadlines now es := by
  rw [deadlines_insert earlier, List.mem_orderedInsert, Prod.mk.injEq]

theorem map_fst_insert_perm [DecidableRel r] (earlier : Earlier r) :
    ((insert r a n es).map Prod.fst).Perm (a :: es.map Prod.fst) := by
  have perm := (List.perm_orderedInsert (fun x y : A × ℕ => r x.2 y.2) (a, 0 + n)
    (deadlines 0 es)).map Prod.fst
  rwa [← deadlines_insert earlier, map_fst_deadlines, List.map_cons, map_fst_deadlines] at perm

theorem map_fst_remove [DecidableEq A] : (remove a es).map Prod.fst = (es.map Prod.fst).erase a := by
  rw [← map_fst_deadlines 0, deadlines_remove, ← map_fst_deadlines 0 es]
  induction deadlines 0 es with
  | nil => rfl
  | cons x xs ih => by_cases h : x.1 = a <;> simp [h, ih]

theorem mem_deadlines_remove [DecidableEq A] (distinct : (es.map Prod.fst).Nodup) :
    (b, t) ∈ deadlines now (remove a es) ↔ b ≠ a ∧ (b, t) ∈ deadlines now es := by
  rw [deadlines_remove]
  rw [← map_fst_deadlines now] at distinct
  generalize deadlines now es = xs at distinct ⊢
  induction xs with
  | nil => simp
  | cons x xs ih =>
    obtain ⟨fresh, distinct⟩ := List.nodup_cons.1 distinct
    by_cases h : x.1 = a
    · have absent (mem : (b, t) ∈ xs) : b ≠ a := by
        rintro rfl
        exact fresh (h ▸ List.mem_map_of_mem (f := Prod.fst) mem)
      rw [List.eraseP_cons_of_pos (by simpa using h), List.mem_cons]
      grind
    · rw [List.eraseP_cons_of_neg (by simpa using h), List.mem_cons, List.mem_cons, ih distinct]
      grind

/-! ## Expiry -/

/-- Entries without time between them stand for the same instant. -/
theorem deadlines_append_zeros {zs : DeltaList A} (zeros : ∀ e ∈ zs, e.2 = 0) :
    deadlines now (zs ++ es) = zs.map (fun e => (e.1, now)) ++ deadlines now es := by
  induction zs with
  | nil => rfl
  | cons e zs ih =>
    have zero := zeros e (by simp)
    rw [List.cons_append, deadlines_cons, zero, add_zero, ih fun x hx => zeros x (.tail _ hx)]
    rfl

/-- The first entry is still to come. -/
def Ahead (es : DeltaList A) : Prop := ∀ e ∈ es.head?, 0 < e.2

theorem Ahead.lt_of_mem (ahead : Ahead es) (h : (a, t) ∈ deadlines now es) : now < t := by
  cases es with
  | nil => cases h
  | cons e es =>
    have pos : 0 < e.2 := ahead e rfl
    rcases List.mem_cons.1 h with same | h
    · obtain ⟨-, rfl⟩ := Prod.mk.inj same
      omega
    · have le := le_of_mem_deadlines h
      omega

theorem deadlines_tick (ahead : Ahead es) : deadlines (now + 1) (tick es) = deadlines now es := by
  cases es with
  | nil => rfl
  | cons e es =>
    have pos : 0 < e.2 := ahead e rfl
    have same : now + 1 + (e.2 - 1) = now + e.2 := by omega
    simp only [tick, deadlines_cons, same]

/-- The entries that are due stand for this instant, and the rest for later ones. -/
theorem deadlines_due (es : DeltaList A) :
    deadlines now es = ((due es).1.map fun a => (a, now)) ++ deadlines now (due es).2 := by
  fun_induction due es with
  | case1 a es ih => rw [deadlines_cons, add_zero, ih]; rfl
  | case2 es later => rfl

@[simp]
theorem map_fst_tick (es : DeltaList A) : es.tick.map Prod.fst = es.map Prod.fst := by
  cases es <;> rfl

theorem map_fst_due (es : DeltaList A) :
    es.map Prod.fst = (due es).1 ++ (due es).2.map Prod.fst := by
  fun_induction due es with
  | case1 a es ih => rw [List.map_cons, ih]; rfl
  | case2 es later => rfl

theorem ahead_due : Ahead (due es).2 := by
  fun_induction due es with
  | case1 a es ih => exact ih
  | case2 es later =>
    intro e he
    obtain ⟨a, d⟩ := e
    refine Nat.pos_of_ne_zero ?_
    rintro rfl
    obtain ⟨es', rfl⟩ : ∃ es', es = (a, 0) :: es' := List.head?_eq_some_iff.1 he
    exact later a es' rfl

/-- What is due is what stands for this instant. -/
theorem mem_due : a ∈ (due es).1 ↔ (a, now) ∈ deadlines now es := by
  have later (h : (a, now) ∈ deadlines now (due es).2) : False :=
    Nat.lt_irrefl now (ahead_due.lt_of_mem h)
  rw [deadlines_due es, List.mem_append]
  simpa using fun h => (later h).elim

theorem Ahead.insert [DecidableRel r] (ahead : Ahead es) (pos : 0 < n) : Ahead (insert r a n es) := by
  cases es with
  | nil => exact fun e he => by cases he; exact pos
  | cons e es =>
    obtain ⟨b, d⟩ := e
    intro x hx
    simp only [DeltaList.insert] at hx
    split_ifs at hx with first
    · cases hx; exact pos
    · cases hx; exact ahead _ rfl

theorem Ahead.remove [DecidableEq A] (ahead : Ahead es) : Ahead (remove a es) := by
  cases es with
  | nil => exact ahead
  | cons e es =>
    obtain ⟨b, d⟩ := e
    have pos : 0 < d := ahead _ rfl
    intro x hx
    simp only [DeltaList.remove] at hx
    split_ifs at hx with h
    · cases es with
      | nil => cases hx
      | cons f fs =>
        cases hx
        exact Nat.add_pos_right _ pos
    · cases hx
      exact pos

end DeltaList

end Reactive
