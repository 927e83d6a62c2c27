import Mathlib.Data.List.Basic
import Mathlib.Logic.Function.Basic

/-!
# Ring buffers and free lists

A ring buffer keeps its entries in the cells from `last` on, `count` of them, and wraps at `size`;
`contents` lists them oldest first, and the operations are those of a queue.  A free list threads its
elements through a memory: `Chain next null p l` says that `l` is what one visits from `p` by `next`
until `null`.
-/

namespace Reactive

structure RingBuffer (A : Type*) where
  cells : ℕ → A
  /-- where the next entry is written -/
  first : ℕ
  /-- the oldest entry -/
  last : ℕ
  count : ℕ
  size : ℕ

namespace RingBuffer

variable {A : Type*} {r r' : RingBuffer A} {x : A} {size : ℕ} {cells cells' : ℕ → A}

/-- The cell after the cell `i`. -/
def next (size i : ℕ) : ℕ := if i + 1 = size then 0 else i + 1

/-- Nothing if the buffer is full. -/
def enqueue (x : A) (r : RingBuffer A) : Option (RingBuffer A) :=
  if r.count < r.size then
    some { r with
      cells := Function.update r.cells r.first x
      first := next r.size r.first
      count := r.count + 1 }
  else none

/-- The oldest entry, if there is one. -/
def dequeue (r : RingBuffer A) : Option (A × RingBuffer A) :=
  if r.count = 0 then none
  else some (r.cells r.last, { r with last := next r.size r.last, count := r.count - 1 })

/-- The `n` entries from the cell `i` on. -/
def entries (size : ℕ) (cells : ℕ → A) : ℕ → ℕ → List A
  | _, 0 => []
  | i, n + 1 => cells i :: entries size cells (next size i) n

def contents (r : RingBuffer A) : List A := entries r.size r.cells r.last r.count

/-- The cell `n` cells after the cell `i`. -/
def after (size : ℕ) : ℕ → ℕ → ℕ
  | i, 0 => i
  | i, n + 1 => after size (next size i) n

structure Inv (r : RingBuffer A) : Prop where
  last_lt : r.last < r.size
  count_le : r.count ≤ r.size
  first_eq : r.first = after r.size r.last r.count

theorem next_lt {i : ℕ} (h : i < size) : next size i < size := by
  unfold next
  split_ifs <;> omega

theorem after_eq {i n : ℕ} (hi : i < size) (hn : n ≤ size) :
    after size i n = if i + n < size then i + n else i + n - size := by
  induction n generalizing i with
  | zero => simp [after, hi]
  | succ n ih =>
    rw [after, ih (next_lt hi) (by omega)]
    unfold next
    split_ifs <;> omega

theorem after_succ (i n : ℕ) : after size i (n + 1) = next size (after size i n) := by
  induction n generalizing i with
  | zero => rfl
  | succ n ih => rw [after, ih]; rfl

/-- Fewer than `size` steps do not come back. -/
theorem after_ne {i n m : ℕ} (hi : i < size) (hn : n < m) (hm : m < size) :
    after size i n ≠ after size i m := by
  rw [after_eq hi (by omega), after_eq hi (by omega)]
  split_ifs <;> omega

@[simp]
theorem length_contents : r.contents.length = r.count := by
  suffices general : ∀ i n, (entries r.size r.cells i n).length = n from general _ _
  intro i n
  induction n generalizing i with
  | zero => rfl
  | succ n ih => simp [entries, ih]

theorem contents_empty (h : r.count = 0) : r.contents = [] := by
  rw [contents, h]
  rfl

/-- The entries depend on their own cells alone. -/
theorem entries_congr {i n : ℕ}
    (same : ∀ k < n, cells' (after size i k) = cells (after size i k)) :
    entries size cells' i n = entries size cells i n := by
  induction n generalizing i with
  | zero => rfl
  | succ n ih =>
    rw [entries, entries, ih fun k hk => same (k + 1) (Nat.succ_lt_succ hk)]
    exact congrArg (· :: _) (same 0 (Nat.succ_pos n))

theorem entries_snoc (i n : ℕ) :
    entries size cells i (n + 1) = entries size cells i n ++ [cells (after size i n)] := by
  induction n generalizing i with
  | zero => rfl
  | succ n ih => rw [entries, ih]; rfl

/-! ## The operations -/

theorem enqueue_isSome : (r.enqueue x).isSome = true ↔ r.count < r.size := by
  unfold enqueue
  split_ifs with h <;> simp [h]

theorem Inv.enqueue (inv : r.Inv) (h : r.enqueue x = some r') :
    r'.Inv ∧ r'.size = r.size ∧ r'.contents = r.contents ++ [x] := by
  unfold RingBuffer.enqueue at h
  split_ifs at h with room
  obtain rfl := Option.some.inj h
  refine ⟨⟨inv.last_lt, room, ?_⟩, rfl, ?_⟩
  · rw [after_succ, ← inv.first_eq]
  · have kept (k : ℕ) (hk : k < r.count) : Function.update r.cells r.first x
        (after r.size r.last k) = r.cells (after r.size r.last k) := by
      refine Function.update_of_ne ?_ _ _
      rw [inv.first_eq]
      exact after_ne inv.last_lt hk room
    rw [contents, contents, entries_snoc, entries_congr kept, ← inv.first_eq]
    exact congrArg (_ ++ [·]) (Function.update_self _ _ _)

theorem Inv.dequeue (inv : r.Inv) (h : r.dequeue = some (x, r')) :
    r'.Inv ∧ r'.size = r.size ∧ r.contents = x :: r'.contents := by
  unfold RingBuffer.dequeue at h
  split_ifs at h with empty
  obtain ⟨rfl, rfl⟩ := Prod.mk.inj (Option.some.inj h)
  obtain ⟨n, count⟩ := Nat.exists_eq_succ_of_ne_zero empty
  have le := inv.count_le
  have first := inv.first_eq
  rw [count] at le first
  refine ⟨⟨next_lt inv.last_lt, ?_, ?_⟩, rfl, ?_⟩
  · dsimp only
    omega
  · dsimp only
    rw [first, count]
    rfl
  · rw [contents, contents, count]
    rfl

end RingBuffer

/-! ## Free lists -/

section Chain

variable {A : Type*} {next : A → A} {null p a v : A} {l : List A}

/-- From `p` one comes through `l` to `null`. -/
def Chain (next : A → A) (null : A) : A → List A → Prop
  | p, [] => p = null
  | p, a :: l => p = a ∧ a ≠ null ∧ Chain next null (next a) l

variable [DecidableEq A]

/-- A write outside the list leaves it alone. -/
theorem Chain.update (h : Chain next null p l) (outside : a ∉ l) :
    Chain (Function.update next a v) null p l := by
  induction l generalizing p with
  | nil => exact h
  | cons b l ih =>
    obtain ⟨rfl, ne, rest⟩ := h
    have other : p ≠ a := fun same => outside (same ▸ List.mem_cons_self)
    refine ⟨rfl, ne, ?_⟩
    rw [Function.update_of_ne other]
    exact ih rest fun mem => outside (List.mem_cons_of_mem _ mem)

/-- An element is put in front. -/
theorem Chain.push (h : Chain next null p l) (outside : a ∉ l) (ne : a ≠ null) :
    Chain (Function.update next a p) null a (a :: l) := by
  refine ⟨rfl, ne, ?_⟩
  rw [Function.update_self]
  exact h.update outside

end Chain

end Reactive
