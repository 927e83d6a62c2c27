import Mathlib.Data.List.Perm.Basic
import Mathlib.Data.List.Nodup

/-!
# Queues by priority

In a queue by priority nobody stands behind somebody of a lower priority (`Descending`).  A new member
is put behind all that have at least its priority (`putPrio`), so that the first one has the highest
priority and has waited longest among those that have it.
-/

namespace Reactive

variable {T : Type*} {prio prio' : T → ℕ} {t u : T} {l : List T}

/-- Behind all members of at least the same priority. -/
def putPrio (prio : T → ℕ) (t : T) : List T → List T
  | [] => [t]
  | u :: l => if prio t ≤ prio u then u :: putPrio prio t l else t :: u :: l

def Descending (prio : T → ℕ) (l : List T) : Prop := l.Pairwise fun t u => prio u ≤ prio t

theorem putPrio_perm (prio : T → ℕ) (t : T) (l : List T) : (putPrio prio t l).Perm (t :: l) := by
  induction l with
  | nil => exact .refl _
  | cons u l ih =>
    rw [putPrio]
    split_ifs
    · exact (ih.cons u).trans (.swap t u l)
    · exact .refl _

@[simp]
theorem mem_putPrio : u ∈ putPrio prio t l ↔ u = t ∨ u ∈ l :=
  (putPrio_perm prio t l).mem_iff.trans List.mem_cons

theorem nodup_putPrio (h : l.Nodup) (new : t ∉ l) : (putPrio prio t l).Nodup :=
  (putPrio_perm prio t l).nodup_iff.2 (h.cons new)

namespace Descending

theorem put (h : Descending prio l) (t : T) : Descending prio (putPrio prio t l) := by
  induction l with
  | nil => exact List.pairwise_singleton _ t
  | cons u l ih =>
    obtain ⟨first, rest⟩ := List.pairwise_cons.1 h
    rw [putPrio]
    split_ifs with le
    · refine List.pairwise_cons.2 ⟨fun v hv => ?_, ih rest⟩
      rcases mem_putPrio.1 hv with rfl | hv
      · exact le
      · exact first v hv
    · refine List.pairwise_cons.2 ⟨fun v hv => ?_, h⟩
      rcases List.mem_cons.1 hv with rfl | hv
      · exact Nat.le_of_not_le le
      · exact Nat.le_trans (first v hv) (Nat.le_of_not_le le)

/-- Only the priorities of the members matter. -/
theorem congr (h : Descending prio l) (same : ∀ u ∈ l, prio' u = prio u) : Descending prio' l :=
  List.Pairwise.imp_of_mem (fun hu hv le => by rwa [same _ hu, same _ hv]) h

theorem erase [DecidableEq T] (h : Descending prio l) (t : T) : Descending prio (l.erase t) :=
  List.Pairwise.sublist List.erase_sublist h

theorem cons (h : Descending prio l) (top : ∀ u ∈ l, prio u ≤ prio t) : Descending prio (t :: l) :=
  List.pairwise_cons.2 ⟨top, h⟩

theorem head (h : Descending prio (t :: l)) : ∀ u ∈ l, prio u ≤ prio t := (List.pairwise_cons.1 h).1

theorem tail (h : Descending prio (t :: l)) : Descending prio l := (List.pairwise_cons.1 h).2

/-- A member moves to the place of its new priority. -/
theorem resort [DecidableEq T] (h : Descending prio l) (distinct : l.Nodup)
    (same : ∀ u, u ≠ t → prio' u = prio u) : Descending prio' (putPrio prio' t (l.erase t)) := by
  refine put (congr (h.erase t) fun u hu => same u ?_) t
  exact ((distinct.mem_erase_iff).1 hu).1

end Descending

end Reactive
