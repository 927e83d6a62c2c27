import Mathlib.Data.List.Perm.Basic
import Mathlib.Data.List.Perm.Lattice

/-!
# Mailboxes

A mailbox is a pool of blocks with a queue of some of them.  A producer allocates a block, fills it
and puts it into the queue; a consumer gets the oldest one and frees it.  `Accounts blocks held` says
that every block is in one place once: unused, queued, or among those that a user holds.  Each
operation moves one block, and a holder of a block never finds the queue full
(`Accounts.queue_length_lt`).
-/

open scoped List

namespace Reactive

/-- The blocks that are neither queued nor held, and the queue, oldest first. -/
structure Mailbox (B : Type*) where
  unused : List B
  queue : List B

namespace Mailbox

variable {B : Type*} {m m' : Mailbox B} {blocks held held' : List B} {b : B}

def empty (blocks : List B) : Mailbox B := ⟨blocks, []⟩

/-- Any unused block may be allocated, and none only if there is none. -/
inductive Alloc [BEq B] (m : Mailbox B) : Option B → Mailbox B → Prop where
  | block {b : B} : b ∈ m.unused → Alloc m (some b) { m with unused := m.unused.erase b }
  | exhausted : m.unused = [] → Alloc m none m

/-- A full queue drops the block. -/
def put (capacity : ℕ) (b : B) (m : Mailbox B) : Mailbox B :=
  if m.queue.length < capacity then { m with queue := m.queue ++ [b] } else m

/-- The oldest block, if there is one. -/
def get (m : Mailbox B) : Option (B × Mailbox B) :=
  match m.queue with
  | [] => none
  | b :: queue => some (b, { m with queue := queue })

def free (b : B) (m : Mailbox B) : Mailbox B := { m with unused := b :: m.unused }

theorem put_of_lt {capacity : ℕ} (h : m.queue.length < capacity) :
    m.put capacity b = { m with queue := m.queue ++ [b] } := if_pos h

theorem put_unused {capacity : ℕ} : (m.put capacity b).unused = m.unused := by
  unfold put
  split_ifs <;> rfl

theorem get_eq_some : m.get = some (b, m') ↔ m.queue = b :: m'.queue ∧ m'.unused = m.unused := by
  obtain ⟨unused, queue⟩ := m
  obtain ⟨unused', queue'⟩ := m'
  cases queue with
  | nil => simp [get]
  | cons c queue => simp [get]; grind

/-- Every block is in one place, once. -/
def Accounts (blocks held : List B) (m : Mailbox B) : Prop := m.unused ++ (m.queue ++ held) ~ blocks

namespace Accounts

theorem empty (blocks : List B) : (Mailbox.empty blocks).Accounts blocks [] := by
  simp [Accounts, Mailbox.empty]

/-- The held blocks may be listed in any order. -/
theorem of_perm (h : m.Accounts blocks held) (same : held' ~ held) : m.Accounts blocks held' :=
  ((same.append_left _).append_left _).trans h

/-! ## The operations -/

/-- A block moves between the unused and the held ones. -/
theorem move (m : Mailbox B) (held : List B) (b : B) :
    m.unused ++ (m.queue ++ b :: held) ~ b :: m.unused ++ (m.queue ++ held) := by
  calc m.unused ++ (m.queue ++ b :: held)
      _ ~ m.unused ++ b :: (m.queue ++ held) := List.perm_middle.append_left _
      _ ~ b :: m.unused ++ (m.queue ++ held) := List.perm_middle

theorem alloc [BEq B] [LawfulBEq B] (h : m.Accounts blocks held) (made : m.Alloc (some b) m') :
    m'.Accounts blocks (b :: held) := by
  cases made with
  | block unused =>
    calc m.unused.erase b ++ (m.queue ++ b :: held)
        _ ~ b :: m.unused.erase b ++ (m.queue ++ held) := move ⟨m.unused.erase b, m.queue⟩ held b
        _ ~ m.unused ++ (m.queue ++ held) := (List.perm_cons_erase unused).symm.append_right _
        _ ~ blocks := h

theorem free (h : m.Accounts blocks (b :: held)) : (m.free b).Accounts blocks held :=
  (move m held b).symm.trans h

theorem get (h : m.Accounts blocks held) (got : m.get = some (b, m')) :
    m'.Accounts blocks (b :: held) := by
  obtain ⟨queue, unused⟩ := get_eq_some.1 got
  unfold Accounts at h ⊢
  rw [queue, ← unused, List.cons_append] at h
  exact (List.perm_middle.append_left _).trans h

/-- The queue has room for every block that is held. -/
theorem queue_length_lt (h : m.Accounts blocks held) (hb : b ∈ held) :
    m.queue.length < blocks.length := by
  have length := h.length_eq
  have one := List.length_pos_of_mem hb
  simp only [List.length_append] at length
  omega

theorem put (h : m.Accounts blocks (b :: held)) :
    (m.put blocks.length b).Accounts blocks held := by
  rw [put_of_lt (h.queue_length_lt List.mem_cons_self)]
  unfold Accounts at h ⊢
  rwa [List.append_assoc, List.singleton_append]

/-! ## Places exclude each other -/

section Nodup

variable (distinct : blocks.Nodup) (h : m.Accounts blocks held)
include distinct h

theorem nodup : (m.unused ++ (m.queue ++ held)).Nodup := h.nodup_iff.2 distinct

theorem not_mem_queue (hb : b ∈ held) : b ∉ m.queue := fun queued =>
  List.disjoint_of_nodup_append (h.nodup distinct).of_append_right queued hb

theorem not_mem_unused (hb : b ∈ held) : b ∉ m.unused := fun unused =>
  List.disjoint_of_nodup_append (h.nodup distinct) unused (List.mem_append_right _ hb)

end Nodup

end Accounts

end Mailbox

end Reactive
