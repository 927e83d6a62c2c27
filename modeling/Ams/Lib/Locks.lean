import Ams.Lib.Run
import Mathlib.Data.Finset.Basic
import Mathlib.Data.Finset.Union
import Mathlib.Data.Set.Finite.Lattice
import Mathlib.Logic.Function.Basic
import Mathlib.Logic.Relation
import Mathlib.Order.Bounds.Basic

/-!
# Recursive locks and lock orders

A program gives every function the ways through its code, as far as locks and calls are concerned,
and a thread is a stack of functions in progress.  A `Discipline` checks the ways one by one: each
function is entered with one of the sets of locks declared for it, gives back what it has taken, and
takes a lock that it does not hold only if that lock is above those that it holds.  In every reachable
configuration a function then holds the locks that its declaration demands (`Discipline.holds`), no
threads wait for each other in a circle (`Discipline.not_deadlocked`), and a busy thread can go on
(`Discipline.progress`).
-/

namespace Reactive

/-- `F` are the functions and `L` the locks. -/
inductive Stmt (F L : Type*) where
  | lock (l : L)
  | unlock (l : L)
  | call (f : F)
  deriving DecidableEq, Repr

/-- A way through a piece of code. -/
abbrev Way (F L : Type*) := List (Stmt F L)

/-- The ways through a piece of code. -/
abbrev Code (F L : Type*) := List (Way F L)

namespace Code

variable {F L : Type*}

def skip : Code F L := [[]]

def stmt (s : Stmt F L) : Code F L := [[s]]

/-- One piece after another. -/
def block (pieces : List (Code F L)) : Code F L :=
  pieces.foldr (fun piece rest => piece.flatMap fun way => rest.map (way ++ ·)) skip

/-- One of the pieces, whatever the code looks at to choose it. -/
def branch (pieces : List (Code F L)) : Code F L := pieces.flatten

end Code

/-- The threads `Θ` begin with `starts`, if anything, and after that do one of `loops` again and again.
-/
structure Program (Θ F L : Type*) where
  body : F → Code F L
  starts : Θ → List F
  loops : Θ → List F

/-- The functions in progress with the rest of their ways, the innermost first, and the number of times
that a thread has taken a lock. -/
structure Threads (Θ F L : Type*) where
  stack : Θ → List (F × Way F L)
  held : Θ → L → ℕ

namespace Program

open Function

variable {Θ F L : Type*} [DecidableEq Θ] [DecidableEq L] (P : Program Θ F L)

inductive Step (s : Threads Θ F L) (θ : Θ) : Threads Θ F L → Prop where
  | wake {f : F} {way : Way F L} : s.stack θ = [] → f ∈ P.loops θ → way ∈ P.body f →
      Step s θ { s with stack := update s.stack θ [(f, way)] }
  | lock {f : F} {l : L} {rest : Way F L} {fs : List (F × Way F L)} :
      s.stack θ = (f, .lock l :: rest) :: fs → (∀ θ', θ' ≠ θ → s.held θ' l = 0) →
      Step s θ
        { stack := update s.stack θ ((f, rest) :: fs)
          held := update s.held θ (update (s.held θ) l (s.held θ l + 1)) }
  | unlock {f : F} {l : L} {rest : Way F L} {fs : List (F × Way F L)} :
      s.stack θ = (f, .unlock l :: rest) :: fs →
      Step s θ
        { stack := update s.stack θ ((f, rest) :: fs)
          held := update s.held θ (update (s.held θ) l (s.held θ l - 1)) }
  | call {f g : F} {rest way : Way F L} {fs : List (F × Way F L)} :
      s.stack θ = (f, .call g :: rest) :: fs → way ∈ P.body g →
      Step s θ { s with stack := update s.stack θ ((g, way) :: (f, rest) :: fs) }
  | ret {f : F} {fs : List (F × Way F L)} : s.stack θ = (f, []) :: fs →
      Step s θ { s with stack := update s.stack θ fs }

/-- The threads, in any order. -/
def threads : System (Threads Θ F L) Θ where
  init s := ∀ θ, s.held θ = (fun _ => 0) ∧
    (s.stack θ = [] ∨ ∃ f ∈ P.starts θ, ∃ way ∈ P.body f, s.stack θ = [(f, way)])
  step := P.Step

end Program

namespace Threads

variable {Θ F L : Type*} (s : Threads Θ F L)

/-- The thread is about to take the lock. -/
def Awaits (θ : Θ) (l : L) : Prop := ∃ f rest fs, s.stack θ = (f, .lock l :: rest) :: fs

/-- The thread `θ'` owns the lock that `θ` is about to take. -/
def WaitsFor (θ θ' : Θ) : Prop := ∃ l, s.Awaits θ l ∧ θ' ≠ θ ∧ s.held θ' l ≠ 0

variable {s}

theorem Awaits.unique {θ : Θ} {l m : L} (h : s.Awaits θ l) (h' : s.Awaits θ m) : l = m := by
  obtain ⟨f, rest, fs, top⟩ := h
  obtain ⟨f', rest', fs', top'⟩ := h'
  simp only [top, List.cons.injEq, Prod.mk.injEq, Stmt.lock.injEq] at top'
  exact top'.1.2.1

end Threads

/-! ## Checking a way -/

section Check

variable {F L : Type*} [DecidableEq L] (rank : L → ℕ) (contexts : F → List (Finset L))

/-- A function entered with the locks `entry` that has taken `own` since may go on like this. -/
def Checks (entry : Finset L) : List L → Way F L → Prop
  | own, [] => own = []
  | own, .lock l :: rest =>
    (l ∈ entry ∪ own.toFinset ∨ ∀ k ∈ entry ∪ own.toFinset, rank k < rank l) ∧
      Checks entry (l :: own) rest
  | own, .unlock l :: rest => l ∈ own ∧ Checks entry (own.erase l) rest
  | own, .call g :: rest => entry ∪ own.toFinset ∈ contexts g ∧ Checks entry own rest

instance decidableChecks (entry : Finset L) :
    ∀ own way, Decidable (Checks rank contexts entry own way)
  | own, [] => inferInstanceAs (Decidable (own = []))
  | own, .lock l :: rest =>
    have := decidableChecks entry (l :: own) rest
    inferInstanceAs (Decidable ((l ∈ entry ∪ own.toFinset ∨
      ∀ k ∈ entry ∪ own.toFinset, rank k < rank l) ∧ Checks rank contexts entry (l :: own) rest))
  | own, .unlock l :: rest =>
    have := decidableChecks entry (own.erase l) rest
    inferInstanceAs (Decidable (l ∈ own ∧ Checks rank contexts entry (own.erase l) rest))
  | own, .call g :: rest =>
    have := decidableChecks entry own rest
    inferInstanceAs (Decidable (entry ∪ own.toFinset ∈ contexts g ∧
      Checks rank contexts entry own rest))

end Check

/-- An order of the locks and, for each function, the sets of locks with which it is entered. -/
structure Discipline {Θ F L : Type*} [DecidableEq L] (P : Program Θ F L) where
  rank : L → ℕ
  contexts : F → List (Finset L)
  total : ∀ f, P.body f ≠ []
  checked : ∀ f, ∀ entry ∈ contexts f, ∀ way ∈ P.body f, Checks rank contexts entry [] way
  entered : ∀ θ, ∀ f ∈ P.starts θ ++ P.loops θ, ∅ ∈ contexts f

namespace Discipline

open Function

variable {Θ F L : Type*} [DecidableEq L] {P : Program Θ F L} (D : Discipline P)

/-- A thread with these functions in progress has taken the locks so many times. -/
inductive Keeps : List (F × Way F L) → (L → ℕ) → Prop where
  | idle : Keeps [] fun _ => 0
  | frame {f : F} {rest : Way F L} {fs : List (F × Way F L)} {held : L → ℕ} {entry : Finset L}
      {own : List L} : Keeps fs held → (∀ l, l ∈ entry ↔ held l ≠ 0) → entry ∈ D.contexts f →
      Checks D.rank D.contexts entry own rest → Keeps ((f, rest) :: fs) fun l => held l + own.count l

namespace Keeps

variable {D} {f g : F} {l : L} {rest way : Way F L} {fs : List (F × Way F L)} {held : L → ℕ}

/-- What the innermost function has been entered with and has taken since. -/
theorem innermost (k : D.Keeps ((f, rest) :: fs) held) : ∃ before entry own, D.Keeps fs before ∧
    (∀ l, l ∈ entry ↔ before l ≠ 0) ∧ entry ∈ D.contexts f ∧
    Checks D.rank D.contexts entry own rest ∧ held = fun l => before l + own.count l := by
  cases k with
  | frame outer entry_iff declared checks => exact ⟨_, _, _, outer, entry_iff, declared, checks, rfl⟩

/-- The locks that the thread holds are those on entry and those taken since. -/
theorem mem_union_iff {before : L → ℕ} {entry : Finset L} {own : List L}
    (entry_iff : ∀ l, l ∈ entry ↔ before l ≠ 0) (l : L) :
    l ∈ entry ∪ own.toFinset ↔ before l + own.count l ≠ 0 := by
  rw [Finset.mem_union, List.mem_toFinset, entry_iff, ← List.count_pos_iff]
  omega

theorem eq_zero_of_idle (k : D.Keeps [] held) : held = fun _ => 0 := by
  cases k
  rfl

theorem start (declared : ∅ ∈ D.contexts f) (hway : way ∈ P.body f) :
    D.Keeps [(f, way)] fun _ => 0 :=
  .frame .idle (by simp) declared (D.checked f ∅ declared way hway)

theorem lock (k : D.Keeps ((f, .lock l :: rest) :: fs) held) :
    D.Keeps ((f, rest) :: fs) (update held l (held l + 1)) := by
  obtain ⟨before, entry, own, outer, entry_iff, declared, checks, rfl⟩ := k.innermost
  convert Keeps.frame outer entry_iff declared checks.2 using 1
  funext m
  rw [List.count_cons]
  by_cases same : m = l
  · subst same
    simp [Nat.add_assoc]
  · simp [same, Ne.symm same]

theorem unlock (k : D.Keeps ((f, .unlock l :: rest) :: fs) held) :
    D.Keeps ((f, rest) :: fs) (update held l (held l - 1)) := by
  obtain ⟨before, entry, own, outer, entry_iff, declared, checks, rfl⟩ := k.innermost
  convert Keeps.frame outer entry_iff declared checks.2 using 1
  funext m
  have taken : 0 < own.count l := List.count_pos_iff.2 checks.1
  by_cases same : m = l
  · subst same
    rw [update_self, List.count_erase_self]
    show before m + own.count m - 1 = before m + (own.count m - 1)
    omega
  · rw [update_of_ne same, List.count_erase_of_ne same]

theorem call (k : D.Keeps ((f, .call g :: rest) :: fs) held) (hway : way ∈ P.body g) :
    D.Keeps ((g, way) :: (f, rest) :: fs) held := by
  obtain ⟨before, entry, own, outer, entry_iff, declared, ⟨declared', checks⟩, rfl⟩ := k.innermost
  have caller : D.Keeps ((f, rest) :: fs) _ := .frame outer entry_iff declared checks
  have checked := D.checked g _ declared' way hway
  have callee := Keeps.frame caller (mem_union_iff entry_iff) declared' checked
  simpa using callee

theorem ret (k : D.Keeps ((f, []) :: fs) held) : D.Keeps fs held := by
  obtain ⟨before, entry, own, outer, -, -, rfl, rfl⟩ := k.innermost
  exact outer

/-- A lock that every declaration of a function in progress demands is held. -/
theorem holds (k : D.Keeps fs held) {frame : F × Way F L} (hf : frame ∈ fs)
    (demanded : ∀ entry ∈ D.contexts frame.1, l ∈ entry) : held l ≠ 0 := by
  induction k with
  | idle => cases hf
  | frame _ entry_iff declared _ ih =>
    rcases List.mem_cons.1 hf with rfl | hf
    · exact Nat.ne_of_gt (Nat.lt_add_right _ (Nat.pos_of_ne_zero ((entry_iff l).1
        (demanded _ declared))))
    · exact Nat.ne_of_gt (Nat.lt_add_right _ (Nat.pos_of_ne_zero (ih hf)))

/-- A thread that is about to take a lock that it does not hold has no lock above it. -/
theorem ordered (k : D.Keeps ((f, .lock l :: rest) :: fs) held) (free : held l = 0) {m : L}
    (hm : held m ≠ 0) : D.rank m < D.rank l := by
  obtain ⟨before, entry, own, -, entry_iff, -, ⟨taken | above, -⟩, rfl⟩ := k.innermost
  · exact absurd free ((mem_union_iff entry_iff l).1 taken)
  · exact above m ((mem_union_iff entry_iff m).2 hm)

end Keeps

/-! ## Threads -/

structure Inv (s : Threads Θ F L) : Prop where
  keeps : ∀ θ, D.Keeps (s.stack θ) (s.held θ)
  exclusive : ∀ θ θ' l, θ' ≠ θ → s.held θ l ≠ 0 → s.held θ' l = 0

variable {D} {s t : Threads Θ F L} {θ θ' : Θ} {l : L}

/-- The owner of a lock is busy. -/
theorem Inv.busy (inv : D.Inv s) (owned : s.held θ l ≠ 0) : s.stack θ ≠ [] := by
  intro idle
  have k := inv.keeps θ
  rw [idle] at k
  exact owned (congrFun k.eq_zero_of_idle l)

/-- A thread that waits for a lock has no lock above it. -/
theorem Inv.rank_lt (inv : D.Inv s) {m : L} (owned : s.held θ l ≠ 0) (waits : s.Awaits θ m)
    (other : ∃ θ', θ' ≠ θ ∧ s.held θ' m ≠ 0) : D.rank l < D.rank m := by
  obtain ⟨f, rest, fs, top⟩ := waits
  obtain ⟨θ', ne, owned'⟩ := other
  have k := inv.keeps θ
  rw [top] at k
  exact k.ordered (inv.exclusive θ' θ m ne.symm owned') owned

/-- Along a chain of waiting threads the awaited locks rise. -/
theorem Inv.rank_lt_of_chain (inv : D.Inv s) (chain : Relation.TransGen s.WaitsFor θ θ')
    (waits : s.Awaits θ l) {m : L} (waits' : s.Awaits θ' m)
    (other : ∃ θ'', θ'' ≠ θ' ∧ s.held θ'' m ≠ 0) : D.rank l < D.rank m := by
  induction chain generalizing m with
  | single edge =>
    obtain ⟨l', hl', -, owned⟩ := edge
    obtain rfl := waits.unique hl'
    exact inv.rank_lt owned waits' other
  | tail _ edge ih =>
    obtain ⟨k, hk, ne, owned⟩ := edge
    exact (ih hk ⟨_, ne, owned⟩).trans (inv.rank_lt owned waits' other)

/-- No thread waits for itself through other threads. -/
theorem Inv.not_deadlocked (inv : D.Inv s) : ¬ Relation.TransGen s.WaitsFor θ θ := by
  intro circle
  obtain ⟨θ', ⟨l, waits, ne, owned⟩, -⟩ := Relation.TransGen.head'_iff.1 circle
  exact lt_irrefl _ (inv.rank_lt_of_chain circle waits waits ⟨θ', ne, owned⟩)

/-! ## Steps -/

variable [DecidableEq Θ]

theorem Inv.init (h : P.threads.init s) : D.Inv s := by
  refine ⟨fun θ => ?_, fun θ _ l _ taken => absurd (congrFun (h θ).1 l) taken⟩
  obtain ⟨held, idle | ⟨f, hf, way, hway, started⟩⟩ := h θ
  · rw [idle, held]
    exact .idle
  · rw [started, held]
    exact .start (D.entered θ f (List.mem_append_left _ hf)) hway

/-- A step of one thread that takes no lock from the others. -/
theorem Inv.update (inv : D.Inv s) {fs : List (F × Way F L)} {held : L → ℕ} (k : D.Keeps fs held)
    (free : ∀ l, held l ≠ 0 → s.held θ l = 0 → ∀ θ', θ' ≠ θ → s.held θ' l = 0) :
    D.Inv { stack := update s.stack θ fs, held := update s.held θ held } := by
  have others (l : L) (taken : held l ≠ 0) (θ' : Θ) (ne : θ' ≠ θ) : s.held θ' l = 0 := by
    by_cases before : s.held θ l = 0
    · exact free l taken before θ' ne
    · exact inv.exclusive θ θ' l ne before
  constructor
  · intro θ'
    by_cases same : θ' = θ
    · subst same
      simpa using k
    · simpa [same] using inv.keeps θ'
  · intro θ₁ θ₂ l ne taken
    dsimp only at taken ⊢
    by_cases h₁ : θ₁ = θ
    · subst h₁
      rw [update_of_ne ne]
      exact others l (by simpa using taken) θ₂ ne
    · rw [update_of_ne h₁] at taken
      by_cases h₂ : θ₂ = θ
      · subst h₂
        rw [update_self]
        by_contra held'
        exact taken (others l held' θ₁ h₁)
      · rw [update_of_ne h₂]
        exact inv.exclusive θ₁ θ₂ l ne taken

/-- A step that takes and gives back nothing. -/
theorem Inv.update_stack (inv : D.Inv s) {fs : List (F × Way F L)} (k : D.Keeps fs (s.held θ)) :
    D.Inv { s with stack := Function.update s.stack θ fs } := by
  have updated := inv.update k fun l taken free => absurd free taken
  rwa [update_eq_self] at updated

theorem Inv.step (inv : D.Inv s) (made : P.Step s θ t) : D.Inv t := by
  have k := inv.keeps θ
  cases made with
  | wake idle looped hway =>
    rw [idle] at k
    refine inv.update_stack ?_
    rw [k.eq_zero_of_idle]
    exact .start (D.entered θ _ (List.mem_append_right _ looped)) hway
  | @lock f l rest fs top unowned =>
    rw [top] at k
    refine inv.update k.lock fun m taken free => ?_
    obtain rfl : m = l := by
      by_contra ne
      exact taken (by rwa [update_of_ne ne])
    exact unowned
  | @unlock f l rest fs top =>
    rw [top] at k
    refine inv.update k.unlock fun m taken free => absurd ?_ taken
    by_cases same : m = l
    · subst same
      rw [update_self, free]
    · rwa [update_of_ne same]
  | call top hway =>
    rw [top] at k
    exact inv.update_stack (k.call hway)
  | ret top =>
    rw [top] at k
    exact inv.update_stack k.ret

theorem inv (D : Discipline P) (h : P.threads.Reachable s) : D.Inv s :=
  h.invariant (fun _ init => .init init) fun _ _ _ inv made => inv.step made

/-! ## What holds in every reachable configuration -/

/-- A function in progress has the locks that all its declarations demand. -/
theorem holds (D : Discipline P) (h : P.threads.Reachable s) {frame : F × Way F L}
    (hf : frame ∈ s.stack θ) (demanded : ∀ entry ∈ D.contexts frame.1, l ∈ entry) :
    s.held θ l ≠ 0 :=
  ((D.inv h).keeps θ).holds hf demanded

theorem not_deadlocked (D : Discipline P) (h : P.threads.Reachable s) (θ : Θ) :
    ¬ Relation.TransGen s.WaitsFor θ θ := (D.inv h).not_deadlocked

/-! ## Progress -/

/-- A busy thread takes its next step, unless another thread owns the lock that it is about to take. -/
theorem steps_or_waits (D : Discipline P) (busy : s.stack θ ≠ []) :
    (∃ t, P.Step s θ t) ∨ ∃ θ', s.WaitsFor θ θ' := by
  obtain ⟨⟨f, rest⟩, fs, top⟩ := List.exists_cons_of_ne_nil busy
  cases rest with
  | nil => exact .inl ⟨_, .ret top⟩
  | cons stmt rest => cases stmt with
    | lock l =>
      by_cases unowned : ∀ θ', θ' ≠ θ → s.held θ' l = 0
      · exact .inl ⟨_, .lock top unowned⟩
      · push Not at unowned
        obtain ⟨θ', ne, owned⟩ := unowned
        exact .inr ⟨θ', l, ⟨f, rest, fs, top⟩, ne, owned⟩
    | unlock l => exact .inl ⟨_, .unlock top⟩
    | call g =>
      obtain ⟨way, ways, hways⟩ := List.exists_cons_of_ne_nil (D.total g)
      have hway : way ∈ P.body g := hways ▸ List.mem_cons_self
      exact .inl ⟨_, .call top hway⟩

/-- When a thread is busy, some busy thread takes its next step. -/
theorem progress [Finite Θ] (D : Discipline P) (h : P.threads.Reachable s)
    (busy : ∃ θ, s.stack θ ≠ []) : ∃ θ, s.stack θ ≠ [] ∧ ∃ t, P.Step s θ t := by
  have inv := D.inv h
  let awaited (θ θ' : Θ) : Prop := Relation.TransGen s.WaitsFor θ' θ
  have irrefl : Std.Irrefl awaited := ⟨fun θ => inv.not_deadlocked⟩
  have trans : IsTrans Θ awaited := ⟨fun _ _ _ first second => second.trans first⟩
  have founded : WellFounded awaited := Finite.wellFounded_of_trans_of_irrefl awaited
  obtain ⟨θ, hθ, last⟩ := founded.has_min {θ | s.stack θ ≠ []} busy
  rcases D.steps_or_waits hθ with steps | ⟨θ', waits⟩
  · exact ⟨θ, hθ, steps⟩
  · have owner : s.stack θ' ≠ [] := by
      obtain ⟨l, -, -, owned⟩ := waits
      exact inv.busy owned
    exact absurd (.single waits) (last θ' owner)

end Discipline

end Reactive
