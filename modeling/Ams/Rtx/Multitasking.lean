import Ams.Lib.Locks
import Ams.Rtx.Locking

/-!
# Threads under the kernel

The threads of a program run under the kernel, one at a time: the running one goes on, or a tick or an
interrupt switches to another.  `none` is the idle task.  What the threads do to the mutexes is what the
same program does to recursive locks in some order of its threads (`multitasking_refines`), so a
discipline of the locks holds under the kernel too, and the kernel leaves no busy thread while it is
idle (`multitasking_progress`).
-/

namespace Ams

open Function Reactive

structure Multitasking (Θ F L : Type*) where
  sched : Scheduler (Option Θ) L
  stack : Θ → List (F × Way F L)

inductive RtxAction (Θ : Type*) where
  /-- the running thread goes on -/
  | run
  /-- the running thread waits for its next round -/
  | block
  | tick
  /-- another thread is created or gets a message -/
  | dispatch (θ : Θ)
  | setPriority (θ : Θ) (newPrio : ℕ)

section System

variable {Θ F L : Type*} [DecidableEq Θ] [DecidableEq L]

/-- The call on top returns. -/
def returned : Option (Option Θ) → (Θ → List (F × Way F L)) → Θ → List (F × Way F L)
  | some (some θ), stack =>
    match stack θ with
    | (f, _ :: rest) :: fs => update stack θ ((f, rest) :: fs)
    | _ => stack
  | _, stack => stack

inductive Multitasking.Step (P : Program Θ F L) (s : Multitasking Θ F L) :
    RtxAction Θ → Multitasking Θ F L → Prop where
  | enter {θ : Θ} {f : F} {way : Way F L} : s.sched.run = some θ → s.stack θ = [] → f ∈ P.loops θ →
      way ∈ P.body f → Step P s .run { s with stack := update s.stack θ [(f, way)] }
  | lock {θ : Θ} {f : F} {l : L} {rest : Way F L} {fs : List (F × Way F L)}
      {k : Scheduler (Option Θ) L} : s.sched.run = some θ → s.stack θ = (f, .lock l :: rest) :: fs →
      rtMutWait l s.sched = some (k, .ok) →
      Step P s .run { sched := k, stack := update s.stack θ ((f, rest) :: fs) }
  | wait {θ : Θ} {f : F} {l : L} {rest : Way F L} {fs : List (F × Way F L)}
      {k : Scheduler (Option Θ) L} : s.sched.run = some θ → s.stack θ = (f, .lock l :: rest) :: fs →
      rtMutWait l s.sched = some (k, .tmo) → Step P s .run { s with sched := k }
  | unlock {θ : Θ} {f : F} {l : L} {rest : Way F L} {fs : List (F × Way F L)}
      {k : Scheduler (Option Θ) L} {r : OsResult} {granted : Option (Option Θ)} :
      s.sched.run = some θ → s.stack θ = (f, .unlock l :: rest) :: fs →
      rtMutRelease l s.sched = some (k, r, granted) →
      Step P s .run
        { sched := k, stack := returned granted (update s.stack θ ((f, rest) :: fs)) }
  | call {θ : Θ} {f g : F} {rest way : Way F L} {fs : List (F × Way F L)} : s.sched.run = some θ →
      s.stack θ = (f, .call g :: rest) :: fs → way ∈ P.body g →
      Step P s .run { s with stack := update s.stack θ ((g, way) :: (f, rest) :: fs) }
  | ret {θ : Θ} {f : F} {fs : List (F × Way F L)} : s.sched.run = some θ →
      s.stack θ = (f, []) :: fs → Step P s .run { s with stack := update s.stack θ fs }
  | block {θ : Θ} {k : Scheduler (Option Θ) L} : s.sched.run = some θ → s.stack θ = [] →
      rtBlock .waiting s.sched = some k → Step P s .block { s with sched := k }
  | tick {k : Scheduler (Option Θ) L} (robin : Bool) (woken : List Θ) : woken.Nodup →
      (∀ θ ∈ woken, s.sched.state (some θ) = .waiting) →
      rtSystick robin (woken.map some) s.sched = some k → Step P s .tick { s with sched := k }
  | dispatch (θ : Θ) : s.sched.state (some θ) = .waiting →
      Step P s (.dispatch θ) { s with sched := rtDispatch (some θ) s.sched }
  | setPriority {k : Scheduler (Option Θ) L} (θ : Θ) (newPrio : ℕ) : 0 < newPrio →
      rtTskPrio (some θ) newPrio s.sched = some k →
      Step P s (.setPriority θ newPrio) { s with sched := k }

/-- When `main` is entered; a thread that is not created yet waits. -/
def multitasking (P : Program Θ F L) (main : Θ) (base : Θ → ℕ) :
    System (Multitasking Θ F L) (RtxAction Θ) where
  init s := s.sched.run = some main ∧ s.sched.rdy = [none] ∧
    (∀ t, s.sched.state t =
      if t = some main then .running else if t = none then .ready else .waiting) ∧
    (∀ t, s.sched.prioBase t = t.elim 0 base) ∧ s.sched.prio = s.sched.prioBase ∧
    (∀ t, s.sched.rlnk t = none) ∧ (∀ t, s.sched.mlnk t = []) ∧ (∀ l, s.sched.level l = 0) ∧
    (∀ l, s.sched.lnk l = []) ∧
    (∀ θ, θ ≠ main → s.stack θ = []) ∧
    (s.stack main = [] ∨ ∃ f ∈ P.starts main, ∃ way ∈ P.body f, s.stack main = [(f, way)])
  step := Multitasking.Step P

namespace Multitasking

/-- How often the thread has taken the mutex. -/
def held (s : Multitasking Θ F L) (θ : Θ) (l : L) : ℕ :=
  if s.sched.owner l = some (some θ) then s.sched.level l else 0

/-- The threads without the kernel. -/
def threads (s : Multitasking Θ F L) : Threads Θ F L := ⟨s.stack, s.held⟩

/-- The thread is in the list of a mutex that the other thread has. -/
def Blocks (s : Multitasking Θ F L) (θ θ' : Θ) : Prop :=
  ∃ l, some θ ∈ s.sched.lnk l ∧ s.sched.owner l = some (some θ')

structure Inv (s : Multitasking Θ F L) : Prop where
  sched : s.sched.Inv none
  /-- who waits for a mutex is about to take it -/
  awaits : ∀ θ l, some θ ∈ s.sched.lnk l → s.threads.Awaits θ l
  /-- who waits for something else is not busy -/
  asleep : ∀ θ, s.sched.state (some θ) = .waiting → s.stack θ = []
  /-- the idle task has no mutex -/
  idle : s.sched.mlnk none = []

end Multitasking

end System

/-! ## Steps of the kernel alone -/

section Steps

variable {Θ F L : Type*} [DecidableEq Θ] {s t : Multitasking Θ F L} {k : Scheduler (Option Θ) L}
  {θ θ' : Θ} {l : L}

/-- A step of the kernel that the threads do not see. -/
theorem Multitasking.Inv.of_moves {prio prioBase : Option Θ → ℕ} (inv : s.Inv) (inv' : k.Inv none)
    (moves : Scheduler.Moves { s.sched with prio := prio, prioBase := prioBase } k) :
    Multitasking.Inv { s with sched := k } ∧
      Multitasking.threads { s with sched := k } = s.threads := by
  have same : Multitasking.threads { s with sched := k } = s.threads := by
    unfold Multitasking.threads Multitasking.held
    rw [moves.owner, moves.level]
  refine ⟨⟨inv', fun θ l waits => ?_, fun θ asleep => ?_, ?_⟩, same⟩
  · rw [same]
    exact inv.awaits θ l ((moves.lnk _ l).1 waits)
  · exact inv.asleep θ (moves.asleep _ asleep)
  · rw [moves.mlnk]
    exact inv.idle

theorem Multitasking.Inv.block (inv : s.Inv) (run : s.sched.run = some θ) (idle : s.stack θ = [])
    (made : rtBlock .waiting s.sched = some k) :
    Multitasking.Inv { s with sched := k } ∧
      Multitasking.threads { s with sched := k } = s.threads := by
  have moves : Scheduler.Moves
      { s.sched with state := update s.sched.state s.sched.run .waiting } k :=
    rtDispatchFirst_moves made
  have inv' := inv.sched.block (by simp [run]) made
  have same : Multitasking.threads { s with sched := k } = s.threads := by
    unfold Multitasking.threads Multitasking.held
    rw [moves.owner, moves.level]
  refine ⟨⟨inv', fun θ' l waits => ?_, fun θ' asleep => ?_, ?_⟩, same⟩
  · rw [same]
    exact inv.awaits θ' l ((moves.lnk _ l).1 waits)
  · have before := moves.asleep _ asleep
    by_cases eq : θ' = θ
    · rw [eq]
      exact idle
    · exact inv.asleep θ' (by simpa [run, eq] using before)
  · rw [moves.mlnk]
    exact inv.idle

/-- The thread that goes on is not asleep afterwards. -/
theorem Multitasking.Inv.asleep_update (inv : s.Inv) (run : s.sched.run = some θ)
    (awake : ∀ t, k.state t = .waiting → s.sched.state t = .waiting) {fs : List (F × Way F L)}
    (asleep : k.state (some θ') = .waiting) : update s.stack θ fs θ' = [] := by
  have before := awake _ asleep
  have ne : θ' ≠ θ := by
    rintro rfl
    exact inv.sched.runs.ne_of_asleep before run.symm
  rw [update_of_ne ne]
  exact inv.asleep θ' before

/-- The running thread waits for no mutex. -/
theorem Multitasking.Inv.awaits_update (inv : s.Inv) (run : s.sched.run = some θ)
    {fs : List (F × Way F L)} (waits : some θ' ∈ s.sched.lnk l) :
    ∃ f rest fs', update s.stack θ fs θ' = (f, .lock l :: rest) :: fs' := by
  have ne : θ' ≠ θ := by
    rintro rfl
    exact inv.sched.run_not_mem_lnk l (run ▸ waits)
  rw [update_of_ne ne]
  exact inv.awaits θ' l waits

/-- A step of the running thread without a mutex. -/
theorem Multitasking.Inv.update_stack (inv : s.Inv) (run : s.sched.run = some θ)
    (fs : List (F × Way F L)) : Multitasking.Inv { s with stack := update s.stack θ fs } where
  sched := inv.sched
  awaits _ _ waits := inv.awaits_update run waits
  asleep _ asleep := inv.asleep_update run (fun _ asleep => asleep) asleep
  idle := inv.idle

/-- Only the owner has the mutex. -/
theorem Multitasking.held_of_owner (owner : s.sched.owner l = some (some θ)) (θ' : Θ) :
    s.held θ' l = if θ' = θ then s.sched.level l else 0 := by
  unfold held
  rw [owner]
  simp [eq_comm]

theorem returned_eq {stack : Θ → List (F × Way F L)} {f : F} {stmt : Stmt F L} {rest : Way F L}
    {fs : List (F × Way F L)} (top : stack θ = (f, stmt :: rest) :: fs) :
    returned (some (some θ)) stack = update stack θ ((f, rest) :: fs) := by
  simp [returned, top]

/-- The first task that waits for a mutex is a thread other than the running one. -/
theorem Multitasking.Inv.first_waiting {first : Option Θ} (inv : s.Inv) (run : s.sched.run = some θ)
    (waits : first ∈ s.sched.lnk l) : ∃ θ', first = some θ' ∧ θ' ≠ θ := by
  obtain ⟨θ', rfl⟩ : ∃ θ', first = some θ' := by
    refine Option.ne_none_iff_exists'.1 ?_
    rintro rfl
    exact inv.sched.idle_not_mem_lnk l waits
  refine ⟨θ', rfl, ?_⟩
  rintro rfl
  exact inv.sched.run_not_mem_lnk l (run ▸ waits)

/-- Where a thread in the middle of its code is. -/
theorem Multitasking.Inv.place (inv : s.Inv) (busy : s.stack θ ≠ []) :
    s.sched.run = some θ ∨ some θ ∈ s.sched.rdy ∨ ∃ l, some θ ∈ s.sched.lnk l := by
  have placed := inv.sched.placed
  cases state : s.sched.state (some θ) with
  | ready => exact .inr (.inl ((placed.ready _).2 ⟨state, nofun⟩))
  | running => exact .inl (placed.running _ state nofun).symm
  | waitMut =>
    obtain ⟨l, chained⟩ := Option.ne_none_iff_exists'.1 ((placed.waits _ nofun).1 state)
    exact .inr (.inr ⟨l, (placed.chained _ l).2 chained⟩)
  | waiting => exact absurd (inv.asleep θ state) busy

/-- Who waits for a mutex waits for another thread. -/
theorem Multitasking.Inv.waitsFor (inv : s.Inv) (waits : some θ ∈ s.sched.lnk l) :
    ∃ θ', θ' ≠ θ ∧ s.held θ' l ≠ 0 := by
  obtain ⟨taken, other⟩ := inv.sched.waited _ l waits
  obtain ⟨t, owner⟩ := Option.ne_none_iff_exists'.1 (inv.sched.owned.taken l taken)
  cases t with
  | none =>
    have owned := (inv.sched.owned.owned none l).2 ⟨taken, owner⟩
    rw [inv.idle] at owned
    cases owned
  | some θ' =>
    refine ⟨θ', ?_, ?_⟩
    · rintro rfl
      exact other owner
    · rw [Multitasking.held_of_owner owner, if_pos rfl]
      exact taken

/-- Who is in the list of a mutex waits for its owner. -/
theorem Multitasking.Inv.waitsFor_of_blocks (inv : s.Inv) (blocks : s.Blocks θ θ') :
    s.threads.WaitsFor θ θ' := by
  obtain ⟨l, waits, owner⟩ := blocks
  obtain ⟨taken, other⟩ := inv.sched.waited _ l waits
  refine ⟨l, inv.awaits θ l waits, ?_, ?_⟩
  · rintro rfl
    exact other owner
  · show s.held θ' l ≠ 0
    rw [Multitasking.held_of_owner owner, if_pos rfl]
    exact taken

end Steps

/-! ## Mutexes -/

section Mutexes

variable {Θ F L : Type*} [DecidableEq Θ] [DecidableEq L] {P : Program Θ F L}
  {s t : Multitasking Θ F L} {k : Scheduler (Option Θ) L} {θ θ' : Θ} {l : L} {main : Θ}
  {base : Θ → ℕ}

theorem Multitasking.Inv.init (h : (multitasking P main base).init s) :
    s.Inv ∧ P.threads.init s.threads := by
  obtain ⟨run, rdy, state, prioBase, prio, rlnk, mlnk, level, lnk, idle, start⟩ := h
  have placed : s.sched.Placed none := by
    refine ⟨fun t running _ => ?_, fun t => ?_, fun t l => ?_, fun t _ => ?_, nofun, ?_, fun l => ?_⟩
    · rw [state] at running
      split_ifs at running with same
      rw [run, same]
    · rw [rdy, state]
      split_ifs with same other <;> simp_all
    · simp [lnk, rlnk]
    · rw [state, rlnk]
      split_ifs <;> simp
    · simp [rdy]
    · simp [lnk]
  have sched : s.sched.Inv none := by
    refine ⟨placed, ⟨?_, fun l => ?_⟩, ⟨?_, fun t ready => ?_⟩, ⟨fun t l => ?_, fun l taken => ?_,
      fun t => ?_⟩, fun t l waits => ?_, .inr ?_⟩
    · rw [rdy]
      exact List.pairwise_singleton _ _
    · rw [lnk]
      exact List.Pairwise.nil
    · rw [state, run, if_pos rfl]
    · obtain rfl : t = none := by simpa [rdy] using ready
      rw [prio, prioBase]
      exact Nat.zero_le _
    · simp [mlnk, level]
    · exact absurd (level l) taken
    · simp [mlnk]
    · simp [lnk] at waits
    · simp [rdy]
  refine ⟨⟨sched, fun θ l waits => ?_, fun θ asleep => ?_, mlnk none⟩, fun θ => ⟨?_, ?_⟩⟩
  · simp [lnk] at waits
  · by_cases same : θ = main
    · simp [state, same] at asleep
    · exact idle θ same
  · funext l
    simp [Multitasking.threads, Multitasking.held, level]
  · by_cases same : θ = main
    · subst same
      exact start.imp_right fun ⟨f, hf, way, hway, stack⟩ => ⟨f, hf, way, hway, stack⟩
    · exact .inl (idle θ same)

/-- Two counts agree if they agree for the mutex and for the others. -/
theorem Multitasking.held_eq {held : Θ → L → ℕ} {n : ℕ}
    (self : ∀ θ', Multitasking.held t θ' l = if θ' = θ then n else held θ' l)
    (others : ∀ θ' l', l' ≠ l → Multitasking.held t θ' l' = held θ' l') :
    t.held = update held θ (update (held θ) l n) := by
  funext θ' l'
  by_cases eq : l' = l
  · subst eq
    rw [self]
    by_cases same : θ' = θ
    · simp [same]
    · simp [same]
  · rw [others θ' l' eq]
    by_cases same : θ' = θ
    · simp [same, eq]
    · simp [same]

/-- The thread that takes a mutex has it once more, and no other has it. -/
theorem Multitasking.held_lock (run : s.sched.run = some θ) (takes : s.sched.Takes l k .ok)
    (stack : Θ → List (F × Way F L)) :
    Multitasking.held ⟨k, stack⟩ = update s.held θ (update (s.held θ) l (s.held θ l + 1)) ∧
      ∀ θ', θ' ≠ θ → s.held θ' l = 0 := by
  cases takes with
  | free free =>
    have zero (θ' : Θ) : s.held θ' l = 0 := by simp [held, free]
    refine ⟨held_eq (fun θ' => ?_) fun θ' l' ne => ?_, fun θ' _ => zero θ'⟩
    · simp only [zero]
      by_cases same : θ' = θ
      · simp [held, Scheduler.own, Scheduler.inc, run, same, free]
      · have ne : θ ≠ θ' := Ne.symm same
        simp [held, Scheduler.own, Scheduler.inc, run, same, ne]
    · simp [held, Scheduler.own, Scheduler.inc, ne]
  | nested taken owner =>
    rw [run] at owner
    have zero (θ' : Θ) (ne : θ' ≠ θ) : s.held θ' l = 0 := by simp [held, owner, ne.symm]
    refine ⟨held_eq (fun θ' => ?_) fun θ' l' ne => ?_, zero⟩
    · by_cases same : θ' = θ
      · simp [held, Scheduler.inc, owner, same]
      · simp [held, Scheduler.inc, owner, Ne.symm same, same]
    · simp [held, Scheduler.inc, ne]

theorem Multitasking.held_dec (owner : s.sched.owner l = some (some θ))
    (stack : Θ → List (F × Way F L)) : Multitasking.held ⟨s.sched.dec l, stack⟩ =
      update s.held θ (update (s.held θ) l (s.held θ l - 1)) := by
  refine held_eq (fun θ' => ?_) fun θ' l' ne => ?_
  · have owner' : (s.sched.dec l).owner l = some (some θ) := owner
    rw [held_of_owner owner, held_of_owner owner, held_of_owner (s := ⟨s.sched.dec l, stack⟩) owner']
    by_cases same : θ' = θ
    · simp [same, Scheduler.dec]
    · simp [same]
  · simp [held, Scheduler.dec, ne]

/-- The thread that gives a mutex back has it once less. -/
theorem Multitasking.held_unlock (run : s.sched.run = some θ) (releases : s.sched.Releases l k none)
    (stack : Θ → List (F × Way F L)) : Multitasking.held ⟨k, stack⟩ =
      update s.held θ (update (s.held θ) l (s.held θ l - 1)) := by
  cases releases with
  | refused refused =>
    have zero : s.held θ l = 0 := by
      unfold Multitasking.held
      rw [← run]
      split_ifs with owner
      · exact refused.resolve_right (not_not.2 owner)
      · rfl
    have less : s.held θ l - 1 = s.held θ l := by omega
    rw [less, update_eq_self, update_eq_self]
    rfl
  | nested nested owner =>
    rw [run] at owner
    exact held_dec owner stack
  | free last owner nobody moves =>
    rw [run] at owner
    rw [← held_dec owner stack]
    unfold Multitasking.held
    rw [moves.owner, moves.level]
    rfl

/-- The first thread that waits for the mutex has it after the last time. -/
theorem Multitasking.held_handOver (run : s.sched.run = some θ)
    (releases : s.sched.Releases l k (some (some θ'))) (stack : Θ → List (F × Way F L)) :
    let after := update s.held θ (update (s.held θ) l (s.held θ l - 1))
    (∀ θ'', after θ'' l = 0) ∧
      Multitasking.held ⟨k, stack⟩ = update after θ' (update (after θ') l (after θ' l + 1)) := by
  intro after
  cases releases with
  | handed last owner waiting moves =>
    rw [run] at owner
    have dec : Multitasking.held ⟨s.sched.dec l, stack⟩ = after := held_dec owner stack
    have zero (θ'' : Θ) : after θ'' l = 0 := by
      by_cases same : θ'' = θ
      · simp [after, same, held_of_owner owner, last]
      · simp [after, same, held_of_owner owner]
    refine ⟨zero, held_eq (fun θ'' => ?_) fun θ'' l' ne => ?_⟩
    · have owner' : k.owner l = some (some θ') := by
        rw [moves.owner]
        simp [Scheduler.handOver]
      rw [held_of_owner (s := ⟨k, stack⟩) owner', zero, zero, moves.level]
      simp [Scheduler.handOver]
    · rw [← dec]
      unfold Multitasking.held
      rw [moves.owner, moves.level]
      simp [Scheduler.handOver, Scheduler.disown, ne]

/-! ## Threads -/

/-- A thread that requests a mutex waits for it or has it then. -/
theorem Multitasking.Inv.wait {f : F} {rest : Way F L} {fs : List (F × Way F L)} (inv : s.Inv)
    (run : s.sched.run = some θ) (top : s.stack θ = (f, .lock l :: rest) :: fs)
    (made : rtMutWait l s.sched = some (k, .tmo)) :
    Multitasking.Inv { s with sched := k } ∧
      Multitasking.threads { s with sched := k } = s.threads := by
  obtain ⟨inv', takes⟩ := inv.sched.mutWait (by simp [run]) made
  cases takes with
  | waits taken owner other moves =>
    have same : Multitasking.threads { s with sched := k } = s.threads := by
      unfold Multitasking.threads Multitasking.held
      rw [moves.owner, moves.level]
    refine ⟨⟨inv', fun θ' l' waits => ?_, fun θ' asleep => ?_, ?_⟩, same⟩
    · rw [same]
      have before := (moves.lnk _ l').1 waits
      dsimp only at before
      by_cases eq : l' = l
      · subst eq
        rw [update_self, List.mem_cons, run] at before
        rcases before with eq | before
        · obtain rfl := Option.some.inj eq
          exact ⟨f, rest, fs, top⟩
        · exact inv.awaits θ' l' before
      · rw [update_of_ne eq] at before
        exact inv.awaits θ' l' before
    · have before := moves.asleep _ asleep
      by_cases eq : some θ' = s.sched.run
      · simp [eq] at before
      · exact inv.asleep θ' (by simpa [eq] using before)
    · rw [moves.mlnk]
      exact inv.idle

theorem Multitasking.Inv.lock {f : F} {rest : Way F L} {fs : List (F × Way F L)} (inv : s.Inv)
    (run : s.sched.run = some θ) (top : s.stack θ = (f, .lock l :: rest) :: fs)
    (made : rtMutWait l s.sched = some (k, .ok)) :
    Multitasking.Inv { sched := k, stack := update s.stack θ ((f, rest) :: fs) } ∧
      P.Step s.threads θ (Multitasking.threads
        { sched := k, stack := update s.stack θ ((f, rest) :: fs) }) := by
  obtain ⟨inv', takes⟩ := inv.sched.mutWait (by simp [run]) made
  obtain ⟨held, others⟩ := held_lock run takes (update s.stack θ ((f, rest) :: fs))
  refine ⟨?_, ?_⟩
  · cases takes with
    | free free =>
      refine ⟨inv', fun _ _ waits => inv.awaits_update run waits,
        fun _ asleep => inv.asleep_update run (fun _ asleep => asleep) asleep, ?_⟩
      simpa [Scheduler.own, Scheduler.inc, run] using inv.idle
    | nested taken owner =>
      exact ⟨inv', fun _ _ waits => inv.awaits_update run waits,
        fun _ asleep => inv.asleep_update run (fun _ asleep => asleep) asleep, inv.idle⟩
  · unfold Multitasking.threads
    rw [held]
    exact .lock top others

/-- A thread gives a mutex back that no other thread gets. -/
theorem Multitasking.Inv.unlock_none {f : F} {rest : Way F L} {fs : List (F × Way F L)} (inv : s.Inv)
    (inv' : k.Inv none) (run : s.sched.run = some θ)
    (top : s.stack θ = (f, .unlock l :: rest) :: fs) (releases : s.sched.Releases l k none) :
    Multitasking.Inv { sched := k, stack := update s.stack θ ((f, rest) :: fs) } ∧
      P.Step s.threads θ (Multitasking.threads
        { sched := k, stack := update s.stack θ ((f, rest) :: fs) }) := by
  constructor
  · cases releases with
    | refused refused => exact inv.update_stack run _
    | nested nested owner =>
      exact ⟨inv', fun _ _ waits => inv.awaits_update run waits,
        fun _ asleep => inv.asleep_update run (fun _ asleep => asleep) asleep, inv.idle⟩
    | free last owner nobody moves =>
      refine ⟨inv', fun θ' l' waits => ?_, fun _ asleep => inv.asleep_update run moves.asleep asleep,
        ?_⟩
      · exact inv.awaits_update run ((moves.lnk _ l').1 waits)
      · rw [moves.mlnk]
        simpa [Scheduler.disown, Scheduler.dec, run] using inv.idle
  · unfold Multitasking.threads
    rw [held_unlock run releases]
    exact .unlock top

/-- A thread gives a mutex back, and the first that waits for it takes it. -/
theorem Multitasking.Inv.unlock_some {f f' : F} {rest rest' : Way F L} {fs fs' : List (F × Way F L)}
    (inv : s.Inv) (inv' : k.Inv none) (run : s.sched.run = some θ) (ne : θ' ≠ θ)
    (top : s.stack θ = (f, .unlock l :: rest) :: fs)
    (top' : s.stack θ' = (f', .lock l :: rest') :: fs')
    (releases : s.sched.Releases l k (some (some θ'))) :
    let t : Multitasking Θ F L :=
      { sched := k
        stack := update (update s.stack θ ((f, rest) :: fs)) θ' ((f', rest') :: fs') }
    t.Inv ∧ ∃ u, P.Step s.threads θ u ∧ P.Step u θ' t.threads := by
  intro t
  have placed := inv.sched.placed
  obtain ⟨zero, held⟩ := held_handOver run releases t.stack
  constructor
  · cases releases with
    | @handed _ _ waiting last owner lnk moves =>
      have chained : s.sched.rlnk (some θ') = some l :=
        (placed.chained _ l).1 (lnk ▸ List.mem_cons_self)
      have blocked : s.sched.state (some θ') = .waitMut := by
        rw [placed.waits _ nofun, chained]
        exact Option.some_ne_none l
      refine ⟨inv', fun θ₁ l' waits => ?_, fun θ₁ asleep => ?_, ?_⟩
      · obtain ⟨mem, other⟩ := placed.mem_of_handOver lnk ((moves.lnk _ l').1 waits)
        obtain ⟨f₁, rest₁, fs₁, top₁⟩ : ∃ f₁ rest₁ fs₁,
            update s.stack θ ((f, rest) :: fs) θ₁ = (f₁, .lock l' :: rest₁) :: fs₁ :=
          inv.awaits_update run mem
        exact ⟨f₁, rest₁, fs₁, (update_of_ne (mt (congrArg some) other) _ _).trans top₁⟩
      · have before : s.sched.state (some θ₁) = .waiting := moves.asleep _ asleep
        have other : θ₁ ≠ θ' := by
          rintro rfl
          rw [blocked] at before
          cases before
        exact (update_of_ne other _ _).trans (inv.asleep_update run moves.asleep asleep)
      · rw [moves.mlnk]
        simpa [Scheduler.handOver, Scheduler.disown, Scheduler.dec, run] using inv.idle
  · have locked := Program.Step.lock (P := P) (s := ⟨update s.stack θ ((f, rest) :: fs),
      update s.held θ (update (s.held θ) l (s.held θ l - 1))⟩) ((update_of_ne ne _ _).trans top')
        fun θ'' _ => zero θ''
    refine ⟨_, .unlock top, ?_⟩
    unfold Multitasking.threads
    rw [held]
    exact locked

/-- A step under the kernel is a step of the threads, two of them or none. -/
theorem Multitasking.Inv.step {a : RtxAction Θ} (inv : s.Inv)
    (reach : P.threads.Reachable s.threads) (made : Multitasking.Step P s a t) :
    t.Inv ∧ P.threads.Reachable t.threads := by
  cases made with
  | enter run idle looped hway =>
    exact ⟨inv.update_stack run _, reach.step (l := _) (.wake idle looped hway)⟩
  | lock run top made =>
    obtain ⟨inv', step⟩ := inv.lock (P := P) run top made
    exact ⟨inv', reach.step step⟩
  | wait run top made =>
    obtain ⟨inv', same⟩ := inv.wait run top made
    exact ⟨inv', same ▸ reach⟩
  | @unlock θ f l rest fs k r granted run top made =>
    obtain ⟨inv', releases⟩ := inv.sched.mutRelease made
    cases granted with
    | none =>
      obtain ⟨inv', step⟩ := inv.unlock_none (P := P) inv' run top releases
      exact ⟨inv', reach.step step⟩
    | some first =>
      have waits : first ∈ s.sched.lnk l := by
        cases releases with
        | handed last owner lnk moves => exact lnk ▸ List.mem_cons_self
      obtain ⟨θ', rfl, ne⟩ := inv.first_waiting run waits
      obtain ⟨f', rest', fs', top'⟩ := inv.awaits θ' l waits
      have top'' : update s.stack θ ((f, rest) :: fs) θ' = (f', .lock l :: rest') :: fs' :=
        (update_of_ne ne _ _).trans top'
      obtain ⟨inv', u, unlocked, locked⟩ :=
        inv.unlock_some (P := P) inv' run ne top top' releases
      rw [returned_eq top'']
      exact ⟨inv', (reach.step unlocked).step locked⟩
  | call run top hway => exact ⟨inv.update_stack run _, reach.step (l := _) (.call top hway)⟩
  | ret run top => exact ⟨inv.update_stack run _, reach.step (l := _) (.ret top)⟩
  | block run idle made =>
    obtain ⟨inv', same⟩ := inv.block run idle made
    exact ⟨inv', same ▸ reach⟩
  | tick robin woken distinct asleep made =>
    have distinct' := distinct.map (Option.some_injective Θ)
    obtain ⟨inv', moves⟩ := inv.sched.systick distinct' (by simpa using asleep) made
    obtain ⟨inv', same⟩ := inv.of_moves inv' moves
    exact ⟨inv', same ▸ reach⟩
  | dispatch θ asleep =>
    have placed := inv.sched.placed.out (t := some θ) (by simp [asleep]) (by simp [asleep])
    have ne : some θ ≠ s.sched.run := inv.sched.runs.ne_of_asleep asleep
    have inv' := Scheduler.Inv.dispatch placed inv.sched.ordered inv.sched.runs ne inv.sched.owned
      inv.sched.waited (inv.sched.idle.imp_right .inl)
    obtain ⟨inv', same⟩ := inv.of_moves inv' (rtDispatch_moves (some θ) s.sched)
    exact ⟨inv', same ▸ reach⟩
  | setPriority θ newPrio pos made =>
    obtain ⟨inv', moves⟩ := inv.sched.tskPrio made
    obtain ⟨inv', same⟩ := inv.of_moves inv' moves
    exact ⟨inv', same ▸ reach⟩

theorem multitasking_inv (h : (multitasking P main base).Reachable s) :
    s.Inv ∧ P.threads.Reachable s.threads := by
  refine h.invariant (I := fun s => s.Inv ∧ P.threads.Reachable s.threads) ?_ ?_
  · intro s init
    obtain ⟨inv, start⟩ := Multitasking.Inv.init init
    exact ⟨inv, (System.Execution.init start).reachable⟩
  · rintro s a t ⟨inv, reach⟩ made
    exact inv.step reach made

/-- Under the kernel the threads do to the mutexes what they do to recursive locks in some order of their
steps.  The running task has the highest priority of those that can run, the tasks that wait for a mutex
stand by priority, and a thread in the middle of its code runs, is ready, or waits for the mutex that it
is about to take and that another thread has. -/
theorem multitasking_refines (h : (multitasking P main base).Reachable s) :
    P.threads.Reachable s.threads ∧
    (∀ t ∈ s.sched.rdy, s.sched.prio t ≤ s.sched.prio s.sched.run) ∧
    (∀ l, (s.sched.lnk l).Pairwise fun t u => s.sched.prio u ≤ s.sched.prio t) ∧
    ∀ θ, s.stack θ ≠ [] → s.sched.run = some θ ∨ some θ ∈ s.sched.rdy ∨
      ∃ l, some θ ∈ s.sched.lnk l ∧ s.threads.Awaits θ l ∧ ∃ θ', θ' ≠ θ ∧ s.held θ' l ≠ 0 := by
  obtain ⟨inv, reach⟩ := multitasking_inv h
  refine ⟨reach, inv.sched.runs.top, inv.sched.ordered.lnk, fun θ busy => ?_⟩
  refine (inv.place busy).imp_right (Or.imp_right ?_)
  rintro ⟨l, waits⟩
  exact ⟨l, waits, inv.awaits θ l waits, inv.waitsFor waits⟩

end Mutexes

end Ams
