import Ams.Rtx.Delay
import Ams.Rtx.Multitasking
import Mathlib.Data.Set.List

/-!
# Threads that wait between their rounds

A thread of the program does one round after another and waits in between: for a time, for signals or
for a message.  The threads run under the kernel with its delay list and its signals, which does to them
what `multitasking` does, but wakes them when it is time (`Rounds.Inv.step`).  A thread sleeps no longer
than its time-out (`Rounds.sleeps_until`), begins its rounds no closer than its delay
(`Rounds.apart`), and does not go to sleep over a signal (`Rounds.signalled`).
-/

namespace Ams

open Function Reactive

/-- What a thread waits for before its next round. -/
inductive Pause where
  /-- `Thread::wait` -/
  | delay (millisec : ℕ)
  /-- `Thread::signal_wait` -/
  | signal (signals : BitVec 16) (millisec : ℕ)
  | message

/-- The time-out in ticks. -/
def Pause.ticks : Pause → ℕ
  | delay millisec => rtMs2tick millisec
  | signal _ millisec => rtMs2tick millisec
  | message => 0xFFFF

/-- The threads of a program with their pauses. -/
structure Tasking (Θ F L : Type*) extends Program Θ F L where
  pause : Θ → Pause
  /-- the thread does not wait before its first round -/
  eager : Θ → Bool
  /-- the signals that a function sets -/
  signals : F → List (Θ × BitVec 16)

structure Rounds (Θ F L : Type*) where
  rtx : Rtx (Option Θ) L
  stack : Θ → List (F × Way F L)
  /-- the thread begins a round when it runs next -/
  due : Θ → Bool

/-- The threads without the pauses. -/
def Rounds.tasks {Θ F L : Type*} (s : Rounds Θ F L) : Multitasking Θ F L := ⟨s.rtx.sched, s.stack⟩

inductive RoundAction (Θ : Type*) where
  /-- the running thread begins a round -/
  | enter (θ : Θ)
  /-- the running thread goes on -/
  | run
  /-- the running thread has done its round -/
  | pause (θ : Θ)
  /-- the running thread signals another -/
  | signal (θ : Θ) (flags : BitVec 16)
  | interrupt (requests : List (PostRequest (Option Θ)))
  | tick
  | create (θ : Θ)
  | setPriority (θ : Θ) (newPrio : ℕ)

section System

variable {Θ F L : Type*} [DecidableEq Θ] [DecidableEq L]

inductive Rounds.Step (P : Tasking Θ F L) (s : Rounds Θ F L) :
    RoundAction Θ → Rounds Θ F L → Prop where
  | enter {θ : Θ} {f : F} {way : Way F L} : s.rtx.sched.run = some θ → s.stack θ = [] →
      s.due θ = true → f ∈ P.loops θ → way ∈ P.body f →
      Step P s (.enter θ)
        { s with stack := update s.stack θ [(f, way)], due := update s.due θ false }
  | run {θ : Θ} {t : Multitasking Θ F L} : s.rtx.sched.run = some θ → s.stack θ ≠ [] →
      Multitasking.Step P.toProgram s.tasks .run t →
      Step P s .run { s with rtx := { s.rtx with sched := t.sched }, stack := t.stack }
  | delay {θ : Θ} {millisec : ℕ} {r : Rtx (Option Θ) L} : s.rtx.sched.run = some θ →
      s.stack θ = [] → s.due θ = false → P.pause θ = .delay millisec →
      s.rtx.svcDelay millisec = some r →
      Step P s (.pause θ) { s with rtx := r, due := update s.due θ true }
  | signalWait {θ : Θ} {signals : BitVec 16} {millisec : ℕ} {r : Rtx (Option Θ) L} {got : Bool} :
      s.rtx.sched.run = some θ → s.stack θ = [] → s.due θ = false →
      P.pause θ = .signal signals millisec → s.rtx.svcSignalWait signals millisec = some (r, got) →
      Step P s (.pause θ) { s with rtx := r, due := update s.due θ true }
  /-- there is a message in the mailbox -/
  | message {θ : Θ} : s.rtx.sched.run = some θ → s.stack θ = [] → s.due θ = false →
      P.pause θ = .message → Step P s (.pause θ) { s with due := update s.due θ true }
  /-- there is none -/
  | empty {θ : Θ} {r : Rtx (Option Θ) L} : s.rtx.sched.run = some θ → s.stack θ = [] →
      s.due θ = false → P.pause θ = .message → s.rtx.block 0xFFFF .waitMbx = some r →
      Step P s (.pause θ) { s with rtx := r, due := update s.due θ true }
  | signal {θ θ' : Θ} {f : F} {rest : Way F L} {fs : List (F × Way F L)} {flags : BitVec 16} :
      s.rtx.sched.run = some θ → s.stack θ = (f, rest) :: fs → (θ', flags) ∈ P.signals f →
      Step P s (.signal θ' flags) { s with rtx := s.rtx.rtEvtSet flags (some θ') }
  | interrupt {r : Rtx (Option Θ) L} (requests : List (PostRequest (Option Θ))) :
      s.rtx.popReq requests = some r → Step P s (.interrupt requests) { s with rtx := r }
  | tick {r : Rtx (Option Θ) L} (robin : Bool) : s.rtx.systick robin = some r →
      Step P s .tick { s with rtx := r }
  | create (θ : Θ) : s.rtx.WaitsIn .inactive (some θ) →
      Step P s (.create θ)
        { s with rtx := { s.rtx with sched := rtDispatch (some θ) s.rtx.sched } }
  | setPriority {k : Scheduler (Option Θ) L} (θ : Θ) (newPrio : ℕ) : 0 < newPrio →
      rtTskPrio (some θ) newPrio s.rtx.sched = some k →
      Step P s (.setPriority θ newPrio) { s with rtx := { s.rtx with sched := k } }

/-- When `main` is entered. -/
def rounds (P : Tasking Θ F L) (main : Θ) (base : Θ → ℕ) : System (Rounds Θ F L) (RoundAction Θ) where
  init s := (multitasking P.toProgram main base).init s.tasks ∧ s.rtx.osTime = 0 ∧
    s.rtx.osDly = [] ∧ (∀ t, s.rtx.waitState t = .inactive) ∧ (∀ t, s.rtx.events t = 0) ∧
    (∀ t, s.rtx.waits t = 0) ∧ s.due = P.eager
  step := Rounds.Step P

end System

/-! ## The pauses -/

namespace Rtx

section PausedBy

variable {T M : Type*} {s s' : Rtx T M} {t : T}

/-- The task waits as the pause says. -/
def PausedBy (t : T) (s : Rtx T M) : Pause → Prop
  | .delay _ => s.waitState t = .waitDly
  | .signal signals _ => s.AwaitsSignals signals t
  | .message => s.waitState t = .waitMbx

theorem Goes.pausedBy {C : WaitState → Prop} {p : Pause} (h : Goes C t s s')
    (down : s'.sched.state t = .waiting) (paused : s.PausedBy t p) : s'.PausedBy t p := by
  cases p with
  | delay => exact (h.asleep down).1.trans paused
  | signal => exact (h.awaitsSignals paused).resolve_left (not_not.2 down)
  | message => exact (h.asleep down).1.trans paused

end PausedBy

section Pauses

variable {T M : Type*} [DecidableEq T] {s s' : Rtx T M} {idle : T} {millisec : ℕ}

/-- The running task falls asleep in its pause. -/
structure Slept (p : Pause) (s s' : Rtx T M) : Prop where
  sched : rtBlock .waiting s.sched = some s'.sched
  asleep : s'.sched.state s.sched.run = .waiting
  created : s'.waitState s.sched.run ≠ .inactive
  paused : s'.PausedBy s.sched.run p
  alarm : p.ticks < 0xFFFF → (s.sched.run, s'.osTime + p.ticks) ∈ s'.alarms
  /-- the signals are not there -/
  wanting : ∀ signals millisec, p = .signal signals millisec →
    ¬ Completes signals (s.events s.sched.run)

/-- The running task sleeps or goes on. -/
structure Pauses (p : Pause) (s s' : Rtx T M) : Prop where
  osTime : s'.osTime = s.osTime
  others : ∀ C u, u ≠ s.sched.run → Goes C u s s'
  result : s'.sched = s.sched ∨ Slept p s s'

theorem Pauses.none (p : Pause) (s : Rtx T M) : Pauses p s s :=
  ⟨rfl, fun _ _ _ => .sched .rfl, .inl rfl⟩

theorem Queued.svcDelay (h : s.Queued) (inv : s.sched.Inv idle)
    (made : s.svcDelay millisec = some s') : s'.Queued ∧ Pauses (.delay millisec) s s' ∧
      (millisec ≠ 0 → Slept (.delay millisec) s s') := by
  unfold Rtx.svcDelay at made
  split_ifs at made with zero
  · obtain rfl := Option.some.inj made
    exact ⟨h, .none _ _, fun pos => absurd zero pos⟩
  · obtain ⟨queued, blocks⟩ := h.block inv (rtMs2tick_pos zero) (fun _ => by decide) made
    have created : s'.waitState s.sched.run ≠ .inactive := by
      rw [blocks.waitState]
      decide
    have slept : Slept (.delay millisec) s s' := ⟨blocks.sched, blocks.asleep, created,
      blocks.waitState, fun fits => blocks.osTime ▸ blocks.alarm fits, nofun⟩
    exact ⟨queued, ⟨blocks.osTime, blocks.others, .inr slept⟩, fun _ => slept⟩

theorem Queued.getMessage (h : s.Queued) (inv : s.sched.Inv idle)
    (made : s.block 0xFFFF .waitMbx = some s') : s'.Queued ∧ Pauses .message s s' := by
  obtain ⟨queued, blocks⟩ := h.block inv (by decide) (by decide) made
  refine ⟨queued, blocks.osTime, blocks.others, .inr ⟨blocks.sched, blocks.asleep, ?_,
    blocks.waitState, fun fits => absurd fits (by decide), nofun⟩⟩
  rw [blocks.waitState]
  decide

/-- The running task waits for signals that are not there. -/
theorem Queued.waitSignals {signals flags : BitVec 16} {w : WaitState} (h : s.Queued)
    (inv : s.sched.Inv idle)
    (made : Rtx.block (rtMs2tick millisec) w { s with waits := update s.waits s.sched.run flags } =
      some s') (timed : w ≠ .inactive ∧ w ≠ .waitMbx)
    (wanting : ¬ Completes signals (s.events s.sched.run))
    (awaits : ∀ s' : Rtx T M, s'.WaitsIn w s.sched.run → s'.waits s.sched.run = flags →
      s'.AwaitsSignals signals s.sched.run) :
    s'.Queued ∧ Pauses (.signal signals millisec) s s' := by
  let s₁ : Rtx T M := { s with waits := update s.waits s.sched.run flags }
  have queued : s₁.Queued := { h with }
  have before (C : WaitState → Prop) (u : T) (ne : u ≠ s.sched.run) : Goes C u s s₁ :=
    ⟨fun up => ⟨up, fun _ full => full⟩, fun _ => ⟨rfl, update_of_ne ne _ _, fun _ => .rfl⟩,
      fun down up => absurd down up⟩
  by_cases zero : rtMs2tick millisec = 0
  · unfold Rtx.block at made
    rw [if_pos zero] at made
    obtain rfl := Option.some.inj made
    exact ⟨queued, rfl, before, .inl rfl⟩
  · obtain ⟨queued', blocks⟩ := queued.block inv zero (fun _ => timed) made
    refine ⟨queued', blocks.osTime, fun C u ne => (before C u ne).trans (blocks.others C u ne),
      .inr ⟨blocks.sched, blocks.asleep, ?_, ?_, fun fits => blocks.osTime ▸ blocks.alarm fits, ?_⟩⟩
    · rw [blocks.waitState]
      exact timed.1
    · refine awaits s' ⟨blocks.asleep, blocks.waitState⟩ ?_
      rw [blocks.waits]
      exact update_self _ _ _
    · rintro signals' millisec' same
      obtain ⟨rfl, rfl⟩ := Pause.signal.inj same
      exact wanting

/-- The running task gets the signals. -/
theorem Queued.getSignals (h : s.Queued) (p : Pause) (e f : BitVec 16) :
    let s' := { s with
      events := update s.events s.sched.run e
      waits := update s.waits s.sched.run f }
    s'.Queued ∧ Pauses p s s' := by
  intro s'
  refine ⟨{ h with }, rfl, fun C u ne => ⟨fun up => ⟨up, fun w full => ?_⟩,
    fun _ => ⟨rfl, update_of_ne ne _ _, fun _ => .rfl⟩, fun down up => absurd down up⟩, .inl rfl⟩
  simpa [s', ne] using full

theorem Queued.svcSignalWait {signals : BitVec 16} {got : Bool} (h : s.Queued)
    (inv : s.sched.Inv idle) (made : s.svcSignalWait signals millisec = some (s', got)) :
    s'.Queued ∧ Pauses (.signal signals millisec) s s' := by
  unfold Rtx.svcSignalWait Rtx.rtEvtWait at made
  simp only [if_true, Bool.false_eq_true, if_false] at made
  split_ifs at made with some all one
  · obtain ⟨rfl, -⟩ := Prod.mk.inj (Option.some.inj made)
    have got := h.getSignals (.signal signals millisec)
      (s.events s.sched.run &&& ~~~signals) (s.waits s.sched.run)
    rwa [update_eq_self] at got
  · obtain ⟨_, blocked, eq⟩ := Option.map_eq_some_iff.1 made
    obtain ⟨rfl, -⟩ := Prod.mk.inj eq
    refine h.waitSignals inv blocked (by decide) ?_ fun r waits flags => ?_
    · unfold Completes
      rwa [if_pos some]
    · unfold AwaitsSignals
      rw [if_pos some]
      exact ⟨waits, flags⟩
  · obtain ⟨rfl, -⟩ := Prod.mk.inj (Option.some.inj made)
    exact h.getSignals _ _ _
  · obtain ⟨_, blocked, eq⟩ := Option.map_eq_some_iff.1 made
    obtain ⟨rfl, -⟩ := Prod.mk.inj eq
    refine h.waitSignals inv blocked (by decide) ?_ fun r waits flags => ?_
    · unfold Completes
      rw [if_neg some]
      rw [not_not] at one
      have all : s.events s.sched.run &&& BitVec.allOnes 16 = 0 := one
      rwa [BitVec.and_allOnes, ← not_ne_iff] at all
    · unfold AwaitsSignals
      rw [if_neg some]
      exact ⟨waits, flags⟩

end Pauses

end Rtx

/-! ## Steps -/

section Steps

variable {Θ F L : Type*} [DecidableEq Θ]

/-- The idle task is not asleep. -/
theorem Multitasking.Inv.idle_awake {s : Multitasking Θ F L} (inv : s.Inv) :
    s.sched.state none ≠ .waiting := by
  rcases inv.sched.idle with running | ready
  · exact running ▸ inv.sched.runs.awake
  · exact inv.sched.placed.awake none ready

/-- The threads that are woken one by one. -/
theorem Multitasking.Inv.exists_threads {s : Multitasking Θ F L} (inv : s.Inv) {woken : List (Option Θ)}
    (asleep : ∀ u ∈ woken, s.sched.state u = .waiting) (distinct : woken.Nodup) :
    ∃ θs : List Θ, woken = θs.map some ∧ θs.Nodup ∧
      ∀ θ ∈ θs, s.sched.state (some θ) = .waiting := by
  obtain ⟨θs, rfl⟩ : woken ∈ Set.range (List.map some) := by
    rw [Set.range_list_map]
    intro u mem
    refine Option.ne_none_iff_exists.1 ?_
    rintro rfl
    exact inv.idle_awake (asleep none mem)
  exact ⟨θs, rfl, distinct.of_map some, fun θ mem => asleep _ (List.mem_map_of_mem mem)⟩

variable [DecidableEq L]

/-- Code wakes nobody and puts nobody to sleep. -/
theorem Multitasking.Step.run_asleep {P : Program Θ F L} {s t : Multitasking Θ F L} {u : Option Θ}
    (inv : s.Inv) (made : Multitasking.Step P s .run t) :
    t.sched.state u = .waiting ↔ s.sched.state u = .waiting := by
  cases made with
  | enter | call | ret => exact .rfl
  | lock _ _ made => exact inv.sched.mutWait_asleep made
  | wait _ _ made => exact inv.sched.mutWait_asleep made
  | unlock _ _ made => exact inv.sched.mutRelease_asleep made

/-- The step sets these signals of the thread. -/
def RoundAction.Sets (θ : Θ) (flags : BitVec 16) : RoundAction Θ → Prop
  | .signal θ' flags' => θ' = θ ∧ flags' = flags
  | .interrupt requests => .signal (some θ) flags ∈ requests
  | _ => False

/-- From these wait states a step wakes the thread. -/
def RoundAction.Wakes (θ : Θ) (w : WaitState) : RoundAction Θ → Prop
  | .tick => w ≠ .inactive ∧ w ≠ .waitMbx
  | .signal θ' _ => θ' = θ ∧ (w = .waitAnd ∨ w = .waitOr)
  | .interrupt requests => Rtx.Rouses requests (some θ) w
  | .create θ' => θ' = θ ∧ w = .inactive
  | _ => False

def RoundAction.elapsed : RoundAction Θ → ℕ
  | .tick => 1
  | _ => 0

namespace Rounds

variable {P : Tasking Θ F L} {s t : Rounds Θ F L} {a : RoundAction Θ} {θ : Θ}

structure Effect (P : Tasking Θ F L) (s : Rounds Θ F L) (a : RoundAction Θ) (t : Rounds Θ F L) :
    Prop where
  queued : t.rtx.Queued
  osTime : t.rtx.osTime = s.rtx.osTime + a.elapsed
  goes : ∀ θ, a ≠ .pause θ → Rtx.Goes (a.Wakes θ) (some θ) s.rtx t.rtx
  /-- The threads without the pauses do one step or none. -/
  tasks : t.tasks = s.tasks ∨ ∃ b, Multitasking.Step P.toProgram s.tasks b t.tasks
  due : ∀ θ, a ≠ .enter θ → a ≠ .pause θ → t.due θ = s.due θ
  /-- The signals are kept for a thread that is awake, and wake one that waits for them. -/
  delivers : ∀ θ flags, a.Sets θ flags → s.rtx.Created (some θ) → ∀ w, Rtx.Completes w flags →
    (s.rtx.sched.state (some θ) ≠ .waiting → Rtx.Completes w (t.rtx.events (some θ))) ∧
      (s.rtx.AwaitsSignals w (some θ) → t.rtx.sched.state (some θ) ≠ .waiting)

theorem Step.enters (made : Step P s (.enter θ) t) :
    s.rtx.sched.run = some θ ∧ s.due θ = true ∧ t.due = update s.due θ false := by
  cases made with
  | enter run idle due => exact ⟨run, due, rfl⟩

/-- A thread sleeps in its pause or goes on. -/
theorem Step.pauses (inv : s.tasks.Inv) (queued : s.rtx.Queued) (made : Step P s (.pause θ) t) :
    s.rtx.sched.run = some θ ∧ s.stack θ = [] ∧ s.due θ = false ∧ t.stack = s.stack ∧
      t.due = update s.due θ true ∧ t.rtx.Queued ∧ Rtx.Pauses (P.pause θ) s.rtx t.rtx := by
  cases made with
  | delay run idle due pause made =>
    obtain ⟨queued', pauses, -⟩ := queued.svcDelay inv.sched made
    exact ⟨run, idle, due, rfl, rfl, queued', pause ▸ pauses⟩
  | signalWait run idle due pause made =>
    exact ⟨run, idle, due, rfl, rfl, pause ▸ queued.svcSignalWait inv.sched made⟩
  | message run idle due pause => exact ⟨run, idle, due, rfl, rfl, queued, .none _ _⟩
  | empty run idle due pause made =>
    exact ⟨run, idle, due, rfl, rfl, pause ▸ queued.getMessage inv.sched made⟩

/-- The others sleep on. -/
theorem Step.effect_pause (inv : s.tasks.Inv) (queued : s.rtx.Queued)
    (made : Step P s (.pause θ) t) : Effect P s (.pause θ) t := by
  obtain ⟨run, idle, -, stack, due, queued', pauses⟩ := made.pauses inv queued
  refine ⟨queued', pauses.osTime, fun θ' ne => pauses.others _ _ ?_, ?_, fun θ' _ ne => ?_,
    fun _ _ sets => sets.elim⟩
  · rw [run]
    rintro same
    exact ne (congrArg _ (Option.some.inj same).symm)
  · unfold tasks
    rw [stack]
    rcases pauses.result with same | slept
    · exact .inl (by rw [same])
    · exact .inr ⟨_, .block run idle slept.sched⟩
  · rw [due]
    refine update_of_ne ?_ _ _
    rintro rfl
    exact ne rfl

/-- The signals are set for a thread that has been created, and wake it if it waits for them. -/
theorem Step.effect_signal {flags : BitVec 16} (inv : s.tasks.Inv) (queued : s.rtx.Queued)
    (made : Step P s (.signal θ flags) t) : Effect P s (.signal θ flags) t := by
  cases made with
  | signal run top signals =>
    unfold Rtx.rtEvtSet
    split_ifs with created
    · obtain ⟨queued', posts⟩ := queued.post rtDispatch flags fun u =>
        Scheduler.dispatch_asleep (t := some θ) inv.sched.runs.awake
      refine ⟨queued', posts.osTime, fun θ' _ => ?_, ?_, fun _ _ _ => rfl, ?_⟩
      · by_cases same : θ' = θ
        · subst same
          exact posts.self.mono fun w waits => ⟨rfl, waits⟩
        · exact posts.others _ _ (mt Option.some.inj same)
      · unfold tasks
        rcases posts.sched with same | ⟨down, woken⟩
        · exact .inl (by rw [same])
        · exact .inr ⟨.dispatch θ, by rw [woken]; exact .dispatch θ down⟩
      · rintro _ _ ⟨rfl, rfl⟩ - w full
        exact ⟨fun up => posts.kept up w full, fun waits => posts.completes w waits full⟩
    · refine ⟨queued, rfl, fun _ _ => .sched .rfl, .inl rfl, fun _ _ _ => rfl, ?_⟩
      rintro _ _ ⟨rfl, rfl⟩ created'
      exact absurd created' created

/-- The new thread leaves the inactive state, and the others sleep on. -/
theorem Step.effect_create (inv : s.tasks.Inv) (queued : s.rtx.Queued)
    (made : Step P s (.create θ) t) : Effect P s (.create θ) t := by
  cases made with
  | create _ waits =>
    have asleep (u : Option Θ) :=
      Scheduler.dispatch_asleep (t := some θ) (u := u) inv.sched.runs.awake
    have out : some θ ∉ s.rtx.osDly.map Prod.fst := fun mem => (queued.timed _ mem).1 waits.2
    refine ⟨queued.wake out fun u ne down => (asleep u).2 ⟨ne, down⟩, rfl, fun θ' _ => ?_,
      .inr ⟨_, .dispatch θ waits.1⟩, fun _ _ _ => rfl, fun _ _ sets => sets.elim⟩
    by_cases same : θ' = θ
    · subst same
      exact ⟨fun up => absurd waits.1 up, fun down => absurd rfl ((asleep _).1 down).1,
        fun _ _ => ⟨rfl, waits.2⟩⟩
    · exact .sched ((asleep _).trans (and_iff_right (mt Option.some.inj same)))

theorem Step.effect (inv : s.tasks.Inv) (queued : s.rtx.Queued) (made : Step P s a t) :
    Effect P s a t := by
  cases a with
  | enter θ =>
    cases made with
    | enter run idle due looped hway =>
      refine ⟨queued, rfl, fun _ _ => .sched .rfl, .inr ⟨_, .enter run idle looped hway⟩,
        fun θ' ne _ => update_of_ne ?_ _ _, fun _ _ sets => sets.elim⟩
      rintro rfl
      exact ne rfl
  | run =>
    cases made with
    | run run busy made =>
      have asleep (u : Option Θ) := made.run_asleep (u := u) inv
      exact ⟨queued.sched fun u => (asleep u).2, rfl, fun _ _ => .sched (asleep _), .inr ⟨_, made⟩,
        fun _ _ _ => rfl, fun _ _ sets => sets.elim⟩
  | pause θ => exact made.effect_pause inv queued
  | signal θ flags => exact made.effect_signal inv queued
  | interrupt requests =>
    cases made with
    | interrupt _ made =>
      obtain ⟨queued', answers, woken, distinct, asleep, switched⟩ := queued.popReq inv.sched made
      obtain ⟨θs, rfl, distinct', asleep'⟩ := inv.exists_threads asleep distinct
      exact ⟨queued', answers.osTime, fun θ _ => answers.goes _,
        .inr ⟨_, .tick false θs distinct' asleep' switched⟩, fun _ _ _ => rfl,
        fun θ flags => answers.delivers _ flags⟩
  | tick =>
    cases made with
    | tick robin made =>
      obtain ⟨queued', ticks⟩ := queued.systick inv.sched made
      obtain ⟨woken, distinct, asleep, switched⟩ := ticks.sched
      obtain ⟨θs, rfl, distinct', asleep'⟩ := inv.exists_threads asleep distinct
      exact ⟨queued', ticks.osTime, fun θ _ => ticks.goes _,
        .inr ⟨_, .tick robin θs distinct' asleep' switched⟩, fun _ _ _ => rfl,
        fun _ _ sets => sets.elim⟩
  | create θ => exact made.effect_create inv queued
  | setPriority θ newPrio =>
    cases made with
    | setPriority _ _ pos made =>
      have asleep (u : Option Θ) := inv.sched.tskPrio_asleep (u := u) made
      exact ⟨queued.sched fun u => (asleep u).2, rfl, fun _ _ => .sched (asleep _),
        .inr ⟨_, .setPriority θ newPrio pos made⟩, fun _ _ _ => rfl, fun _ _ sets => sets.elim⟩

/-! ## Runs -/

structure Inv (P : Tasking Θ F L) (s : Rounds Θ F L) : Prop where
  tasks : s.tasks.Inv
  queued : s.rtx.Queued
  /-- A thread that sleeps does so in its pause, and begins a round when it is woken. -/
  paused : ∀ θ, s.rtx.sched.state (some θ) = .waiting → s.rtx.Created (some θ) →
    s.due θ = true ∧ s.rtx.PausedBy (some θ) (P.pause θ)

variable {main : Θ} {base : Θ → ℕ}

theorem Inv.step (inv : s.Inv P) (made : Step P s a t) (tasks : t.tasks.Inv) : t.Inv P := by
  have effect := made.effect inv.tasks inv.queued
  refine ⟨tasks, effect.queued, fun θ down created => ?_⟩
  by_cases pause : a = .pause θ
  · subst pause
    obtain ⟨run, -, -, -, due, -, pauses⟩ := made.pauses inv.tasks inv.queued
    rcases pauses.result with same | slept
    · rw [same] at down
      exact absurd run.symm (inv.tasks.sched.runs.ne_of_asleep down)
    · exact ⟨by simp [due], run ▸ slept.paused⟩
  · have goes := effect.goes θ pause
    have down' : s.rtx.sched.state (some θ) = .waiting :=
      not_not.1 fun up => (goes.awake up).1 down
    obtain ⟨waitState, waits, -⟩ := goes.asleep down
    have created' : s.rtx.Created (some θ) :=
      .inr (waitState ▸ created.resolve_left (not_not.2 down))
    obtain ⟨due, paused⟩ := inv.paused θ down' created'
    have enter : a ≠ .enter θ := by
      rintro rfl
      exact inv.tasks.sched.runs.ne_of_asleep down' made.enters.1.symm
    exact ⟨(effect.due θ enter pause).trans due, goes.pausedBy down paused⟩

theorem rounds_inv (h : (rounds P main base).Reachable s) :
    (multitasking P.toProgram main base).Reachable s.tasks ∧ s.Inv P := by
  refine h.invariant (I := fun s => (multitasking P.toProgram main base).Reachable s.tasks ∧ s.Inv P)
    ?_ ?_
  · rintro s ⟨tasks, -, osDly, waitState, -, -, -⟩
    have reach := (System.Execution.init tasks).reachable
    refine ⟨reach, (multitasking_inv reach).1, ?_, fun θ down created => ?_⟩
    · refine ⟨?_, ?_, ?_, ?_, ?_⟩ <;> simp [osDly, DeltaList.Ahead, Rtx.alarms]
    · exact absurd (waitState (some θ)) (created.resolve_left (not_not.2 down))
  · rintro s a t ⟨reach, inv⟩ made
    have reach' : (multitasking P.toProgram main base).Reachable t.tasks := by
      rcases (made.effect inv.tasks inv.queued).tasks with same | ⟨b, step⟩
      · exact same ▸ reach
      · exact reach.step step
    exact ⟨reach', inv.step made (multitasking_inv reach').1⟩

/-- The thread sleeps. -/
def Sleeps (θ : Θ) (s : Rounds Θ F L) : Prop := s.rtx.sched.state (some θ) = .waiting

theorem Inv.not_sleeps_of_pause (inv : s.Inv P) (made : Step P s (.pause θ) t) : ¬ s.Sleeps θ := by
  obtain ⟨run, -⟩ := made.pauses inv.tasks inv.queued
  exact fun down => inv.tasks.sched.runs.ne_of_asleep down run.symm

/-! ### Alarms -/

/-- The alarm of a thread that sleeps on is left alone. -/
theorem Inv.alarm (inv : s.Inv P) (made : Step P s a t) (sleeps : t.Sleeps θ) {d : ℕ}
    (alarm : (some θ, d) ∈ s.rtx.alarms) : (some θ, d) ∈ t.rtx.alarms := by
  have pause : a ≠ .pause θ := by
    rintro rfl
    exact inv.not_sleeps_of_pause made (inv.queued.asleep _ (DeltaList.mem_of_mem_deadlines alarm))
  exact (((made.effect inv.tasks inv.queued).goes θ pause).asleep sleeps).2.2 d |>.2 alarm

/-- A thread that falls asleep with a time-out has an alarm. -/
theorem Inv.falls (inv : s.Inv P) (made : Step P s (.pause θ) t) (sleeps : t.Sleeps θ)
    (timed : (P.pause θ).ticks < 0xFFFF) :
    (some θ, t.rtx.osTime + (P.pause θ).ticks) ∈ t.rtx.alarms := by
  obtain ⟨run, -, -, -, -, -, pauses⟩ := made.pauses inv.tasks inv.queued
  rcases pauses.result with same | slept
  · unfold Sleeps at sleeps
    rw [same] at sleeps
    exact absurd sleeps (inv.not_sleeps_of_pause made)
  · exact run ▸ slept.alarm timed

/-- The alarm wakes the thread at its instant, and before that only signals do. -/
theorem Inv.wakes (inv : s.Inv P) {d : ℕ} (alarm : (some θ, d) ∈ s.rtx.alarms) : s.rtx.osTime < d ∧
      (∀ t, Step P s .tick t → (t.Sleeps θ ↔ t.rtx.osTime ≠ d)) ∧
      ∀ a t, Step P s a t → a ≠ .tick → ¬ t.Sleeps θ →
        ∃ flags, a.Sets θ flags := by
  have queued := DeltaList.mem_of_mem_deadlines alarm
  have down := inv.queued.asleep _ queued
  refine ⟨inv.queued.ahead.lt_of_mem alarm, fun t made => ?_, fun a t made other up => ?_⟩
  · cases made with
    | tick robin made =>
      obtain ⟨-, ticks⟩ := inv.queued.systick inv.tasks.sched made
      unfold Sleeps
      rw [ticks.wakes, and_iff_right down, ticks.osTime, not_iff_not]
      refine ⟨fun now => DeltaList.deadline_unique inv.queued.nodup now alarm, ?_⟩
      rintro rfl
      exact alarm
  · have pause : a ≠ .pause θ := by
      rintro rfl
      exact inv.not_sleeps_of_pause made down
    have wakes := ((made.effect inv.tasks inv.queued).goes θ pause).woken down up
    -- a message wakes only a thread that waits without a time-out
    have timed' : s.rtx.waitState (some θ) ≠ .waitMbx := (inv.queued.timed _ queued).2
    cases a with
    | tick => exact absurd rfl other
    | signal θ' flags => exact ⟨flags, wakes.1, rfl⟩
    | interrupt requests =>
      obtain ⟨⟨flags, mem⟩, -⟩ := wakes.resolve_left timed'
      exact ⟨flags, mem⟩
    | create => exact absurd wakes.2 (inv.queued.timed _ queued).1
    | enter | run | pause | setPriority => exact wakes.elim

variable {pre mid : List (Transition (Rounds Θ F L) (RoundAction Θ))}
  {τ υ : Transition (Rounds Θ F L) (RoundAction Θ)}

/-- A thread that falls asleep with a time-out sleeps until it is over or until signals wake it: it
sleeps for less than its time-out, a tick wakes it if and only if its time-out is over, and no other step
wakes it but with a signal that it waits for. -/
theorem sleeps_until (exec : (rounds P main base).Execution (pre ++ τ :: mid) s)
    (falls : τ.label = .pause θ) (asleep : ∀ υ ∈ τ :: mid, υ.dst.Sleeps θ)
    (timed : (P.pause θ).ticks < 0xFFFF) :
    s.rtx.osTime < τ.dst.rtx.osTime + (P.pause θ).ticks ∧
      (∀ t, Step P s .tick t →
        (t.Sleeps θ ↔ t.rtx.osTime ≠ τ.dst.rtx.osTime + (P.pause θ).ticks)) ∧
      ∀ a t, Step P s a t → a ≠ .tick → ¬ t.Sleeps θ →
        ∃ flags, a.Sets θ flags := by
  obtain ⟨before, made, after⟩ := exec.cut
  have first : τ.dst.Sleeps θ := asleep τ List.mem_cons_self
  have reach : (rounds P main base).Reachable τ.dst := before.reachable.step made
  rw [falls] at made
  obtain ⟨reach', alarm⟩ := after.invariant_of
    (I := fun r => (rounds P main base).Reachable r ∧
      (some θ, τ.dst.rtx.osTime + (P.pause θ).ticks) ∈ r.rtx.alarms)
    (P := fun υ => υ.dst.Sleeps θ)
    (fun r a r' ⟨reach, alarm⟩ made sleeps =>
      ⟨reach.step made, (rounds_inv reach).2.alarm made sleeps alarm⟩)
    (fun υ mem => asleep υ (List.mem_cons_of_mem τ mem))
    ⟨reach, (rounds_inv before.reachable).2.falls made first timed⟩
  exact (rounds_inv reach').2.wakes alarm

/-! ### Delays -/

/-- A thread with a delay sleeps in every pause. -/
theorem Inv.delays {millisec : ℕ} (inv : s.Inv P) (made : Step P s (.pause θ) t)
    (delay : P.pause θ = .delay millisec) (pos : millisec ≠ 0) : t.Sleeps θ := by
  cases made with
  | delay run idle due pause made =>
    obtain rfl := Pause.delay.inj (delay.symm.trans pause)
    obtain ⟨-, -, slept⟩ := inv.queued.svcDelay inv.tasks.sched made
    have asleep := (slept pos).asleep
    rwa [run] at asleep
  | signalWait run idle due pause | message run idle due pause | empty run idle due pause =>
    rw [delay] at pause
    cases pause

/-- Only a tick wakes a thread from its delay. -/
theorem Inv.tick_of_wakes {millisec : ℕ} (inv : s.Inv P) (made : Step P s a t)
    (delay : P.pause θ = .delay millisec) (created : s.rtx.Created (some θ)) (down : s.Sleeps θ)
    (up : ¬ t.Sleeps θ) : a = .tick := by
  have pause : a ≠ .pause θ := by
    rintro rfl
    exact inv.not_sleeps_of_pause made down
  have wakes := ((made.effect inv.tasks inv.queued).goes θ pause).woken down up
  obtain ⟨-, paused⟩ := inv.paused θ down created
  rw [delay] at paused
  rw [paused] at wakes
  cases a with
  | tick => rfl
  | signal => rcases wakes with ⟨-, wakes | wakes⟩ <;> cases wakes
  | interrupt => rcases wakes with wakes | ⟨-, wakes | wakes⟩ <;> cases wakes
  | create => cases wakes.2
  | enter | run | pause | setPriority => exact wakes.elim

/-- A round may begin at the instant, not before. -/
structure Apart (θ : Θ) (instant : ℕ) (s : Rounds Θ F L) : Prop where
  asleep : s.due θ = true → s.Sleeps θ → s.rtx.Created (some θ) ∧
    ∃ d, (some θ, d) ∈ s.rtx.alarms ∧ instant ≤ d
  awake : s.due θ = true → ¬ s.Sleeps θ → instant ≤ s.rtx.osTime

theorem Apart.step {millisec now : ℕ} (h : s.Apart θ (now + rtMs2tick millisec)) (inv : s.Inv P)
    (made : Step P s a t) (le : now ≤ s.rtx.osTime) (delay : P.pause θ = .delay millisec)
    (pos : millisec ≠ 0) (fits : rtMs2tick millisec < 0xFFFF) :
    t.Apart θ (now + rtMs2tick millisec) := by
  have effect := made.effect inv.tasks inv.queued
  by_cases enter : a = .enter θ
  · subst enter
    obtain ⟨-, -, due⟩ := made.enters
    constructor <;> simp [due]
  by_cases pause : a = .pause θ
  · subst pause
    have sleeps := inv.delays made delay pos
    have ticks : (P.pause θ).ticks = rtMs2tick millisec := by rw [delay]; rfl
    have alarm := inv.falls made sleeps (ticks ▸ fits)
    refine ⟨fun _ _ => ⟨.inr ?_, _, alarm, ?_⟩, fun _ up => absurd sleeps up⟩
    · exact (effect.queued.timed _ (DeltaList.mem_of_mem_deadlines alarm)).1
    · rw [ticks, effect.osTime]
      omega
  · have goes := effect.goes θ pause
    have same := effect.due θ enter pause
    refine ⟨fun due sleeps => ?_, fun due up => ?_⟩
    · have down : s.Sleeps θ := not_not.1 fun up => (goes.awake up).1 sleeps
      obtain ⟨created, d, alarm, le'⟩ := h.asleep (same ▸ due) down
      exact ⟨goes.created created, d, inv.alarm made sleeps alarm, le'⟩
    · by_cases down : s.Sleeps θ
      · obtain ⟨created, d, alarm, le'⟩ := h.asleep (same ▸ due) down
        obtain rfl := inv.tick_of_wakes made delay created down up
        have now : t.rtx.osTime = d := not_not.1 (mt ((inv.wakes alarm).2.1 t made).2 up)
        omega
      · have before := h.awake (same ▸ due) down
        have later := effect.osTime
        omega

/-- Two rounds of a thread with a delay begin at least the delay apart. -/
theorem apart {post : List (Transition (Rounds Θ F L) (RoundAction Θ))} {millisec : ℕ}
    (exec : (rounds P main base).Execution (pre ++ τ :: (mid ++ υ :: post)) s)
    (first : τ.label = .enter θ) (second : υ.label = .enter θ)
    (delay : P.pause θ = .delay millisec) (pos : millisec ≠ 0) (fits : rtMs2tick millisec < 0xFFFF) :
    τ.src.rtx.osTime + rtMs2tick millisec ≤ υ.src.rtx.osTime := by
  obtain ⟨before, made, after⟩ := exec.cut
  obtain ⟨between, made', -⟩ := after.cut
  have inv := (rounds_inv before.reachable).2
  have effect := made.effect inv.tasks inv.queued
  have reach := before.reachable.step made
  rw [first] at made
  rw [second] at made'
  have start : τ.dst.Apart θ (τ.src.rtx.osTime + rtMs2tick millisec) := by
    obtain ⟨-, -, due⟩ := made.enters
    constructor <;> simp [due]
  obtain ⟨reach', -, apart⟩ := between.invariant
    (I := fun r => (rounds P main base).Reachable r ∧ τ.src.rtx.osTime ≤ r.rtx.osTime ∧
      r.Apart θ (τ.src.rtx.osTime + rtMs2tick millisec))
    (fun r a r' ⟨reach, le, apart⟩ made => by
      have inv := (rounds_inv reach).2
      have later := (made.effect inv.tasks inv.queued).osTime
      exact ⟨reach.step made, by omega, apart.step inv made le delay pos fits⟩)
    ⟨reach, by rw [effect.osTime]; exact Nat.le_add_right _ _, start⟩
  obtain ⟨run, due, -⟩ := made'.enters
  refine apart.awake due fun down => ?_
  exact (rounds_inv reach').2.tasks.sched.runs.ne_of_asleep down run.symm

/-! ### Signals -/

/-- The thread does not sleep over the signals it waits for. -/
def Alert (θ : Θ) (signals : BitVec 16) (s : Rounds Θ F L) : Prop :=
  ¬ s.Sleeps θ ∧ (s.due θ = true ∨ Rtx.Completes signals (s.rtx.events (some θ)))

theorem Alert.step {signals : BitVec 16} {millisec : ℕ} (h : s.Alert θ signals) (inv : s.Inv P)
    (made : Step P s a t) (pauses : P.pause θ = .signal signals millisec) (enter : a ≠ .enter θ) :
    t.Alert θ signals := by
  have effect := made.effect inv.tasks inv.queued
  obtain ⟨up, alert⟩ := h
  by_cases pause : a = .pause θ
  · subst pause
    obtain ⟨run, -, idle, -, due, -, result⟩ := made.pauses inv.tasks inv.queued
    refine ⟨?_, .inl (by simp [due])⟩
    rcases result.result with same | slept
    · unfold Sleeps
      rwa [same]
    · have there := alert.resolve_left (by simp [idle])
      exact absurd (run ▸ there) (slept.wanting signals millisec pauses)
  · obtain ⟨up', kept⟩ := (effect.goes θ pause).awake up
    exact ⟨up', alert.imp (effect.due θ enter pause).trans (kept signals)⟩

/-- Signals that the thread waits for wake it, or are kept for it. -/
theorem Inv.alert {signals flags : BitVec 16} {millisec : ℕ} (inv : s.Inv P) (made : Step P s a t)
    (pauses : P.pause θ = .signal signals millisec) (created : s.rtx.Created (some θ))
    (sets : a.Sets θ flags) (completes : Rtx.Completes signals flags) : t.Alert θ signals := by
  have effect := made.effect inv.tasks inv.queued
  obtain ⟨kept, woken⟩ := effect.delivers θ flags sets created signals completes
  have enter : a ≠ .enter θ := by rintro rfl; exact sets
  have pause : a ≠ .pause θ := by rintro rfl; exact sets
  by_cases down : s.Sleeps θ
  · obtain ⟨due, paused⟩ := inv.paused θ down created
    rw [pauses] at paused
    exact ⟨woken paused, .inl ((effect.due θ enter pause).trans due)⟩
  · exact ⟨((effect.goes θ pause).awake down).1, .inr (kept down)⟩

/-- A thread does not go to sleep over signals that it waits for: it begins a round before. -/
theorem signalled {post : List (Transition (Rounds Θ F L) (RoundAction Θ))}
    {signals flags : BitVec 16} {millisec : ℕ}
    (exec : (rounds P main base).Execution (pre ++ τ :: (mid ++ υ :: post)) s)
    (pauses : P.pause θ = .signal signals millisec) (created : τ.src.rtx.Created (some θ))
    (sets : τ.label.Sets θ flags) (completes : Rtx.Completes signals flags)
    (falls : υ.label = .pause θ) (sleeps : υ.dst.Sleeps θ) : ∃ κ ∈ mid, κ.label = .enter θ := by
  obtain ⟨before, made, after⟩ := exec.cut
  obtain ⟨between, made', -⟩ := after.cut
  by_contra none
  obtain ⟨reach, alert⟩ := between.invariant_of
    (I := fun r => (rounds P main base).Reachable r ∧ r.Alert θ signals)
    (P := fun κ => κ.label ≠ .enter θ)
    (fun r a r' ⟨reach, alert⟩ made enter =>
      ⟨reach.step made, alert.step (rounds_inv reach).2 made pauses enter⟩)
    (fun κ mem enter => none ⟨κ, mem, enter⟩)
    ⟨before.reachable.step made,
      (rounds_inv before.reachable).2.alert made pauses created sets completes⟩
  have alert' := alert.step (rounds_inv reach).2 made' pauses (by rw [falls]; nofun)
  exact alert'.1 sleeps

/-! ### The passing of time -/

/-- A run goes on until just before the first time-out is over. -/
theorem elapse {t : Option Θ} {d n : ℕ} {rest : DeltaList (Option Θ)}
    (exec : (rounds P main base).Execution (pre ++ τ :: mid) s)
    (running : s.rtx.sched.state s.rtx.sched.run = .running)
    (first : s.rtx.osDly = (t, d) :: rest) (later : n < d) :
    ∃ ticks, (rounds P main base).Execution (pre ++ τ :: (mid ++ ticks)) { s with
        rtx := { s.rtx with osTime := s.rtx.osTime + n, osDly := (t, d - n) :: rest } } ∧
      ∀ υ ∈ ticks, υ.dst.rtx.sched = s.rtx.sched := by
  induction n with
  | zero =>
    refine ⟨[], ?_, by simp⟩
    rw [Nat.sub_zero, ← first, List.append_nil]
    exact exec
  | succ n ih =>
    obtain ⟨ticks, before, same⟩ := ih (Nat.lt_of_succ_lt later)
    have left : 1 < d - n := by omega
    have ticked := before.snoc_after (.tick false (Rtx.systick_of_later running rfl left))
    rw [List.append_assoc] at ticked
    refine ⟨_, ticked, fun υ mem => ?_⟩
    rcases List.mem_append.1 mem with mem | mem
    · exact same υ mem
    · rw [List.mem_singleton.1 mem]

end Rounds

end Steps

end Ams
