import Ams.Contactor.Monitoring
import Ams.Rtx.TimerRuns
import Ams.Tractive.Pairing

/-!
# The minimum precharge time over the kernel's timers

The operations of the running tasks, effect by effect, over the timer service of the kernel.  Ticks
come at any time, also within an operation, and the timer thread calls the callback of an expired
timer some time after its expiry, even if the timer has been stopped or started again meanwhile.  The
precharge lasts for the minimum time in every run in which no precharge begins while a callback of
`precharge_timer` is still to be called.
-/

namespace Ams

open Reactive ContactorController

/-- The timers of the program. -/
inductive UserTimer where
  | prechargeTimer
  | prechargeErrorTimer
  | runErrorTimer
  deriving DecidableEq, Repr

/-- The error timer of a coil. -/
def Coil.errorTimer : Coil → UserTimer
  | .precharge => .prechargeErrorTimer
  | .run => .runErrorTimer

/-- The calls of the timer service. -/
def Effect.perform : Effect → TimerService UserTimer → TimerService UserTimer
  | .prechargeTimerStart millisec, timers =>
    (svcTimerStart .prechargeTimer (.ofNat millisec) timers).2
  | .prechargeTimerStop, timers => (svcTimerStop .prechargeTimer timers).2
  | .errorTimerStart k millisec, timers => (svcTimerStart k.errorTimer (.ofNat millisec) timers).2
  | _, timers => timers

/-- An operation is under way as long as some of its effects are still to come. -/
structure Kernel where
  /-- what the operation leaves -/
  world : World
  rest : List Effect
  timers : TimerService UserTimer
  /-- ticks -/
  now : ℕ
  /-- the effects so far, with their instants -/
  history : List (ℕ × Effect)

inductive KernelAction where
  | call (c : Call)
  /-- the next effect of the operation -/
  | effect
  | tick
  /-- the timer thread gets a message, or waits for one -/
  | get
  | prechargeTimerFire
  | toggleCb (k : Coil) (pins : Feedback)

namespace Kernel

/-- The operation is still to clear the flag of `k`. -/
def clears (s : Kernel) (k : Coil) : Bool :=
  s.rest.any fun e => match e with
    | .errorTimerStart k' _ => k' = k
    | _ => false

/-- The timer thread has called the callback. -/
def called (s : Kernel) : Kernel := { s with timers := { s.timers with thread := .calling } }

end Kernel

inductive KernelStep : Kernel → KernelAction → Kernel → Prop where
  | call {s : Kernel} {c : Call} {w : World} : s.rest = [] → c.afterBoot = true →
      c ≠ .prechargeTimerFire → c.Step s.world w →
      KernelStep s (.call c) { s with world := w, rest := w.trace }
  | effect {s : Kernel} {e : Effect} {rest : List Effect} : s.rest = e :: rest →
      KernelStep s .effect { s with
        rest := rest
        timers := e.perform s.timers
        history := s.history ++ [(s.now, e)] }
  | tick {s : Kernel} {timers : TimerService UserTimer} : sysTimerTick s.timers = some timers →
      KernelStep s .tick { s with timers := timers, now := s.now + 1 }
  | get {s : Kernel} : s.timers.thread = .calling →
      KernelStep s .get { s with timers := osMessageGet s.timers }
  | prechargeTimerFire {s : Kernel} {w : World} : s.timers.thread = .got .prechargeTimer →
      s.rest = [] → Call.prechargeTimerFire.Step s.world w →
      KernelStep s .prechargeTimerFire { s.called with world := w, rest := w.trace }
  | toggleCb {s : Kernel} (k : Coil) (pins : Feedback) : s.timers.thread = .got k.errorTimer →
      KernelStep s (.toggleCb k pins) { s.called with
        -- the operation clears the flag after the callback has set it
        world := if s.clears k then s.world else toggleCb k pins s.world }

/-- The operations after the start-up, with the timers created and none of them started. -/
def kernel : System Kernel KernelAction where
  init s := Booted s.world ∧ s.rest = [] ∧ s.history = [] ∧ s.timers.osTimerHead = [] ∧
    (∀ pt, (s.timers.cb pt).state = .osTimerStopped ∧ (s.timers.cb pt).type = .osTimerOnce) ∧
    s.timers.messages = []
  step := KernelStep

/-! ## The precharge timer -/

/-- The precharge timer of the kernel and the one-shot timer `o`: an expiry at hand is that of the
pending start, and a pending start that has expired has its callback still to be called. -/
structure Serves (o : OneShot ℕ) (now : ℕ) (timers : TimerService UserTimer) : Prop where
  inv : timers.Inv
  settled : timers.Settled .prechargeTimer
  created : (timers.cb .prechargeTimer).state ≠ .osTimerInvalid
  armed : ∀ u, (.prechargeTimer, u) ∈ timers.deadlines now →
    ∃ start delay, o.pending = some (start, delay) ∧ start + delay = u
  expired : ∀ start delay, o.pending = some (start, delay) →
    (timers.cb .prechargeTimer).state ≠ .osTimerRunning →
      .prechargeTimer ∈ timers.messages ∧ start + delay ≤ now

section Serves

variable {o : OneShot ℕ} {now : ℕ} {timers timers' : TimerService UserTimer} {e : Effect}

/-- Steps that leave the precharge timer alone. -/
theorem Serves.congr (serves : Serves o now timers) (inv : timers'.Inv)
    (settled : timers'.Settled .prechargeTimer)
    (cb : timers'.cb .prechargeTimer = timers.cb .prechargeTimer)
    (deadlines : ∀ u, (.prechargeTimer, u) ∈ timers'.deadlines now →
      (.prechargeTimer, u) ∈ timers.deadlines now)
    (messages : .prechargeTimer ∈ timers.messages → .prechargeTimer ∈ timers'.messages) :
    Serves o now timers' where
  inv := inv
  settled := settled
  created := cb ▸ serves.created
  armed u hu := serves.armed u (deadlines u hu)
  expired start delay pending idle := by
    rw [cb] at idle
    obtain ⟨mem, le⟩ := serves.expired start delay pending idle
    exact ⟨messages mem, le⟩

theorem Serves.tick (serves : Serves o now timers) (made : sysTimerTick timers = some timers') :
    Serves o (now + 1) timers' := by
  obtain ⟨ps, tick⟩ := ticked serves.inv made now
  have once := serves.settled.once
  refine ⟨tick.inv, tick.settled serves.inv serves.settled, ?_, fun u hu => ?_,
    fun start delay pending idle => ?_⟩
  · rw [tick.cb]
    split_ifs
    · nofun
    · exact serves.created
  · rcases (tick.deadlines _ u).1 hu with ⟨mem, -⟩ | ⟨-, periodic, -⟩
    · exact serves.armed u mem
    · rw [once] at periodic
      cases periodic
  · rw [tick.messages, List.mem_append]
    by_cases due : .prechargeTimer ∈ ps
    · obtain ⟨start', delay', pending', sum⟩ := serves.armed _ ((tick.due _).1 due)
      obtain ⟨rfl, rfl⟩ : start' = start ∧ delay' = delay := by simpa [pending] using pending'.symm
      exact ⟨.inr due, sum.le⟩
    · rw [tick.cb, if_neg (fun h => due h.1)] at idle
      obtain ⟨mem, le⟩ := serves.expired start delay pending idle
      exact ⟨.inl mem, by omega⟩

theorem Serves.get (serves : Serves o now timers) (calling : timers.thread = .calling) :
    Serves o now (osMessageGet timers) := by
  obtain ⟨cb, head⟩ := osMessageGet_timers timers
  refine serves.congr serves.inv.get
    (TimerStep.settled (TimerStep.get calling) serves.inv serves.settled trivial) (by rw [cb])
    (fun u hu => ?_) fun mem => (osMessageGet_messages calling).symm ▸ mem
  rwa [TimerService.deadlines, head] at hu

/-- The callback of another timer. -/
theorem Serves.call {pt : UserTimer} (serves : Serves o now timers) (got : timers.thread = .got pt)
    (other : pt ≠ .prechargeTimer) : Serves o now { timers with thread := .calling } := by
  refine serves.congr serves.inv.call
    (TimerStep.settled (TimerStep.call got) serves.inv serves.settled trivial) rfl (fun u hu => hu)
    fun mem => ?_
  rw [messages_of_got got] at mem
  exact (List.mem_cons.1 mem).resolve_left other.symm

/-- The callback of the precharge timer leaves it idle. -/
theorem Serves.fire (serves : Serves o now timers)
    (got : timers.thread = .got .prechargeTimer) :
    Serves .idle now { timers with thread := .calling } where
  inv := serves.inv.call
  settled := TimerStep.settled (TimerStep.call got) serves.inv serves.settled trivial
  created := serves.created
  armed u hu := by
    have running := serves.inv.running_of_mem hu
    exact absurd running (serves.settled.stopped (by simp [messages_of_got got]))
  expired start delay pending := by cases pending

theorem Serves.start {millisec : ℕ} (serves : Serves o now timers) (pos : 0 < millisec)
    (fits : millisec < UInt32.size) (patient : .prechargeTimer ∉ timers.messages) :
    Serves ⟨some (now, millisec)⟩ now (Effect.perform (.prechargeTimerStart millisec) timers) := by
  have toNat : (UInt32.ofNat millisec).toNat = millisec := UInt32.toNat_ofNat_of_lt' fits
  rcases svcTimerStart_cases serves.inv .prechargeTimer (.ofNat millisec) with
    ⟨t, eq, rearmed, running, -⟩ | ⟨e, -, -, zero | invalid⟩
  · rw [Effect.perform, eq]
    refine ⟨rearmed.inv, rearmed.settled serves.settled fun _ _ => patient, by rw [running]; nofun,
      fun u hu => ?_, fun _ _ _ idle => absurd running idle⟩
    rcases (rearmed.deadlines now _ u).1 hu with ⟨-, d, hd, rfl⟩ | ⟨ne, -⟩
    · cases hd
      exact ⟨_, _, rfl, by rw [toNat]⟩
    · exact absurd rfl ne
  · rw [zero] at toNat
    exact absurd toNat pos.ne
  · exact absurd invalid serves.created

theorem Serves.stop (serves : Serves o now timers) :
    Serves .idle now (Effect.prechargeTimerStop.perform timers) := by
  rcases svcTimerStop_cases serves.inv .prechargeTimer with
    ⟨t, eq, rearmed, stopped, -⟩ | ⟨e, -, eq, idle⟩
  · rw [Effect.perform, eq]
    refine ⟨rearmed.inv, rearmed.settled serves.settled (absurd rfl),
      by rw [stopped]; nofun, fun u hu => ?_, fun _ _ pending => by cases pending⟩
    rcases (rearmed.deadlines now _ u).1 hu with ⟨-, d, hd, -⟩ | ⟨ne, -⟩
    · cases hd
    · exact absurd rfl ne
  · rw [Effect.perform, eq]
    exact ⟨serves.inv, serves.settled, serves.created,
      fun u hu => absurd (serves.inv.running_of_mem hu) idle, fun _ _ pending => by cases pending⟩

/-- The start of another timer. -/
theorem Serves.startOther {pt : UserTimer} (serves : Serves o now timers) (millisec : UInt32)
    (other : pt ≠ .prechargeTimer) : Serves o now (svcTimerStart pt millisec timers).2 := by
  rcases svcTimerStart_cases serves.inv pt millisec with ⟨t, eq, rearmed, -⟩ | ⟨e, -, eq, -⟩ <;>
    rw [eq]
  · refine serves.congr rearmed.inv (rearmed.settled serves.settled fun _ same => absurd same other)
      (rearmed.others _ other.symm) (fun u hu => ?_) fun mem => rearmed.messages.symm ▸ mem
    exact ((rearmed.deadlines now _ u).1 hu).elim (fun h => absurd h.1.symm other) And.right
  · exact serves

/-- A start or a stop of the one-shot timer. -/
theorem Serves.effect (serves : Serves o now timers)
    (delays : ∀ millisec, e = .prechargeTimerStart millisec →
      millisec = prechargeMinimumTimeMillisec)
    (patient : ∀ millisec, e = .prechargeTimerStart millisec →
      .prechargeTimer ∉ timers.messages) :
    Serves (o.advance Effect.timerCommand [(now, e)]) now (e.perform timers) := by
  cases e with
  | prechargeTimerStart millisec =>
    obtain rfl := delays millisec rfl
    exact serves.start (by decide) (by decide) (patient _ rfl)
  | prechargeTimerStop => exact serves.stop
  | errorTimerStart k millisec => exact serves.startOther _ (by cases k <;> decide)
  | coilWrite | stateWrite | eventNotified | signalSet => exact serves

end Serves

/-! ## Operations -/

theorem start_not_mem_syncEffects {precharge run : Bool} {c : ContactorState} {millisec : ℕ} :
    .prechargeTimerStart millisec ∉ syncEffects precharge run c := fun h => by
  cases timerLevel_syncEffects precharge run c _ h

theorem start_not_mem_openEffects {c : ContactorState} {s : StateControllerState} {millisec : ℕ} :
    .prechargeTimerStart millisec ∉ openEffects c s := by
  simp [openEffects, start_not_mem_syncEffects]

/-- The precharge timer is only ever started with the minimum time. -/
theorem Phase.delay_of_mem_effects {p : Phase} {st : Stimulus} {millisec : ℕ}
    (h : .prechargeTimerStart millisec ∈ p.effects st) :
    millisec = prechargeMinimumTimeMillisec := by
  cases st with
  | sample pins enable =>
    cases p with
    | latched => cases h
    | precharged =>
      simp only [effects, sampleEffects] at h
      split_ifs at h <;>
        simp [runEffects, refusedRunEffects, start_not_mem_syncEffects,
          start_not_mem_openEffects] at h
    | waiting | armed | precharging | ready | stranded =>
      simp only [effects, sampleEffects] at h
      split at h <;>
        simp_all [prechargeEffects, start_not_mem_syncEffects, start_not_mem_openEffects]
  | event ev =>
    simp only [effects] at h
    split_ifs at h <;> simp [start_not_mem_openEffects] at h
  | expiry =>
    simp only [effects] at h
    split_ifs at h <;> simp at h
  | quiet => cases h

theorem Timed.Inv.elapse {a : Timed ℕ} {p : Phase} {later : ℕ} (inv : a.Inv p)
    (le : a.now ≤ later) : Timed.Inv p { a with now := later } := by
  refine ⟨inv.shows_phase, inv.level, inv.precharging, fun hp => ?_, inv.closed⟩
  obtain ⟨t₀, since, before⟩ := inv.precharged hp
  exact ⟨t₀, since, le_trans before le⟩

theorem RunAfterMinimumTime.of_append {h h' : List (ℕ × Effect)}
    (closed : RunAfterMinimumTime (h ++ h')) : RunAfterMinimumTime h := fun pre t post split low =>
  closed pre t (post ++ h') (by rw [split, List.append_assoc, List.cons_append]) low

/-- What the history says when an operation is over, and what is left to do of one under way.  The
timed state `a` lags behind until then. -/
inductive Kernel.Inv (s : Kernel) : Prop where
  | idle {a : Timed ℕ} {p : Phase} : s.rest = [] → a.Inv p → p.Shows s.world →
      s.history = a.history → a.now = s.now → Serves a.timer s.now s.timers → Inv s
  | busy {a : Timed ℕ} {p q : Phase} {st : Stimulus} {timer : OneShot ℕ} {es : List (ℕ × Effect)} :
      s.rest ≠ [] → q.Shows s.world → es.map Prod.snd ++ s.rest = p.effects st →
      (∀ w later es', q.Shows w → es'.map Prod.snd = p.effects st → Between a.now later es' →
        ({ a with timer := timer }.after w later es').Inv q) →
      Between a.now s.now es → s.history = a.history ++ es →
      Serves (timer.advance Effect.timerCommand es) s.now s.timers → Inv s

section Operations

variable {s t : Kernel} {a : Timed ℕ} {p q : Phase} {st : Stimulus} {timer : OneShot ℕ}
  {es : List (ℕ × Effect)} {w : World}

/-- Maybe the operation is over. -/
theorem Kernel.Inv.of_under_way (es : List (ℕ × Effect)) (timer : OneShot ℕ) (shown : q.Shows s.world)
    (parts : es.map Prod.snd ++ s.rest = p.effects st)
    (finish : ∀ w later es', q.Shows w → es'.map Prod.snd = p.effects st →
      Between a.now later es' → ({ a with timer := timer }.after w later es').Inv q)
    (between : Between a.now s.now es) (history : s.history = a.history ++ es)
    (serves : Serves (timer.advance Effect.timerCommand es) s.now s.timers) : s.Inv := by
  by_cases done : s.rest = []
  · rw [done, List.append_nil] at parts
    exact .idle done (finish s.world s.now es shown parts between) shown history rfl serves
  · exact .busy done shown parts finish between history serves

theorem Kernel.Inv.call {c : Call} (inv : s.Inv) (none : s.rest = []) (boot : c.afterBoot = true)
    (other : c ≠ .prechargeTimerFire) (made : c.Step s.world w) :
    Kernel.Inv { s with world := w, rest := w.trace } := by
  cases inv with
  | busy under_way => exact absurd none under_way
  | @idle a p _ inv shown history now serves =>
    have advanced := made.advances shown boot
    refine .of_under_way [] a.timer advanced.shows_next advanced.trace (fun w' later es' => ?_)
      now.le (by rw [List.append_nil]; exact history) serves
    exact inv.call (mt stimulus_eq_expiry.1 other)

theorem Kernel.Inv.effect {e : Effect} {rest : List Effect} (inv : s.Inv) (next : s.rest = e :: rest)
    (patient : ∀ millisec, e = .prechargeTimerStart millisec →
      .prechargeTimer ∉ s.timers.messages) :
    Kernel.Inv { s with
      rest := rest
      timers := e.perform s.timers
      history := s.history ++ [(s.now, e)] } := by
  cases inv with
  | idle none => rw [none] at next; cases next
  | @busy a p q st timer es _ shown parts finish between history serves =>
    rw [next] at parts
    have mem : e ∈ p.effects st := by simp [← parts]
    refine .of_under_way (es ++ [(s.now, e)]) timer shown (by simpa using parts) finish
      (between.snoc e) (by rw [history, List.append_assoc]) ?_
    have step := serves.effect (e := e)
      (fun millisec same => Phase.delay_of_mem_effects (same ▸ mem)) patient
    simpa [OneShot.advance] using step

theorem Kernel.Inv.tick {timers : TimerService UserTimer} (inv : s.Inv)
    (made : sysTimerTick s.timers = some timers) :
    Kernel.Inv { s with timers := timers, now := s.now + 1 } := by
  cases inv with
  | idle none inv shown history now serves =>
    exact .idle none (inv.elapse (now.le.trans (Nat.le_succ _))) shown history rfl (serves.tick made)
  | busy under_way shown parts finish between history serves =>
    exact .busy under_way shown parts finish (between.mono_right (Nat.le_succ _)) history
      (serves.tick made)

theorem Kernel.Inv.get (inv : s.Inv) (calling : s.timers.thread = .calling) :
    Kernel.Inv { s with timers := osMessageGet s.timers } := by
  cases inv with
  | idle none inv shown history now serves =>
    exact .idle none inv shown history now (serves.get calling)
  | busy under_way shown parts finish between history serves =>
    exact .busy under_way shown parts finish between history (serves.get calling)

/-- The callback for the pending start is due; one for an earlier start finds the precharge over. -/
theorem Kernel.Inv.fire (inv : s.Inv) (got : s.timers.thread = .got .prechargeTimer)
    (none : s.rest = []) (made : Call.prechargeTimerFire.Step s.world w) :
    Kernel.Inv { s.called with world := w, rest := w.trace } := by
  cases inv with
  | busy under_way => exact absurd none under_way
  | @idle a p _ inv shown history now serves =>
    have advanced := made.advances shown rfl
    have fired := serves.fire got
    have history' : s.history = a.history ++ [] := by rw [List.append_nil]; exact history
    cases pending : a.timer.pending with
    | some start =>
      have mem : .prechargeTimer ∈ s.timers.messages := by simp [messages_of_got got]
      obtain ⟨-, le⟩ := serves.expired start.1 start.2 pending (serves.settled.stopped mem)
      have due : a.timer.Due a.now := ⟨start.1, start.2, pending, now ▸ le⟩
      exact .of_under_way [] .idle advanced.shows_next advanced.trace
        (fun w' later es' => inv.expire due) now.le history' fired
    | none =>
      have past : p ≠ .precharging := by
        intro hp
        obtain ⟨t₀, start, -, -, armed⟩ := inv.precharging hp
        rw [pending] at armed
        cases armed
      have stays : p.next .expiry = p := if_neg past
      have silent : p.effects .expiry = [] := if_neg past
      have idle : { a with timer := .idle } = a := by
        obtain ⟨_, _, ⟨_⟩, _⟩ := a
        cases pending
        rfl
      have quiet : Stimulus.quiet ≠ .expiry := nofun
      refine .of_under_way [] .idle (a := a) (p := p) (q := p) ?_ (?_ : _ = p.effects .quiet)
        (fun w' later es' => ?_) now.le history' fired
      · have next := advanced.shows_next
        rwa [show Call.prechargeTimerFire.stimulus s.world = .expiry from rfl, stays] at next
      · exact advanced.trace.trans silent
      · rw [idle]
        exact inv.call quiet

theorem Phase.Shows.toggled (shown : p.Shows w) (k : Coil) (pins : Feedback) :
    p.Shows (toggleCb k pins w) := by
  cases k <;> exact ⟨shown.currentState, shown.contactorState, shown.precharge, shown.run⟩

theorem Kernel.Inv.toggle {k : Coil} {pins : Feedback} (inv : s.Inv)
    (got : s.timers.thread = .got k.errorTimer) :
    Kernel.Inv { s.called with
      world := if s.clears k then s.world else toggleCb k pins s.world } := by
  have other : k.errorTimer ≠ .prechargeTimer := by cases k <;> decide
  have kept {p : Phase} (shown : p.Shows s.world) :
      p.Shows (if s.clears k then s.world else toggleCb k pins s.world) := by
    split_ifs
    · exact shown
    · exact shown.toggled k pins
  cases inv with
  | idle none inv shown history now serves =>
    exact .idle none inv (kept shown) history now (serves.call got other)
  | busy under_way shown parts finish between history serves =>
    exact .busy under_way (kept shown) parts finish between history (serves.call got other)

end Operations

/-! ## Runs -/

/-- A precharge begins only when no callback of the precharge timer is still to be called. -/
def KernelAction.Patient (s : Kernel) : KernelAction → Prop
  | effect => ∀ millisec, s.rest.head? = some (.prechargeTimerStart millisec) →
    .prechargeTimer ∉ s.timers.messages
  | _ => True

/-- At the end of a run in which every precharge begins so. -/
def PatientlyReachable (s : Kernel) : Prop :=
  ∃ ts, kernel.Execution ts s ∧ ∀ τ ∈ ts, τ.label.Patient τ.src

section Runs

variable {s t : Kernel} {l : KernelAction}

theorem PatientlyReachable.step (h : PatientlyReachable s) (made : KernelStep s l t)
    (patient : l.Patient s) : PatientlyReachable t := by
  obtain ⟨ts, exec, all⟩ := h
  refine ⟨_, exec.snoc made, fun τ hτ => ?_⟩
  rcases List.mem_append.1 hτ with hτ | hτ
  · exact all τ hτ
  · rw [List.mem_singleton.1 hτ]
    exact patient

theorem Timed.Inv.booted {a : Timed ℕ} (boot : Booted a.world) (none : a.history = []) :
    a.Inv (.waiting .internalSafety) := by
  refine ⟨boot.shows_phase, fun k => ?_, nofun, nofun, fun pre t post split => ?_⟩
  · rw [none]
    cases k <;> rfl
  · simp [none] at split

theorem Kernel.Inv.init (h : kernel.init s) : s.Inv := by
  obtain ⟨boot, none, history, head, stopped, messages⟩ := h
  have idle (pt : UserTimer) : (s.timers.cb pt).state ≠ .osTimerRunning := by
    rw [(stopped pt).1]
    decide
  have inv : s.timers.Inv := by
    refine ⟨by simp [head], fun i => ?_, by simp [head, DeltaList.Ahead], by simp [head, Fits],
      fun i hi => absurd hi (idle i), fun waiting => ?_⟩
    · simp [head, idle]
    · simpa [TimerService.messages, waiting] using messages
  refine .idle (a := ⟨s.world, s.now, .idle, []⟩) none (.booted boot rfl) boot.shows_phase history rfl
    ⟨inv, ⟨(stopped _).2, by simp [messages], by simp [messages]⟩, ?_, fun u hu => ?_,
      fun _ _ pending => by cases pending⟩
  · rw [(stopped _).1]
    decide
  · simp [TimerService.deadlines, head] at hu

theorem KernelStep.inv (made : KernelStep s l t) (inv : s.Inv) (patient : l.Patient s) : t.Inv := by
  cases made with
  | call none boot other made => exact inv.call none boot other made
  | effect next => exact inv.effect next fun millisec same => patient millisec (by rw [next, same]; rfl)
  | tick made => exact inv.tick made
  | get calling => exact inv.get calling
  | prechargeTimerFire got none made => exact inv.fire got none made
  | toggleCb k pins got => exact inv.toggle got

theorem PatientlyReachable.inv (h : PatientlyReachable s) : s.Inv := by
  obtain ⟨ts, ⟨s₀, h₀, run⟩, patient⟩ := h
  exact run.invariant_of (I := Kernel.Inv) (P := fun τ => τ.label.Patient τ.src)
    (fun s l t inv made patient => KernelStep.inv made inv patient) patient (.init h₀)

theorem between_snoc_all {a b : ℕ} {es : List (ℕ × Effect)} (between : Between a b es)
    (rest : List Effect) : Between a b (es ++ rest.map fun e => (b, e)) := by
  induction rest generalizing es with
  | nil => simpa using between
  | cons e rest ih => simpa using ih (between.snoc e)

/-- Over the timer service of the kernel, in every run in which no precharge begins while a callback
of the precharge timer is still to be called: wherever the run coil goes from off to on, the precharge
coil has been on without interruption for the minimum time with the state machine in the precharge
states. -/
theorem minimumTime_over_kernel (h : PatientlyReachable s) : RunAfterMinimumTime s.history ∧
    (s.rest = [] → ∀ k, level (fun e => e.2.coilLevel k) false s.history = s.world.coil k) := by
  cases h.inv with
  | idle none inv shown history =>
    rw [history]
    exact ⟨inv.closed, fun _ k => (inv.level k).trans (shown.coil k).symm⟩
  | @busy a p q st timer es under_way shown parts finish between history =>
    refine ⟨?_, fun none => absurd none under_way⟩
    have rest : (es ++ s.rest.map fun e => (s.now, e)).map Prod.snd = p.effects st := by
      simpa [Function.comp_def] using parts
    have closed := (finish s.world s.now _ shown rest (between_snoc_all between s.rest)).closed
    rw [Timed.after, ← List.append_assoc, ← history] at closed
    exact closed.of_append

theorem messages_perform {timers : TimerService UserTimer} (inv : timers.Inv) (e : Effect) :
    (e.perform timers).messages = timers.messages ∧ (e.perform timers).Inv := by
  have started (pt : UserTimer) (millisec : UInt32) :
      (svcTimerStart pt millisec timers).2.messages = timers.messages ∧
        (svcTimerStart pt millisec timers).2.Inv := by
    rcases svcTimerStart_cases inv pt millisec with ⟨t, eq, rearmed, -⟩ | ⟨e, -, eq, -⟩ <;> rw [eq]
    · exact ⟨rearmed.messages, rearmed.inv⟩
    · exact ⟨rfl, inv⟩
  cases e with
  | prechargeTimerStart millisec => exact started _ _
  | errorTimerStart k millisec => exact started _ _
  | prechargeTimerStop =>
    rw [Effect.perform]
    rcases svcTimerStop_cases inv .prechargeTimer with ⟨t, eq, rearmed, -⟩ | ⟨e, -, eq, -⟩ <;> rw [eq]
    · exact ⟨rearmed.messages, rearmed.inv⟩
    · exact ⟨rfl, inv⟩
  | coilWrite | stateWrite | eventNotified | signalSet => exact ⟨rfl, inv⟩

/-- The operation, made at once. -/
def Kernel.perform (c : Call) (s : Kernel) : Kernel :=
  { s with
    world := c.result s.world
    rest := []
    timers := (c.result s.world).trace.foldl (fun timers e => e.perform timers) s.timers
    history := s.history ++ (c.result s.world).trace.map fun e => (s.now, e) }

/-- With no callback to be called, an operation under way can go on to its end. -/
theorem PatientlyReachable.finish (h : PatientlyReachable s) (inv : s.timers.Inv)
    (fresh : s.timers.messages = []) : PatientlyReachable { s with
      rest := []
      timers := s.rest.foldl (fun timers e => e.perform timers) s.timers
      history := s.history ++ s.rest.map fun e => (s.now, e) } := by
  obtain ⟨world, rest, timers, now, history⟩ := s
  dsimp only at inv fresh ⊢
  induction rest generalizing timers history with
  | nil => simpa using h
  | cons e rest ih =>
    obtain ⟨messages, inv'⟩ := messages_perform inv e
    have next := h.step (KernelStep.effect rfl) fun _ _ => by simp [fresh]
    have done := ih _ _ next inv' (messages.trans fresh)
    simpa using done

theorem Kernel.Inv.timers (inv : s.Inv) : s.timers.Inv := by
  cases inv with
  | idle _ _ _ _ _ serves => exact serves.inv
  | busy _ _ _ _ _ _ serves => exact serves.inv

theorem PatientlyReachable.perform (h : PatientlyReachable s) {c : Call} (none : s.rest = [])
    (boot : c.afterBoot = true) (other : c ≠ .prechargeTimerFire)
    (enough : ∀ n, c.exec (n + 8) { s.world with trace := [] } = some (c.result s.world))
    (fresh : s.timers.messages = []) : PatientlyReachable (s.perform c) :=
  (h.step (KernelStep.call none boot other (Call.step_result c enough)) trivial).finish
    h.inv.timers fresh

/-- The timers have been created, and the timer thread waits. -/
def Kernel.booted : Kernel where
  world := .mainDone
  rest := []
  timers := ⟨fun _ => ⟨.osTimerStopped, .osTimerOnce, 0⟩, [], [], .waiting⟩
  now := 0
  history := []

/-- Time passes until just before the first timer falls due. -/
theorem PatientlyReachable.elapse {pt : UserTimer} {tcnt : UInt32} {rest : TimerList UserTimer}
    (h : PatientlyReachable s) (first : s.timers.osTimerHead = (pt, tcnt) :: rest) {n : ℕ}
    (later : n < tcnt.toNat) : PatientlyReachable { s with
      timers := { s.timers with osTimerHead := (pt, tcnt - .ofNat n) :: rest }
      now := s.now + n } := by
  induction n with
  | zero =>
    have same : tcnt - .ofNat 0 = tcnt := UInt32.sub_zero tcnt
    rw [same, ← first]
    exact h
  | succ n ih =>
    have before := ih (Nat.lt_of_succ_lt later)
    have value : (UInt32.ofNat n).toNat = n :=
      UInt32.toNat_ofNat_of_lt' (lt_trans (Nat.lt_of_succ_lt later) tcnt.toNat_lt)
    have le : UInt32.ofNat n ≤ tcnt := by
      rw [UInt32.le_iff_toNat_le, value]
      exact (Nat.lt_of_succ_lt later).le
    have left : 1 < (tcnt - .ofNat n).toNat := by
      rw [UInt32.toNat_sub_of_le _ _ le, value]
      omega
    have next : tcnt - .ofNat (n + 1) = tcnt - .ofNat n - 1 := by
      rw [UInt32.ofNat_add]
      grind
    rw [next]
    exact before.step (KernelStep.tick (sysTimerTick_of_later rfl left)) trivial

/-- A precharge under way, when the feedback of its coil has been found to agree. -/
def World.settled : World :=
  { World.mainDone with
    contactorState := .hvcPrecharge
    prechargeContactorCoil := true
    prechargeFireonce := true
    currentState := .scsStartedPrecharge
    tractivePowerEnableBit := true
    trace := prechargeEffects }

/-- The same precharge after the minimum time. -/
def World.exceeded : World :=
  { World.settled with
    currentState := .scsPrechargeMinimumTimeExceeded
    trace := [.stateWrite .scsPrechargeMinimumTimeExceeded] }

/-- A start-up, tick by tick: the run coil closes 5000 ms after the precharge coil. -/
theorem minimumTime_over_kernel_ready : ∃ s, PatientlyReachable s ∧ s.now = 5000 ∧
    (5000, .coilWrite .run true) ∈ s.history ∧ s.world.runContactorCoil = true ∧
      RunAfterMinimumTime s.history := by
  have start : PatientlyReachable Kernel.booted :=
    ⟨[], .init ⟨mainDone_booted, rfl, rfl, rfl, fun _ => ⟨rfl, rfl⟩, rfl⟩, by simp⟩
  have waited := start.perform (c := .stateMachineProcessStep .allGood) rfl rfl (by decide)
    (fun _ => rfl) rfl
  have enabled := waited.perform (c := .pushTractiveEnable true) rfl rfl (by decide) (fun _ => rfl) rfl
  have precharging := enabled.perform (c := .stateMachineProcessStep .allGood) rfl rfl (by decide)
    (fun _ => rfl) rfl
  -- the error timer falls due first, and its callback is called at once
  have early := precharging.elapse (n := 299) rfl (by decide)
  have toggled := (early.step (.tick rfl) trivial).step (.toggleCb .precharge ⟨true, true⟩ rfl) trivial
  have settled := toggled.step (.get rfl) trivial
  have late := settled.elapse (n := 4699) rfl (by decide)
  have fires : Call.prechargeTimerFire.Step .settled _ :=
    Call.step_result .prechargeTimerFire fun _ => rfl
  have fired := (late.step (.tick rfl) trivial).step (.prechargeTimerFire rfl rfl fires) trivial
  have expired := (fired.finish fired.inv.timers rfl).step (.get rfl) trivial
  have closes : (Call.stateMachineProcessStep .allGood).Step .exceeded _ :=
    Call.step_result _ fun _ => rfl
  have closing := expired.step (.call rfl rfl (by decide) closes) trivial
  have ready := closing.finish closing.inv.timers rfl
  exact ⟨_, ready, rfl, by decide, rfl, (minimumTime_over_kernel ready).1⟩

end Runs

end Ams
