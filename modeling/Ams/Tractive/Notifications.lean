import Ams.Tractive.Pairing
import Mathlib.Data.List.Perm.Basic

/-!
# The order of notifications

Events and the callback of the precharge timer wait for the lock of the state machine.  Between two
steps of the state machine the order in which they get it makes no difference.  Every event either
takes the phase back to the internal safety check and stops the timer, which nothing but a step
undoes, or does nothing; and whether it does is not changed by the callback (`note_comm`).
-/

namespace Ams

open Reactive StateController Phase

variable {T : Type*}

/-- The call is one of `notify_event` or of `precharge_timer_fire`. -/
def Call.notifies : Call → Bool
  | notifyEvent _ | prechargeTimerFire => true
  | _ => false

section System

variable [Preorder T] [NatCast T]

inductive NotifyStep : Timed T → Call → Timed T → Prop where
  | made {s : Timed T} {c : Call} {w : World} {later : T} {es : List (T × Effect)} :
      c.notifies = true → c.Step s.world w → es.map Prod.snd = w.trace → Between s.now later es →
      NotifyStep s c (s.after w later es)

/-- Notifications after the start-up, with no step of the state machine in between. -/
def notifications : System (Timed T) Call where
  init s := booted.Reachable s.world
  step := NotifyStep

end System

/-- The same states, coil outputs and timer. -/
structure Timed.Agrees (s t : Timed T) : Prop where
  currentState : s.world.currentState = t.world.currentState
  contactorState : s.world.contactorState = t.world.contactorState
  prechargeContactorCoil : s.world.prechargeContactorCoil = t.world.prechargeContactorCoil
  runContactorCoil : s.world.runContactorCoil = t.world.runContactorCoil
  timer : s.timer = t.timer

/-! ## Phases and timers -/

/-- The phase after the reset by an event, and the timer. -/
def noted : Phase × OneShot T := (waiting .internalSafety, .idle)

/-- What a notification makes of a phase and the timer. -/
def note (x : Phase × OneShot T) : Call → Phase × OneShot T
  | .notifyEvent ev => if resets ev x.1.state then noted else x
  | .prechargeTimerFire => (x.1.next .expiry, x.2)
  | _ => x

theorem note_noted (c : Call) : note noted c = (noted : Phase × OneShot T) := by
  cases c with
  | notifyEvent ev => exact ite_self _
  | prechargeTimerFire => rfl
  | _ => rfl

/-- The callback does not change what an event does. -/
theorem resets_expiry (ev : StateControllerEvent) (p : Phase) :
    resets ev (p.next .expiry).state = resets ev p.state := by
  by_cases hp : p = precharging
  · rw [hp]
    cases ev <;> rfl
  · rw [next, if_neg hp]

theorem note_event_fire (x : Phase × OneShot T) (ev : StateControllerEvent) :
    note (note x (.notifyEvent ev)) .prechargeTimerFire =
      note (note x .prechargeTimerFire) (.notifyEvent ev) := by
  have after : note (note x .prechargeTimerFire) (.notifyEvent ev) =
      if resets ev x.1.state then noted else note x .prechargeTimerFire := by
    rw [note, note, resets_expiry]
  rw [after, note]
  split_ifs
  · exact note_noted _
  · rfl

theorem note_event_event (x : Phase × OneShot T) (ev ev' : StateControllerEvent) :
    note (note x (.notifyEvent ev)) (.notifyEvent ev') =
      if resets ev x.1.state ∨ resets ev' x.1.state then noted else x := by
  by_cases reset : resets ev x.1.state = true
  · have first : note x (.notifyEvent ev) = noted := if_pos reset
    rw [first, note_noted, if_pos (.inl reset)]
  · have first : note x (.notifyEvent ev) = x := if_neg reset
    rw [first, note]
    simp [reset]

/-- Any two notifications can be exchanged. -/
theorem note_comm (x : Phase × OneShot T) (c d : Call) : note (note x c) d = note (note x d) c := by
  cases c with
  | notifyEvent ev =>
    cases d with
    | notifyEvent ev' => rw [note_event_event, note_event_event]; simp only [or_comm]
    | prechargeTimerFire => exact note_event_fire x ev
    | _ => rfl
  | prechargeTimerFire =>
    cases d with
    | notifyEvent ev' => exact (note_event_fire x ev').symm
    | _ => rfl
  | _ => rfl

instance : RightCommutative (note (T := T)) := ⟨note_comm⟩

/-! ## Runs -/

theorem agrees_of_shows {q : Phase} {s t : Timed T} (hs : q.Shows s.world) (ht : q.Shows t.world)
    (timer : s.timer = t.timer) : s.Agrees t where
  currentState := hs.currentState.trans ht.currentState.symm
  contactorState := hs.contactorState.trans ht.contactorState.symm
  prechargeContactorCoil := hs.prechargeContactorCoil.trans ht.prechargeContactorCoil.symm
  runContactorCoil := hs.runContactorCoil.trans ht.runContactorCoil.symm
  timer := timer

/-- The timer after the handling of an event. -/
theorem advance_event [NatCast T] {p : Phase} {es : List (T × Effect)} {ev : StateControllerEvent}
    (timer : OneShot T) (effects : es.map Prod.snd = p.effects (.event ev)) :
    timer.advance Effect.timerCommand es = if resets ev p.state then .idle else timer := by
  split_ifs with reset
  · have low : (timer.advance Effect.timerCommand es).pending.isSome = false := by
      rw [isSome_pending_after, effects, Phase.effects, if_pos reset]
      simp [openEffects, level, Effect.timerLevel]
    cases stopped : timer.advance Effect.timerCommand es with
    | mk pending =>
      rw [stopped, Option.isSome_eq_false_iff, Option.isNone_iff_eq_none] at low
      exact congrArg OneShot.mk low
  · refine advance_of_quiet (quiet_of_stamped effects ?_) timer
    simp [Phase.effects, reset, Effect.quiet]

theorem advance_expiry [NatCast T] {p : Phase} {es : List (T × Effect)} (timer : OneShot T)
    (effects : es.map Prod.snd = p.effects .expiry) :
    timer.advance Effect.timerCommand es = timer := by
  refine OneShot.advance_quiet fun e he => ?_
  have listed : e.2 ∈ p.effects .expiry := effects ▸ List.mem_map_of_mem he
  rw [Phase.effects] at listed
  split_ifs at listed
  · rw [List.mem_singleton.1 listed]
    rfl
  · simp at listed

section Runs

variable [Preorder T] [NatCast T] {s t u : Timed T} {c : Call} {p : Phase} {cs cs' : List Call}
  {ts us : List (Transition (Timed T) Call)}

theorem NotifyStep.noted (made : NotifyStep s c t) (h : p.Shows s.world) :
    ∃ q : Phase, q.Shows t.world ∧ note (p, s.timer) c = (q, t.timer) := by
  cases made with
  | made notifies made effects between =>
    cases c with
    | notifyEvent ev =>
      have advanced := made.advances h rfl
      refine ⟨_, advanced.shows_next, ?_⟩
      rw [Timed.after, advance_event s.timer (effects.trans advanced.trace)]
      simp only [note, Call.stimulus, next]
      split_ifs <;> rfl
    | prechargeTimerFire =>
      have advanced := made.advances h rfl
      refine ⟨_, advanced.shows_next, ?_⟩
      rw [Timed.after, advance_expiry s.timer (effects.trans advanced.trace)]
      rfl
    | _ => cases notifies

theorem noted_of_run (run : notifications.Run s ts t) (h : p.Shows s.world) :
    ∃ q : Phase, q.Shows t.world ∧
      (ts.map Transition.label).foldl note (p, s.timer) = (q, t.timer) := by
  induction run with
  | nil => exact ⟨p, h, rfl⟩
  | snoc _ made ih =>
    obtain ⟨q, shown, before⟩ := ih
    obtain ⟨q', shown', after⟩ := NotifyStep.noted made shown
    exact ⟨q', shown', by simp [before, after]⟩

/-- Notifications come back. -/
theorem runs_notifications (h : p.Shows s.world) (notify : ∀ c ∈ cs, c.notifies = true) :
    ∃ ts t, notifications.Run s ts t ∧ ts.map Transition.label = cs := by
  induction cs using List.reverseRecOn with
  | nil => exact ⟨[], s, .nil, rfl⟩
  | append_singleton cs c ih =>
    obtain ⟨ts, t, run, labels⟩ := ih fun d hd => notify d (List.mem_append_left _ hd)
    obtain ⟨q, shown, -⟩ := noted_of_run run h
    have notifies := notify c (by simp)
    have boot : c.afterBoot = true := by cases c <;> first | rfl | cases notifies
    obtain ⟨w, made, -⟩ := shown.called boot
    have step : NotifyStep t c (t.after w t.now (w.trace.map fun e => (t.now, e))) :=
      .made notifies made (by simp [Function.comp_def]) (between_map _)
    exact ⟨_, _, run.snoc step, by simp [labels]⟩

/-- In a state reachable after the start-up the events and callbacks `cs` come back in any order, and
every order, at whatever instants, leaves the same states, coil outputs and timer behind. -/
theorem notifications_agree (h : booted.Reachable s.world) (notify : ∀ c ∈ cs, c.notifies = true)
    (perm : cs.Perm cs') :
    (∃ ts t, notifications.Run s ts t ∧ ts.map Transition.label = cs) ∧
      (∃ us u, notifications.Run s us u ∧ us.map Transition.label = cs') ∧
      ∀ ts t us u, notifications.Run s ts t → ts.map Transition.label = cs →
        notifications.Run s us u → us.map Transition.label = cs' → t.Agrees u := by
  obtain ⟨p, shown⟩ := booted_shows h
  refine ⟨runs_notifications shown notify,
    runs_notifications shown fun c hc => notify c (perm.mem_iff.2 hc), ?_⟩
  intro ts t us u run labels run' labels'
  obtain ⟨q, hq, folded⟩ := noted_of_run run shown
  obtain ⟨q', hq', folded'⟩ := noted_of_run run' shown
  rw [labels, perm.foldl_eq, ← labels', folded', Prod.mk.injEq] at folded
  obtain ⟨rfl, timer⟩ := folded
  exact agrees_of_shows hq hq' timer.symm

end Runs

/-- The end of the minimum precharge time. -/
def Timed.exceeded : Timed ℕ := ⟨.minimumTime, prechargeMinimumTimeMillisec, .idle, []⟩

theorem notifications_agree_exceeded : ∃ ts t us u, notifications.Run Timed.exceeded ts t ∧
    ts.map Transition.label =
      [.notifyEvent .sceInsulationMonitoringDeviceError, .prechargeTimerFire] ∧
    notifications.Run Timed.exceeded us u ∧ us.map Transition.label =
      [.prechargeTimerFire, .notifyEvent .sceInsulationMonitoringDeviceError] ∧ t.Agrees u := by
  obtain ⟨⟨ts, t, run, labels⟩, ⟨us, u, run', labels'⟩, agree⟩ :=
    notifications_agree (s := Timed.exceeded) execution_start.reachable (by decide)
      (.swap .prechargeTimerFire (.notifyEvent .sceInsulationMonitoringDeviceError) [])
  exact ⟨ts, t, us, u, run, labels, run', labels', agree ts t us u run labels run' labels'⟩

end Ams
