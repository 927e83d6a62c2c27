import Ams.Controller.Actions
import Ams.Tractive.Timing

/-!
# The precharge timer and the state machine

`transition_state` starts and stops the precharge timer after a contactor request, and a request that
is refused re-enters it.  Whatever the nesting, an operation that comes back leaves the timer pending
exactly in `scsStartedPrecharge` if it has found it so (`Call.Step.paired`).  The callback of the
timer finds the timer idle, as the start that it belongs to is over.
-/

namespace Ams

open Reactive ContactorController StateController

variable {T : Type*}

/-- The level that an effect gives to the signal "the precharge timer is pending". -/
def Effect.timerLevel : Effect → Option Bool
  | .prechargeTimerStart _ => some true
  | .prechargeTimerStop => some false
  | _ => none

theorem map_arms_timerCommand [NatCast T] (e : Effect) :
    (e.timerCommand : Option (OneShot.Command T)).map OneShot.Command.arms = e.timerLevel := by
  cases e <;> rfl

/-- The timer after timed effects, as a signal driven by the effects. -/
theorem isSome_pending_after [NatCast T] (timer : OneShot T) (es : List (T × Effect)) :
    (timer.advance Effect.timerCommand es).pending.isSome =
      level Effect.timerLevel timer.pending.isSome (es.map Prod.snd) := by
  rw [OneShot.isSome_pending_advance, level_map]
  simp only [map_arms_timerCommand]

/-- The timer, pending at the beginning of the operation if `b` is true, is pending exactly in
`scsStartedPrecharge`. -/
def World.Paired (b : Bool) (w : World) : Prop :=
  level Effect.timerLevel b w.trace = true ↔ w.currentState = .scsStartedPrecharge

/-- Moreover the state is not `scsStartedPrecharge`. -/
structure World.Unarmed (b : Bool) (w : World) : Prop where
  idle : level Effect.timerLevel b w.trace = false
  ne : w.currentState ≠ .scsStartedPrecharge

variable {b : Bool} {n : ℕ} {w w' : World} {s : StateControllerState}

theorem World.Unarmed.paired (h : w.Unarmed b) : w.Paired b := by
  rw [World.Paired, h.idle]
  exact iff_of_false Bool.false_ne_true h.ne

theorem World.Paired.unarmed (h : w.Paired b) (ne : w.currentState ≠ .scsStartedPrecharge) :
    w.Unarmed b :=
  ⟨Bool.eq_false_iff.2 (mt h.1 ne), ne⟩

/-! ## Nested operations -/

theorem timerLevel_syncEffects (precharge run : Bool) (c : ContactorState) :
    ∀ e ∈ syncEffects precharge run c, e.timerLevel = none := by
  unfold syncEffects
  split_ifs <;> simp [Effect.timerLevel]

theorem level_sync (w : World) (c : ContactorState) :
    level Effect.timerLevel b (syncCoils (w.writeContactor c)).trace =
      level Effect.timerLevel b w.trace := by
  rw [syncCoils_trace, level_append, level_of_unwritten (timerLevel_syncEffects _ _ _)]
  rfl

theorem level_emit {e : Effect} (he : e.timerLevel = none) (w : World) :
    level Effect.timerLevel b (w.emit e).trace = level Effect.timerLevel b w.trace := by
  simp [level, he]

theorem ne_startedPrecharge_of_opens (hs : s.opens = true) : s ≠ .scsStartedPrecharge := by
  rintro rfl
  cases hs

theorem World.unarmed_stop (w : World) (hs : s.opens = true) :
    ((w.emit .prechargeTimerStop).writeState s).Unarmed b where
  idle := by simp [level, Effect.timerLevel]
  ne := ne_startedPrecharge_of_opens hs

theorem World.Paired.sync (h : w.Paired b) (c : ContactorState) :
    (syncCoils (w.writeContactor c)).Paired b := by
  rw [World.Paired, level_sync, syncCoils_currentState]
  exact h

theorem nested_unarmed : Nested (World.Unarmed b) where
  event _ h := ⟨(level_emit rfl _).trans h.idle, h.ne⟩
  signal h := ⟨(level_emit rfl _).trans h.idle, h.ne⟩
  sync _ h := ⟨(level_sync _ _).trans h.idle, by simpa using h.ne⟩
  stop hs _ := World.unarmed_stop _ hs

theorem nested_paired : Nested (World.Paired b) where
  event _ h := by rwa [World.Paired, level_emit rfl]
  signal h := by rwa [World.Paired, level_emit rfl]
  sync _ h := h.sync _
  stop hs _ := (World.unarmed_stop _ hs).paired

/-! ## Transitions and steps -/

/-- A start comes after whatever its request has done, and so does a stop; only the request of the
transition to race ready has to leave the timer alone. -/
theorem transitionState_paired (enters : StepEnters w s) (hw : w.Paired b)
    (h : transitionState n s w = some w') : w'.Paired b := by
  obtain ⟨m, made⟩ := transitioned h
  cases made with
  | opened opens _ => exact (World.unarmed_stop _ opens).paired
  | started _ => exact iff_of_true (by simp [level, Effect.timerLevel]) rfl
  | exceeded => exact enters.elim
  | ready pushed =>
    have ne : w.currentState ≠ .scsStartedPrecharge := by
      rcases enters with hw | hw <;> rw [hw] <;> decide
    have kept := nested_unarmed.of_pushState (by decide) (hw.unarmed ne) pushed
    refine World.Unarmed.paired ⟨?_, by simp⟩
    rw [World.writeState, level_emit rfl]
    exact kept.idle

theorem minimumTimeExceeded_unarmed (hw : level Effect.timerLevel b w.trace = false)
    (h : transitionState n .scsPrechargeMinimumTimeExceeded w = some w') : w'.Unarmed b := by
  obtain ⟨m, made⟩ := transitioned h
  cases made with
  | opened opens _ => cases opens
  | exceeded =>
    refine ⟨?_, by simp⟩
    rw [World.writeState, level_emit rfl]
    exact hw

theorem step_paired {pins : Pins} (hw : w.Paired b)
    (h : stateMachineProcessStep n pins w = some w') : w'.Paired b :=
  step_rule (fun _ _ _ => transitionState_paired) hw h

/-! ## Calls -/

/-- No operation but the callback parts the timer from the state machine. -/
theorem Call.Step.paired {c : Call} (made : c.Step w w') (other : c ≠ .prechargeTimerFire)
    (before : b = true ↔ w.currentState = .scsStartedPrecharge) : w'.Paired b := by
  have start : World.Paired b { w with trace := [] } := before
  obtain ⟨N, hN⟩ := made
  have h := hN N le_rfl
  cases c with
  | stateControllerInitialise => exact nested_paired.of_transitionState opens_internalSafety start h
  | contactorControllerInitialise => exact Option.some.inj h ▸ start
  | stateMachineProcessStep pins => exact step_paired start h
  | writeTractiveEnable newVal => exact Option.some.inj h ▸ start
  | notifyEvent ev => exact nested_paired.of_notifyEvent start h
  | prechargeTimerFire => exact absurd rfl other
  | pushState newState => exact nested_paired.of_request (start.sync _) start h
  | pushTractiveEnable newVal =>
    have written : World.Paired b (StateController.writeTractiveEnable newVal
        { w with trace := [] }) := before
    exact nested_paired.of_pushTractiveEnable written h

/-- The callback, with the timer idle, leaves `scsStartedPrecharge`. -/
theorem Call.Step.unarmed (made : Call.prechargeTimerFire.Step w w') : w'.Unarmed false := by
  obtain ⟨N, hN⟩ := made
  have h := hN N le_rfl
  rcases prechargeTimerFire_cases h with ⟨-, made⟩ | ⟨ne, rfl⟩
  · exact minimumTimeExceeded_unarmed rfl made
  · exact ⟨rfl, ne⟩

/-! ## Runs from power-on -/

/-- The timer is running, or a callback of its latest start is to be delivered, exactly in
`scsStartedPrecharge`. -/
def Timed.Paired (s : Timed T) : Prop :=
  s.timer.pending ≠ none ↔ s.world.currentState = .scsStartedPrecharge

theorem Timed.paired_iff {s : Timed T} : s.Paired ↔
    (s.timer.pending.isSome = true ↔ s.world.currentState = .scsStartedPrecharge) := by
  rw [Timed.Paired, ← Option.isSome_iff_ne_none]

theorem Timed.paired_after [NatCast T] {s : Timed T} {w : World} {later : T} {es : List (T × Effect)}
    (effects : es.map Prod.snd = w.trace) :
    (s.after w later es).Paired ↔ w.Paired s.timer.pending.isSome := by
  rw [Timed.paired_iff, Timed.after, isSome_pending_after, effects]
  rfl

section System

variable [Preorder T] [NatCast T] {s t : Timed T} {a : TimedAction T}

/-- The calls that only `main` makes. -/
inductive MainStep : Timed T → TimedAction T → Timed T → Prop where
  | call {s : Timed T} {c : Call} {w : World} {later : T} {es : List (T × Effect)} :
      c.afterBoot = false → c.Step s.world w → es.map Prod.snd = w.trace →
      Between s.now later es → MainStep s (.call c) (s.after w later es)

/-- The call of `main`, made at once. -/
theorem MainStep.perform (c : Call) (boot : c.afterBoot = false)
    (enough : ∀ n, c.exec (n + 8) { s.world with trace := [] } = some (c.result s.world)) :
    MainStep s (.call c) (s.perform c) :=
  .call boot (Call.step_result c enough) (by simp [Function.comp_def]) (between_map _)

theorem MainStep.paired (made : MainStep s a t) (h : s.Paired) : t.Paired := by
  cases made with
  | @call c _ _ _ boot made effects between =>
    have other : c ≠ .prechargeTimerFire := by
      rintro rfl
      cases boot
    exact (Timed.paired_after effects).2 (made.paired other (Timed.paired_iff.1 h))

variable [Add T]

/-- The operations of `main` and of the tasks, in any order and at any instants from power-on, where
the timer is idle. -/
def timedPowerOn : System (Timed T) (TimedAction T) where
  init s := s.world = .powerOn ∧ s.timer = .idle
  step s a t := TimedStep s a t ∨ MainStep s a t

theorem TimedStep.paired (made : TimedStep s a t) (h : s.Paired) : t.Paired := by
  cases made with
  | elapse instant later => exact h
  | call boot other made effects between =>
    exact (Timed.paired_after effects).2 (made.paired other (Timed.paired_iff.1 h))
  | expire due made effects between => exact (Timed.paired_after effects).2 made.unarmed.paired

/-- In every run from power-on, after every operation, the precharge timer is pending exactly in
`scsStartedPrecharge`. -/
theorem pending_iff_precharging (h : timedPowerOn.Reachable s) :
    s.timer.pending ≠ none ↔ s.world.currentState = .scsStartedPrecharge := by
  refine h.invariant (I := Timed.Paired) ?_ ?_
  · rintro s ⟨start, idle⟩
    rw [Timed.Paired, start, idle]
    exact iff_of_false (by simp [OneShot.idle]) (by decide)
  · rintro s a t paired (made | made)
    · exact made.paired paired
    · exact made.paired paired

end System

/-- The controllers are initialised at power-on, and a precharge begins. -/
def Timed.firstPrecharge : Timed ℕ :=
  Timed.perform (.stateMachineProcessStep .allGood) <| Timed.perform (.pushTractiveEnable true) <|
    Timed.perform (.stateMachineProcessStep .allGood) <|
      Timed.perform .contactorControllerInitialise <| Timed.perform .stateControllerInitialise
        ⟨.powerOn, 0, .idle, []⟩

theorem reachable_firstPrecharge : timedPowerOn.Reachable Timed.firstPrecharge := by
  have start : timedPowerOn.Execution [] (⟨.powerOn, 0, .idle, []⟩ : Timed ℕ) := .init ⟨rfl, rfl⟩
  have state := start.reachable.step (.inr (MainStep.perform .stateControllerInitialise rfl
    fun _ => rfl))
  have contactors := state.step (.inr (MainStep.perform .contactorControllerInitialise rfl
    fun _ => rfl))
  have waited := contactors.step (.inl (TimedStep.perform (.stateMachineProcessStep .allGood) rfl
    (by decide) fun _ => rfl))
  have enabled := waited.step (.inl (TimedStep.perform (.pushTractiveEnable true) rfl (by decide)
    fun _ => rfl))
  exact enabled.step (.inl (TimedStep.perform (.stateMachineProcessStep .allGood) rfl (by decide)
    fun _ => rfl))

theorem pending_iff_precharging_first :
    Timed.firstPrecharge.world.currentState = .scsStartedPrecharge ∧
      (Timed.firstPrecharge.timer.pending ≠ none ↔
        Timed.firstPrecharge.world.currentState = .scsStartedPrecharge) :=
  ⟨rfl, pending_iff_precharging reachable_firstPrecharge⟩

end Ams
