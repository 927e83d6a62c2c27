import Ams.Controller.Actions
import Ams.Controller.Recursion
import Ams.Lib.Startup

/-!
# The start-up

`main` creates `StateController` before `ContactorController`.  Until the second one is initialised
the contactor state is `hvcInitialising`, so the state machine, already running, gets every request
refused (`Uncontrolled`); the first of them is that of its own `initialise` (`Asleep.initialise`).
-/

namespace Ams

open Reactive ContactorController StateController StateControllerEvent

/-- The tasks that `main` creates. -/
inductive Task where
  | canTransceiver
  | stateController
  | stackPlausibility
  | bmsController
  | contactorController
  | heartbeatDispatcher
  | statusDispatcher
  | contactorInfoDispatcher
  deriving DecidableEq, Repr

/-- The order of the creations in `main`. -/
def creations : List Task :=
  [.canTransceiver, .stateController, .stackPlausibility, .bmsController, .contactorController,
    .heartbeatDispatcher, .statusDispatcher, .contactorInfoDispatcher]

/-- The effect of `initialise` on the controllers. -/
def Task.initialise (n : ℕ) : Task → World → Option World
  | stateController, w => StateController.initialise n w
  | contactorController, w => some (ContactorController.initialise w)
  | _, w => some w

/-- The calls of the tasks created so far, and of the timer.  `StackPlausibility::procedure` notifies
no event, as `is_plausible` is constantly true. -/
def Call.runsWith (created : List Task) : Call → Bool
  | stateMachineProcessStep _ => created.contains .stateController
  | pushTractiveEnable _ | writeTractiveEnable _ => created.contains .canTransceiver
  | notifyEvent ev => !ev.isError && created.contains .canTransceiver
  | prechargeTimerFire => true
  | _ => false

def startup : Startup Task World Call where
  order := creations
  start w := w = World.powerOn
  initialise t w w' := Returns (fun n => t.initialise n { w with trace := [] }) w'
  runs created c := c.runsWith created = true
  step w c w' := c.Step w w'

/-- `main` with the tasks that it has created. -/
def boot : System (Booting Task World) (Creation Task Call) := startup.system

variable {w w' : World} {c : Call} {created : List Task} {n : ℕ}

theorem Call.afterBoot_of_runsWith (h : c.runsWith created = true) : c.afterBoot = true := by
  cases c <;> first | rfl | cases h

theorem Call.setsContactors_of_runsWith (h : c.runsWith created = true) :
    c.setsContactors = false :=
  Call.setsContactors_of_afterBoot (Call.afterBoot_of_runsWith h)

theorem returns_pushTractiveEnable {newVal : Bool}
    (made : Returns (fun n => pushTractiveEnable n newVal w) w') :
    Returns (fun n => notifyEvent n (driverEvent newVal) (writeTractiveEnable newVal w)) w' ∨
      w' = writeTractiveEnable newVal w := by
  by_cases changed : (newVal != w.tractivePowerEnableBit) = true
  · simp only [pushTractiveEnable_of_changed changed] at made
    exact .inl made
  · simp only [pushTractiveEnable_of_same changed] at made
    exact .inr (made.unique (returns_of_eq fun _ => rfl))

/-! ## Before the contactors are initialised -/

/-- The contactor controller has not been initialised. -/
structure Unready (w : World) : Prop where
  contactorState : w.contactorState = .hvcInitialising
  coil : ∀ k, w.coil k = false

theorem Unready.below (h : Unready w) : ¬ .hvcAllOpen ≤ w.contactorState := by
  rw [h.contactorState]
  decide

/-- No request is accepted. -/
theorem Follows.of_initialising {c : ContactorState} (h : Follows .hvcInitialising c) :
    c = .hvcInitialising := by
  cases h with
  | accepted ne made => rw [request_eq_none (by decide) ne] at made; cases made
  | opened high => exact absurd high (by decide)
  | refused => rfl

theorem Unready.acts (h : Unready w) (acts : Acts w w') : Unready w' := by
  refine acts.invariant ?_ h
  intro v v' hv act
  cases act with
  | emit _ => exact ⟨hv.contactorState, fun k => by simp [hv.coil k]⟩
  | writeState s => exact ⟨hv.contactorState, fun k => by simp [hv.coil k]⟩
  | writeEnable newVal => exact ⟨hv.contactorState, hv.coil⟩
  | sync follows =>
    rw [hv.contactorState] at follows
    obtain rfl := follows.of_initialising
    refine ⟨by simp, fun k => ?_⟩
    cases k <;> simp <;> rfl

/-- The state machine has not been initialised either. -/
structure Asleep (w : World) : Prop extends Unready w where
  currentState : w.currentState = .scsInitialising

/-- The state machine runs. -/
structure Uncontrolled (w : World) : Prop extends Unready w where
  rests : w.currentState.rests = true

theorem asleep_powerOn : Asleep .powerOn where
  contactorState := rfl
  coil k := by cases k <;> rfl
  currentState := rfl

theorem Asleep.cleared (h : Asleep w) : Asleep { w with trace := [] } :=
  ⟨⟨h.contactorState, h.coil⟩, h.currentState⟩

theorem Uncontrolled.cleared (h : Uncontrolled w) : Uncontrolled { w with trace := [] } :=
  ⟨⟨h.contactorState, h.coil⟩, h.rests⟩

/-! ## Before the state machine is initialised -/

/-- Before the state machine is initialised no event does anything. -/
theorem notifyEvent_asleep (h : w.currentState = .scsInitialising) (ev : StateControllerEvent) :
    Returns (fun n => notifyEvent n ev w) ((w.emit (.eventNotified ev)).emit .signalSet) := by
  refine notifyEvent_quiet ?_
  rw [h]
  cases ev <;> rfl

theorem Asleep.exec (h : Asleep w) (silent : w.trace = []) (runs : c.runsWith created = true)
    (asleep : .stateController ∉ created) (made : Returns (fun n => c.exec n w) w') :
    w'.currentState = .scsInitialising ∧
      ∀ ev, .eventNotified ev ∈ w'.trace → ev.isError = false := by
  cases c with
  | stateMachineProcessStep pins => simp [Call.runsWith, asleep] at runs
  | writeTractiveEnable newVal =>
    obtain rfl := made.unique (returns_of_eq fun _ => rfl)
    exact ⟨h.currentState, by simp [writeTractiveEnable, silent]⟩
  | notifyEvent ev =>
    obtain rfl := made.unique (notifyEvent_asleep h.currentState ev)
    have driver : ev.isError = false := by
      simp only [Call.runsWith, Bool.and_eq_true, Bool.not_eq_true'] at runs
      exact runs.1
    exact ⟨h.currentState, by simp [driver, silent]⟩
  | pushTractiveEnable newVal =>
    rcases returns_pushTractiveEnable made with notified | rfl
    · have asleep' : (writeTractiveEnable newVal w).currentState = .scsInitialising := h.currentState
      obtain rfl := notified.unique (notifyEvent_asleep asleep' (driverEvent newVal))
      refine ⟨h.currentState, ?_⟩
      cases newVal <;> simp [writeTractiveEnable, silent, driverEvent] <;> rfl
    · exact ⟨h.currentState, by simp [writeTractiveEnable, silent]⟩
  | prechargeTimerFire =>
    have idle : w.currentState ≠ .scsStartedPrecharge := by
      rw [h.currentState]
      decide
    obtain rfl := made.unique (returns_of_eq fun _ => prechargeTimerFire_of_ne idle)
    exact ⟨h.currentState, by simp [silent]⟩
  | stateControllerInitialise | contactorControllerInitialise | pushState _ => cases runs

theorem Asleep.step (h : Asleep w) (runs : c.runsWith created = true)
    (asleep : .stateController ∉ created) (made : c.Step w w') :
    Asleep w' ∧ ∀ ev, .eventNotified ev ∈ w'.trace → ev.isError = false := by
  obtain ⟨state, driver⟩ := h.cleared.exec rfl runs asleep made
  have acts := made.acts (Call.setsContactors_of_runsWith runs)
  exact ⟨⟨h.cleared.toUnready.acts acts, state⟩, driver⟩

/-- The request of `StateController::initialise` is refused. -/
theorem Asleep.initialise (h : Asleep w)
    (made : Returns (fun n => StateController.initialise n w) w') :
    w'.currentState = .scsWaitingForInternalSafety ∧
      .eventNotified sceContactorSequenceError ∈ w'.trace := by
  have refused : request w.contactorState .hvcAllOpen = none := by
    rw [h.contactorState]
    rfl
  have low : ¬ .scsWaitingForInternalSafety < w.currentState := by
    rw [h.currentState]
    decide
  obtain rfl := made.unique
    (transitionState_opens opens_internalSafety (pushState_refused_low refused low))
  refine ⟨rfl, ?_⟩
  have unsettled : ¬ .hvcAllOpen <
      ((w.emit (.eventNotified sceContactorSequenceError)).emit .signalSet).contactorState := by
    rw [World.emit_contactorState, World.emit_contactorState, h.contactorState]
    decide
  rw [World.settle_of_not_lt unsettled]
  simp

/-! ## With the state machine running -/

theorem notifyEvent_rests (h : Uncontrolled w) {ev : StateControllerEvent}
    (made : Returns (fun n => notifyEvent n ev w) w') : w'.currentState.rests = true := by
  cases hr : resets ev w.currentState with
  | true =>
    have low : ¬ .scsWaitingForInternalSafety < w.currentState := by
      intro high
      exact not_returns_of_none (fun n => notifyEvent_wedged n ⟨h.below, high⟩ hr) made
    obtain ⟨v, hv, -, hs, -⟩ := transitionState_low (w := w.emit (.eventNotified ev))
      opens_internalSafety h.below low
    obtain rfl := made.unique (notifyEvent_resets hr hv)
    rw [World.emit_currentState, hs]
    rfl
  | false =>
    obtain rfl := made.unique (notifyEvent_quiet hr)
    exact h.rests

theorem Uncontrolled.exec (h : Uncontrolled w) (runs : c.runsWith created = true)
    (made : Returns (fun n => c.exec n w) w') : w'.currentState.rests = true := by
  cases c with
  | stateMachineProcessStep pins =>
    have quiet : ¬ StepRequests pins w := fun requests => step_not_returns h.below requests made
    obtain ⟨v, hv, rested⟩ := step_yields_low h.below quiet
    obtain rfl := made.unique hv
    rcases rested with same | rests
    · rw [same, h.rests]
    · exact rests
  | writeTractiveEnable newVal =>
    obtain rfl := made.unique (returns_of_eq fun _ => rfl)
    exact h.rests
  | notifyEvent ev => exact notifyEvent_rests h made
  | pushTractiveEnable newVal =>
    rcases returns_pushTractiveEnable made with notified | rfl
    · have written : Uncontrolled (writeTractiveEnable newVal w) :=
        ⟨⟨h.contactorState, h.coil⟩, h.rests⟩
      exact notifyEvent_rests written notified
    · exact h.rests
  | prechargeTimerFire =>
    have idle : w.currentState ≠ .scsStartedPrecharge := by
      intro started
      have rests := h.rests
      rw [started] at rests
      cases rests
    obtain rfl := made.unique (returns_of_eq fun _ => prechargeTimerFire_of_ne idle)
    exact h.rests
  | stateControllerInitialise | contactorControllerInitialise | pushState _ => cases runs

theorem Uncontrolled.step (h : Uncontrolled w) (runs : c.runsWith created = true)
    (made : c.Step w w') : Uncontrolled w' := by
  have acts := made.acts (Call.setsContactors_of_runsWith runs)
  exact ⟨h.cleared.toUnready.acts acts, h.cleared.exec runs made⟩

end Ams
