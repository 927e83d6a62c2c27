import Ams.Controller.State
import Ams.Lib.Nesting

/-!
# Contactor requests and state transitions

`push_state`, `notify_event` and `transition_state` call each other: a refused contactor request
raises `sceContactorSequenceError`, whose handling may transition the state machine, which requests
`hvcAllOpen`.  The three functions take a bound on the nesting of these calls and answer `none` when
it is used up; `Reactive.Returns` is about all large enough bounds.  The mutexes are recursive and
an outermost call holds them to its end, so one outermost call is one atomic step.
-/

namespace Ams

open Reactive

namespace ContactorController

/-- The `switch` of `push_state`: the state assigned, or `none` when the sequence error is raised.
-/
def request (current newState : ContactorState) : Option ContactorState :=
  match newState with
  | .hvcLatchingMechanicalError => some .hvcLatchingMechanicalError
  | .hvcAllOpen => if .hvcAllOpen ≤ current then some .hvcAllOpen else none
  | .hvcPrecharge => if current = .hvcAllOpen then some .hvcPrecharge else none
  | .hvcHighCurrentRun => if current = .hvcPrecharge then some .hvcHighCurrentRun else none
  | .hvcInitialising => none

/-- Both coils are written with the mask bits of the contactor state. -/
def writeCoils (w : World) : World :=
  { w with
    prechargeContactorCoil := w.contactorState.drivesPrecharge
    runContactorCoil := w.contactorState.drivesRun
    trace := w.trace ++ [.coilWrite .precharge w.contactorState.drivesPrecharge,
      .coilWrite .run w.contactorState.drivesRun] }

/-- The precharge coil, at level `prime` before, has toggled: its settle time starts again. -/
def savePrechargeToggle (prime : Bool) (w : World) : World :=
  if prime != w.prechargeContactorCoil then
    { w with prechargeFireonce := false }.emit (.errorTimerStart .precharge
      (if w.prechargeContactorCoil then prechargeTimePullinMs else prechargeTimePulloutMs))
  else w

/-- The run coil, at level `prime` before, has toggled: its settle time starts again. -/
def saveRunToggle (prime : Bool) (w : World) : World :=
  if prime != w.runContactorCoil then
    { w with runFireonce := false }.emit (.errorTimerStart .run
      (if w.runContactorCoil then runTimePullinMs else runTimePulloutMs))
  else w

/-- The end of `push_state`, after the request has been decided. -/
def syncCoils (w : World) : World :=
  saveRunToggle w.runContactorCoil (savePrechargeToggle w.prechargeContactorCoil (writeCoils w))

end ContactorController

mutual

def ContactorController.pushState : ℕ → ContactorState → World → Option World
  | 0, _, _ => none
  | n + 1, newState, w =>
    match ContactorController.request w.contactorState newState with
    | some s => some (ContactorController.syncCoils (w.writeContactor s))
    | none => do
      let w ← StateController.notifyEvent n .sceContactorSequenceError w
      -- `current_state` is read again: the event may have opened the contactors
      some (ContactorController.syncCoils
        (if .hvcAllOpen < w.contactorState then w.writeContactor .hvcAllOpen else w))

def StateController.notifyEvent : ℕ → StateControllerEvent → World → Option World
  | 0, _, _ => none
  | n + 1, ev, w =>
    let w := w.emit (.eventNotified ev)
    match ev with
    | .sceCANBusIntegrityError | .sceStackPlausibilityError | .sceHardwareOvercurrentError
    | .sceInsulationMonitoringDeviceError | .sceBatteryManagementSystemError
    | .sceContactorHardwareFaultError | .sceContactorSequenceError => do
      let w ← if .scsWaitingForInternalSafety < w.currentState then
          StateController.transitionState n .scsWaitingForInternalSafety w
        else some w
      some (w.emit .signalSet)
    | .sceDriverDeactivatesTractiveSystem => do
      let w ← if w.currentState = .scsLatchingError ∨
            .scsWaitingForInternalSafety ≤ w.currentState then
          StateController.transitionState n .scsWaitingForInternalSafety w
        else some w
      some (w.emit .signalSet)
    | .sceDriverEnablesTractiveSystem => some (w.emit .signalSet)

def StateController.transitionState : ℕ → StateControllerState → World → Option World
  | 0, _, _ => none
  | n + 1, newState, w => do
    let w ← match newState with
      | .scsInitialising | .scsNonResettableLatchingError | .scsLatchingError
      | .scsWaitingForInternalSafety | .scsWaitingForTractiveLoop | .scsWaitingForShutdownCircuit
      | .scsWaitingForPrechargeActivation => do
        let w ← ContactorController.pushState n .hvcAllOpen w
        some (w.emit .prechargeTimerStop)
      | .scsStartedPrecharge => do
        let w ← ContactorController.pushState n .hvcPrecharge w
        some (w.emit (.prechargeTimerStart prechargeMinimumTimeMillisec))
      | .scsPrechargeMinimumTimeExceeded => some w
      | .scsTractiveSystemRaceReady => ContactorController.pushState n .hvcHighCurrentRun w
    -- the state is written only after the contactor request has come back
    some (w.writeState newState)

end

end Ams
