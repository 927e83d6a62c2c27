import Ams.Controller.Sequencing
import Ams.Lib.Run

/-!
# The operations of the controllers

The remaining functions of `StateController.cpp` and the initialisers, and the two transition
systems in which they run: `powerOn`, where every public operation may be called in any order from
the values of the static initialisers, and `booted`, where `main` has created all tasks and only the
running tasks call the controllers.
-/

namespace Ams

open Reactive BMSController InsulationMonitoringDevice StackPlausibility

namespace StateController

def initialise (n : ℕ) (w : World) : Option World :=
  transitionState n .scsWaitingForInternalSafety w

def prechargeTimerFire (n : ℕ) (w : World) : Option World :=
  if w.currentState = .scsStartedPrecharge then
    transitionState n .scsPrechargeMinimumTimeExceeded w
  else some w

theorem prechargeTimerFire_of_ne {n : ℕ} {w : World} (ne : w.currentState ≠ .scsStartedPrecharge) :
    prechargeTimerFire n w = some w := if_neg ne

/-- The part of `push_tractive_enable` under `tractive_power_enable_lock`. -/
def writeTractiveEnable (newVal : Bool) (w : World) : World :=
  { w with tractivePowerEnableBit := newVal }

/-- The event of a change of the enable bit to `newVal`. -/
def driverEvent (newVal : Bool) : StateControllerEvent :=
  if newVal then .sceDriverEnablesTractiveSystem else .sceDriverDeactivatesTractiveSystem

def pushTractiveEnable (n : ℕ) (newVal : Bool) (w : World) : Option World :=
  let transition := newVal != w.tractivePowerEnableBit
  let w := writeTractiveEnable newVal w
  if transition then notifyEvent n (driverEvent newVal) w else some w

theorem pushTractiveEnable_of_changed {n : ℕ} {newVal : Bool} {w : World}
    (changed : (newVal != w.tractivePowerEnableBit) = true) :
    pushTractiveEnable n newVal w =
      notifyEvent n (driverEvent newVal) (writeTractiveEnable newVal w) := if_pos changed

theorem pushTractiveEnable_of_same {n : ℕ} {newVal : Bool} {w : World}
    (same : ¬ (newVal != w.tractivePowerEnableBit) = true) :
    pushTractiveEnable n newVal w = some (writeTractiveEnable newVal w) := if_neg same

def processErrorStates (w : World) : World × Bool := (w, true)

def processWaitingStates (n : ℕ) (pins : Pins) (w : World) : Option (World × Bool) :=
  if !bmsStatus pins || !isPlausible pins then do
    let w ← transitionState n .scsWaitingForInternalSafety w
    some (w, false)
  else if !imdStatus pins || !disconnectsStatus pins then do
    let w ← transitionState n .scsWaitingForTractiveLoop w
    some (w, false)
  else if !contactorPowerStatus pins then do
    let w ← transitionState n .scsWaitingForShutdownCircuit w
    some (w, false)
  else some (w, true)

def processActivatedStates (n : ℕ) (pins : Pins) (w : World) : Option (World × Bool) :=
  if !bmsStatus pins || !isPlausible pins then do
    let w ← transitionState n .scsLatchingError w
    some (w, false)
  else if !imdStatus pins || !disconnectsStatus pins then do
    let w ← transitionState n .scsLatchingError w
    some (w, false)
  else if !contactorPowerStatus pins then do
    let w ← transitionState n .scsLatchingError w
    some (w, false)
  else some (w, true)

/-- The switch is on the state at the beginning of the step.  The enable bit is read at most once, so a
write of it that falls into the step is as good as one before or after the step. -/
def stateMachineProcessStep (n : ℕ) (pins : Pins) (w : World) : Option World :=
  match w.currentState with
  | .scsInitialising => some w
  | .scsNonResettableLatchingError | .scsLatchingError => some (processErrorStates w).1
  | .scsWaitingForInternalSafety | .scsWaitingForTractiveLoop | .scsWaitingForShutdownCircuit => do
    let (w, ok) ← processWaitingStates n pins w
    if w.tractivePowerEnableBit then transitionState n .scsLatchingError w
    else if ok then transitionState n .scsWaitingForPrechargeActivation w
    else some w
  | .scsWaitingForPrechargeActivation => do
    let (w, ok) ← processWaitingStates n pins w
    if ok && w.tractivePowerEnableBit then transitionState n .scsStartedPrecharge w
    else some w
  | .scsStartedPrecharge => do
    let (w, _) ← processActivatedStates n pins w
    some w
  | .scsPrechargeMinimumTimeExceeded => do
    -- the result is not looked at
    let (w, _) ← processActivatedStates n pins w
    if precharge99Status pins && prechargeOorStatus pins then
      transitionState n .scsTractiveSystemRaceReady w
    else transitionState n .scsLatchingError w
  | .scsTractiveSystemRaceReady => do
    let (w, _) ← processActivatedStates n pins w
    some w

end StateController

def ContactorController.initialise (w : World) : World :=
  { w with
    contactorState := .hvcAllOpen
    prechargeFireonce := false
    prechargeHardwareError := false
    runFireonce := false
    runHardwareError := false }

/-! ## Calls -/

/-- The outermost operations.  `writeTractiveEnable` is the first half of `push_tractive_enable`
alone: `notify_event` may follow it after operations of other tasks. -/
inductive Call where
  | stateControllerInitialise
  | contactorControllerInitialise
  | stateMachineProcessStep (pins : Pins)
  | pushTractiveEnable (newVal : Bool)
  | writeTractiveEnable (newVal : Bool)
  | notifyEvent (ev : StateControllerEvent)
  | prechargeTimerFire
  | pushState (newState : ContactorState)
  deriving DecidableEq, Repr

namespace Call

def exec (n : ℕ) : Call → World → Option World
  | stateControllerInitialise, w => StateController.initialise n w
  | contactorControllerInitialise, w => some (ContactorController.initialise w)
  | stateMachineProcessStep pins, w => StateController.stateMachineProcessStep n pins w
  | pushTractiveEnable newVal, w => StateController.pushTractiveEnable n newVal w
  | writeTractiveEnable newVal, w => some (StateController.writeTractiveEnable newVal w)
  | notifyEvent ev, w => StateController.notifyEvent n ev w
  | prechargeTimerFire, w => StateController.prechargeTimerFire n w
  | pushState newState, w => ContactorController.pushState n newState w

/-- The call, made in `w`, returns and leaves `w'`, whose trace holds the effects of this call. -/
def Step (c : Call) (w w' : World) : Prop := Returns (fun n => c.exec n { w with trace := [] }) w'

/-- The world that the call leaves behind when eight nested calls are enough for it. -/
def result (c : Call) (w : World) : World := (c.exec 8 { w with trace := [] }).getD w

/-- The calls that the running tasks make once all of them have been created. -/
def afterBoot : Call → Bool
  | stateControllerInitialise | contactorControllerInitialise | pushState _ => false
  | _ => true

theorem step_unique (c : Call) {w u v : World} (hu : c.Step w u) (hv : c.Step w v) : u = v :=
  Returns.unique hu hv

theorem step_result (c : Call) {w : World}
    (h : ∀ n, c.exec (n + 8) { w with trace := [] } = some (c.result w)) : c.Step w (c.result w) :=
  returns_of_add 8 h

end Call

/-- What `main` leaves behind; the enable bit may have been written by a command meanwhile. -/
structure Booted (w : World) : Prop where
  contactorState : w.contactorState = .hvcAllOpen
  prechargeContactorCoil : w.prechargeContactorCoil = false
  runContactorCoil : w.runContactorCoil = false
  currentState : w.currentState = .scsWaitingForInternalSafety

/-- Every public operation, in any order, from power-on. -/
def powerOn : System World Call where
  init w := w = World.powerOn
  step w c w' := c.Step w w'

/-- The operations of the running tasks, in any order, after the start-up. -/
def booted : System World Call where
  init := Booted
  step w c w' := c.afterBoot = true ∧ c.Step w w'

end Ams
