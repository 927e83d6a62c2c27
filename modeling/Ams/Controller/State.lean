import Mathlib.Data.Nat.Basic

/-!
# The state of the controllers

The enumerations and constants of `ContactorController.hpp` and `StateController.hpp`, the input
pins with the status functions that read them, and `World`: the static variables of the two
controllers together with the actions that the current operation has performed on the outside
(`Effect`), oldest first.
-/

namespace Ams

/-! ## Contactors -/

def hvcMaskPrecharge : ℕ := 1 <<< 2

def hvcMaskRun : ℕ := 1 <<< 3

/-- `contactor_state_t`. -/
inductive ContactorState where
  | hvcInitialising
  | hvcLatchingMechanicalError
  | hvcAllOpen
  | hvcPrecharge
  | hvcHighCurrentRun
  deriving DecidableEq, Repr

namespace ContactorState

/-- The value of the enumerator. -/
def code : ContactorState → ℕ
  | hvcInitialising => 0
  | hvcLatchingMechanicalError => 1
  | hvcAllOpen => 2
  | hvcPrecharge => hvcMaskPrecharge
  | hvcHighCurrentRun => hvcMaskPrecharge ||| hvcMaskRun

instance : LE ContactorState := ⟨fun a b => a.code ≤ b.code⟩

instance : LT ContactorState := ⟨fun a b => a.code < b.code⟩

instance (a b : ContactorState) : Decidable (a ≤ b) := inferInstanceAs (Decidable (a.code ≤ b.code))

instance (a b : ContactorState) : Decidable (a < b) := inferInstanceAs (Decidable (a.code < b.code))

/-- `current_state & HVC_MASK_PRECHARGE`, as the level written to the precharge coil. -/
def drivesPrecharge (s : ContactorState) : Bool := s.code &&& hvcMaskPrecharge != 0

/-- `current_state & HVC_MASK_RUN`, as the level written to the run coil. -/
def drivesRun (s : ContactorState) : Bool := s.code &&& hvcMaskRun != 0

theorem not_allOpen_le_iff (s : ContactorState) :
    ¬ hvcAllOpen ≤ s ↔ s = hvcInitialising ∨ s = hvcLatchingMechanicalError := by
  cases s <;> decide

end ContactorState

def prechargeTimePullinMs : ℕ := 300

def prechargeTimePulloutMs : ℕ := 300

def runTimePullinMs : ℕ := prechargeTimePullinMs

def runTimePulloutMs : ℕ := prechargeTimePulloutMs

/-! ## The state controller -/

/-- `state_controller_state_t`. -/
inductive StateControllerState where
  | scsNonResettableLatchingError
  | scsLatchingError
  | scsInitialising
  | scsWaitingForInternalSafety
  | scsWaitingForTractiveLoop
  | scsWaitingForShutdownCircuit
  | scsWaitingForPrechargeActivation
  | scsStartedPrecharge
  | scsPrechargeMinimumTimeExceeded
  | scsTractiveSystemRaceReady
  deriving DecidableEq, Repr

namespace StateControllerState

/-- The value of the enumerator. -/
def code : StateControllerState → ℕ
  | scsNonResettableLatchingError => 0
  | scsLatchingError => 1
  | scsInitialising => 2
  | scsWaitingForInternalSafety => 3
  | scsWaitingForTractiveLoop => 4
  | scsWaitingForShutdownCircuit => 5
  | scsWaitingForPrechargeActivation => 6
  | scsStartedPrecharge => 7
  | scsPrechargeMinimumTimeExceeded => 8
  | scsTractiveSystemRaceReady => 9

instance : LE StateControllerState := ⟨fun a b => a.code ≤ b.code⟩

instance : LT StateControllerState := ⟨fun a b => a.code < b.code⟩

instance (a b : StateControllerState) : Decidable (a ≤ b) :=
  inferInstanceAs (Decidable (a.code ≤ b.code))

instance (a b : StateControllerState) : Decidable (a < b) :=
  inferInstanceAs (Decidable (a.code < b.code))

/-- The states whose case of `transition_state` asks for `hvcAllOpen` and stops the timer. -/
def opens : StateControllerState → Bool
  | scsStartedPrecharge | scsPrechargeMinimumTimeExceeded | scsTractiveSystemRaceReady => false
  | _ => true

/-- The states in which `process_activated_states` is consulted. -/
def energised (s : StateControllerState) : Bool := !s.opens

end StateControllerState

/-- `state_controller_event_t`. -/
inductive StateControllerEvent where
  | sceCANBusIntegrityError
  | sceStackPlausibilityError
  | sceHardwareOvercurrentError
  | sceInsulationMonitoringDeviceError
  | sceBatteryManagementSystemError
  | sceContactorHardwareFaultError
  | sceContactorSequenceError
  | sceDriverEnablesTractiveSystem
  | sceDriverDeactivatesTractiveSystem
  deriving DecidableEq, Repr

/-- The seven error codes. -/
def StateControllerEvent.isError : StateControllerEvent → Bool
  | sceDriverEnablesTractiveSystem | sceDriverDeactivatesTractiveSystem => false
  | _ => true

def prechargeMinimumTimeMillisec : ℕ := 1000 * 5

/-! ## Input pins -/

/-- The levels of the input pins. -/
structure Pins where
  bmsOk : Bool
  imdSignal : Bool
  batteryUndervoltage : Bool
  batteryOvervoltage : Bool
  serviceDisconnects : Bool
  prechargeOor : Bool
  precharge99 : Bool
  contactorPower : Bool
  deriving DecidableEq, Repr

def BMSController.bmsStatus (pins : Pins) : Bool := pins.bmsOk

def InsulationMonitoringDevice.imdStatus (pins : Pins) : Bool := !pins.imdSignal

namespace StackPlausibility

def undervoltageStatus (pins : Pins) : Bool := pins.batteryUndervoltage

def overvoltageStatus (pins : Pins) : Bool := pins.batteryOvervoltage

def disconnectsStatus (pins : Pins) : Bool := !pins.serviceDisconnects

def prechargeOorStatus (pins : Pins) : Bool := pins.prechargeOor

def precharge99Status (pins : Pins) : Bool := pins.precharge99

def contactorPowerStatus (pins : Pins) : Bool := !pins.contactorPower

/-- The conjunction of the voltage and disconnect checks is commented out in the source. -/
def isPlausible (_pins : Pins) : Bool := true

end StackPlausibility

/-! ## The world -/

inductive Coil where
  | precharge
  | run
  deriving DecidableEq, Repr

/-- The level of a coil in the contactor state `s`. -/
def ContactorState.drives (s : ContactorState) : Coil → Bool
  | .precharge => s.drivesPrecharge
  | .run => s.drivesRun

/-- What an operation does to its surroundings. -/
inductive Effect where
  /-- a coil output is written -/
  | coilWrite (coil : Coil) (level : Bool)
  /-- `precharge_error_timer.start` or `run_error_timer.start` -/
  | errorTimerStart (coil : Coil) (millisec : ℕ)
  | prechargeTimerStart (millisec : ℕ)
  | prechargeTimerStop
  /-- `StateController::current_state` is written -/
  | stateWrite (state : StateControllerState)
  /-- `notify_event` is entered -/
  | eventNotified (event : StateControllerEvent)
  /-- `m_thread.signal_set(SIGNAL_STATE_CONTROLLER_INTERRUPT)` -/
  | signalSet
  deriving DecidableEq, Repr

/-- The static variables of the controllers and the effects of the current operation. -/
structure World where
  /-- `ContactorController::current_state` -/
  contactorState : ContactorState
  prechargeContactorCoil : Bool
  runContactorCoil : Bool
  prechargeFireonce : Bool
  prechargeHardwareError : Bool
  runFireonce : Bool
  runHardwareError : Bool
  /-- `StateController::current_state` -/
  currentState : StateControllerState
  tractivePowerEnableBit : Bool
  trace : List Effect
  deriving DecidableEq, Repr

namespace World

def coil (w : World) : Coil → Bool
  | .precharge => w.prechargeContactorCoil
  | .run => w.runContactorCoil

def emit (e : Effect) (w : World) : World := { w with trace := w.trace ++ [e] }

/-- An assignment to `ContactorController::current_state`. -/
def writeContactor (s : ContactorState) (w : World) : World := { w with contactorState := s }

/-- The assignment `current_state = new_state` at the end of `transition_state`. -/
def writeState (s : StateControllerState) (w : World) : World :=
  { w with currentState := s }.emit (.stateWrite s)

/-- The values of the static initialisers. -/
def powerOn : World where
  contactorState := .hvcInitialising
  prechargeContactorCoil := false
  runContactorCoil := false
  prechargeFireonce := false
  prechargeHardwareError := false
  runFireonce := false
  runHardwareError := false
  currentState := .scsInitialising
  tractivePowerEnableBit := false
  trace := []

end World

end Ams
