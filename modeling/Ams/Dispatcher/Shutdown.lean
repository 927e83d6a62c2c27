import Ams.Dispatcher.Status
import Ams.Tractive.Latch

/-!
# What the status mask reports and what shuts the car down

The error light is a union of inputs, and `process_activated_states` is a chain of checks.  The two
look at the same inputs but for the stack voltages, which light the error and are not checked: the
conjunction in `is_plausible` is commented out (`shutdown_agrees_iff`).
-/

namespace Ams

open Reactive BMSController InsulationMonitoringDevice StackPlausibility StatusDispatcher

/-- The mask reports an AMS error, an insulation fault or no power at the contactors. -/
def ReportsShutdown (statusMask : BitVec 16) : Prop :=
  isSet statusMask statusErrorAms = true ∨ isSet statusMask statusErrorInsulationFault = true ∨
    isSet statusMask statusInfoAirPowerAvailable = false

/-- Both stack voltages are reported good. -/
def Pins.voltagesGood (pins : Pins) : Bool := undervoltageStatus pins && overvoltageStatus pins

theorem isSet_insulationFault (pins : Pins) :
    isSet (generateStatusMask pins) statusErrorInsulationFault = !imdStatus pins := by
  rw [statusErrorInsulationFault, isSet_flag (by decide), getLsbD_generateStatusMask _ (by decide)]
  simp

theorem isSet_airPowerAvailable (pins : Pins) :
    isSet (generateStatusMask pins) statusInfoAirPowerAvailable = contactorPowerStatus pins := by
  rw [statusInfoAirPowerAvailable, isSet_flag (by decide), getLsbD_generateStatusMask _ (by decide)]
  simp

/-- The error light is on unless the battery, the disconnects and both voltages are good. -/
theorem isSet_errorAms (pins : Pins) : isSet (generateStatusMask pins) statusErrorAms =
    !(bmsStatus pins && disconnectsStatus pins && pins.voltagesGood) := by
  rcases pins with ⟨bms, imd, undervoltage, overvoltage, disconnects, oor, complete, power⟩
  revert bms imd undervoltage overvoltage disconnects oor complete power
  decide +kernel

theorem reportsShutdown_iff (pins : Pins) : ReportsShutdown (generateStatusMask pins) ↔
    ¬ (pins.safe = true ∧ pins.voltagesGood = true) := by
  unfold ReportsShutdown Pins.safe isPlausible
  rw [isSet_errorAms, isSet_insulationFault, isSet_airPowerAvailable]
  cases bmsStatus pins <;> cases imdStatus pins <;> cases disconnectsStatus pins <;>
    cases contactorPowerStatus pins <;> cases pins.voltagesGood <;> simp

variable {p : Phase} {w w' : World} {pins : Pins}

/-- In the two states a step only watches the safety inputs. -/
theorem latches_iff (hp : p.Shows w)
    (hs : w.currentState = .scsStartedPrecharge ∨ w.currentState = .scsTractiveSystemRaceReady)
    (made : (Call.stateMachineProcessStep pins).Step w w') : Latched w' ↔ pins.safe = false := by
  have shown := (made.advances hp rfl).shows_next
  rw [hp.currentState] at hs
  have next : p.next ((Call.stateMachineProcessStep pins).stimulus w) =
      if pins.safe then p else .latched := by
    cases p with
    | waiting hold => cases hold <;> rcases hs with hs | hs <;> cases hs
    | latched | armed | precharged => rcases hs with hs | hs <;> cases hs
    | precharging | ready | stranded => rfl
  rw [next] at shown
  constructor
  · intro latched
    by_contra safe
    rw [if_pos (by simpa using safe)] at shown
    have state := latched.currentState
    rw [shown.currentState] at state
    rw [state] at hs
    rcases hs with hs | hs <;> cases hs
  · intro bad
    rw [bad] at shown
    exact latched_of_shows shown

/-- In the precharge and in race ready every step comes back.  It latches exactly when the mask of the
same readings reports an error or no power, unless the stack voltages are the only bad inputs. -/
theorem shutdown_agrees_iff (h : booted.Reachable w)
    (hs : w.currentState = .scsStartedPrecharge ∨ w.currentState = .scsTractiveSystemRaceReady)
    (pins : Pins) :
    (∃ w', (Call.stateMachineProcessStep pins).Step w w') ∧
      ∀ w', (Call.stateMachineProcessStep pins).Step w w' →
        ((Latched w' ↔ ReportsShutdown (generateStatusMask pins)) ↔
          ¬ (pins.safe = true ∧ pins.voltagesGood = false)) := by
  refine ⟨returns_afterBoot h rfl, fun w' made => ?_⟩
  obtain ⟨p, hp⟩ := booted_shows h
  rw [latches_iff hp hs made, reportsShutdown_iff]
  cases pins.safe <;> cases pins.voltagesGood <;> simp

/-- The undisturbed start, ended by a step in race ready with the stack voltage too low. -/
def undervoltageStep : Transition World Call where
  src := (finalStep .allGood).dst
  label := .stateMachineProcessStep { Pins.allGood with batteryUndervoltage := false }
  dst := (Call.stateMachineProcessStep { Pins.allGood with batteryUndervoltage := false }).result
    (finalStep .allGood).dst

theorem shutdown_agrees_iff_ready :
    (finalStep .allGood).dst.currentState = .scsTractiveSystemRaceReady ∧
    (∃ w', (Call.stateMachineProcessStep .allGood).Step (finalStep .allGood).dst w') ∧
      ∀ w', (Call.stateMachineProcessStep .allGood).Step (finalStep .allGood).dst w' →
        ((Latched w' ↔ ReportsShutdown (generateStatusMask .allGood)) ↔
          ¬ (Pins.allGood.safe = true ∧ Pins.allGood.voltagesGood = false)) :=
  ⟨rfl, shutdown_agrees_iff execution_ready.reachable (.inr rfl) .allGood⟩

/-- A stack under-voltage lights the AMS error and leaves the contactors closed. -/
theorem not_latched_undervoltage :
    booted.Execution (startRun ++ [finalStep .allGood] ++ [undervoltageStep]) undervoltageStep.dst ∧
      isSet (generateStatusMask { Pins.allGood with batteryUndervoltage := false })
        statusErrorAms = true ∧
      undervoltageStep.dst.prechargeContactorCoil = true ∧
      undervoltageStep.dst.runContactorCoil = true ∧
      ¬ (Latched undervoltageStep.dst ↔
        ReportsShutdown (generateStatusMask { Pins.allGood with batteryUndervoltage := false })) := by
  refine ⟨execution_ready.snoc ⟨rfl, Call.step_result _ fun _ => rfl⟩, by decide, rfl, rfl, ?_⟩
  rw [reportsShutdown_iff]
  intro agrees
  have latched := agrees.2 (by decide)
  exact absurd latched.currentState (by decide)

end Ams
