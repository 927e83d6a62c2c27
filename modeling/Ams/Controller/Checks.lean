import Ams.Controller.StateController

/-!
# The safety checks of a step

`process_waiting_states` and `process_activated_states` look at the same five inputs.  The first one
answers with the waiting state that the first bad input calls for (`Pins.hold`), the second one
latches.  A step is nothing, a transition, or a transition followed by another one, so what is closed
under these holds of a step (`StepClosed.step`).
-/

namespace Ams

open BMSController InsulationMonitoringDevice StackPlausibility StateController

/-- The five safety inputs are all good. -/
def Pins.safe (pins : Pins) : Bool :=
  bmsStatus pins && isPlausible pins && imdStatus pins && disconnectsStatus pins &&
    contactorPowerStatus pins

/-- Every input reports what it should, the precharge inputs the end of the precharge. -/
def Pins.allGood : Pins where
  bmsOk := true
  imdSignal := false
  batteryUndervoltage := true
  batteryOvervoltage := true
  serviceDisconnects := false
  prechargeOor := true
  precharge99 := true
  contactorPower := false

/-- The two precharge inputs that are checked before the run coil is asked for. -/
def Pins.precharged (pins : Pins) : Bool := precharge99Status pins && prechargeOorStatus pins

/-- The states in which the state machine waits for a safety input. -/
inductive Hold where
  | internalSafety
  | tractiveLoop
  | shutdownCircuit
  deriving DecidableEq, Repr

def Hold.state : Hold → StateControllerState
  | internalSafety => .scsWaitingForInternalSafety
  | tractiveLoop => .scsWaitingForTractiveLoop
  | shutdownCircuit => .scsWaitingForShutdownCircuit

theorem Hold.opens_state (h : Hold) : h.state.opens = true := by cases h <;> rfl

/-- What the first bad safety input holds the state machine at. -/
def Pins.hold (pins : Pins) : Option Hold :=
  if !bmsStatus pins || !isPlausible pins then some .internalSafety
  else if !imdStatus pins || !disconnectsStatus pins then some .tractiveLoop
  else if !contactorPowerStatus pins then some .shutdownCircuit
  else none

theorem Pins.safe_eq_isNone_hold (pins : Pins) : pins.safe = pins.hold.isNone := by
  unfold Pins.safe Pins.hold
  cases bmsStatus pins <;> cases isPlausible pins <;> cases imdStatus pins <;>
    cases disconnectsStatus pins <;> cases contactorPowerStatus pins <;> rfl

theorem Pins.hold_eq_none_iff (pins : Pins) : pins.hold = none ↔ pins.safe = true := by
  rw [pins.safe_eq_isNone_hold, Option.isNone_iff_eq_none]

/-- Only a bad battery signal holds the state machine at `scsWaitingForInternalSafety`. -/
theorem Pins.hold_eq_internalSafety_iff (pins : Pins) :
    pins.hold = some .internalSafety ↔ bmsStatus pins = false := by
  unfold Pins.hold isPlausible
  cases bmsStatus pins <;> cases imdStatus pins <;> cases disconnectsStatus pins <;>
    cases contactorPowerStatus pins <;> decide

variable (n : ℕ) (pins : Pins) (w : World)

theorem processWaitingStates_eq : processWaitingStates n pins w =
    match pins.hold with
    | none => some (w, true)
    | some h => (do
      let w ← transitionState n h.state w
      some (w, false)) := by
  unfold processWaitingStates Pins.hold
  split_ifs <;> rfl

theorem processActivatedStates_eq : processActivatedStates n pins w =
    if pins.safe = true then some (w, true) else (do
      let w ← transitionState n .scsLatchingError w
      some (w, false)) := by
  simp only [← pins.hold_eq_none_iff]
  unfold processActivatedStates Pins.hold
  split_ifs <;> first | rfl | contradiction

/-! ## The cases of a step -/

section Step

variable {w}

theorem step_idle (hs : w.currentState ≤ .scsInitialising) :
    stateMachineProcessStep n pins w = some w := by
  cases h : w.currentState <;> rw [h] at hs <;>
    first | exact absurd hs (by decide) | simp only [stateMachineProcessStep, h, processErrorStates]

theorem step_waiting {h : Hold} (hs : w.currentState = h.state) :
    stateMachineProcessStep n pins w =
      match pins.hold with
      | none => transitionState n
          (if w.tractivePowerEnableBit then .scsLatchingError
            else .scsWaitingForPrechargeActivation) w
      | some h' => (do
        let w ← transitionState n h'.state w
        if w.tractivePowerEnableBit then transitionState n .scsLatchingError w else some w) := by
  have unfolded : stateMachineProcessStep n pins w =
      processWaitingStates n pins w >>= fun x =>
        if x.1.tractivePowerEnableBit then transitionState n .scsLatchingError x.1
        else if x.2 then transitionState n .scsWaitingForPrechargeActivation x.1
        else some x.1 := by
    cases h <;> simp only [stateMachineProcessStep, hs, Hold.state]
  rw [unfolded, processWaitingStates_eq]
  cases pins.hold with
  | none =>
    simp only [Option.bind_eq_bind, Option.bind_some]
    split_ifs <;> rfl
  | some h' => simp [Option.bind_assoc]

theorem step_activation (hs : w.currentState = .scsWaitingForPrechargeActivation) :
    stateMachineProcessStep n pins w =
      match pins.hold with
      | none => if w.tractivePowerEnableBit then transitionState n .scsStartedPrecharge w else some w
      | some h => transitionState n h.state w := by
  simp only [stateMachineProcessStep, hs, processWaitingStates_eq]
  cases pins.hold <;> simp [Option.bind_assoc]

/-- In the precharge and in the race ready state the step only watches the safety inputs. -/
theorem step_watching (hs : w.currentState = .scsStartedPrecharge ∨
      w.currentState = .scsTractiveSystemRaceReady) :
    stateMachineProcessStep n pins w =
      if pins.safe = true then some w else transitionState n .scsLatchingError w := by
  rcases hs with hs | hs <;> simp only [stateMachineProcessStep, hs, processActivatedStates_eq] <;>
    split_ifs <;> simp [Option.bind_assoc]

/-- After the minimum time a second transition follows whatever the safety inputs gave. -/
theorem step_minimumTime (hs : w.currentState = .scsPrechargeMinimumTimeExceeded) :
    stateMachineProcessStep n pins w =
      (if pins.safe = true then some w else transitionState n .scsLatchingError w) >>= fun w =>
        transitionState n
          (if pins.precharged = true then .scsTractiveSystemRaceReady else .scsLatchingError) w := by
  simp only [stateMachineProcessStep, hs, processActivatedStates_eq]
  by_cases precharged : pins.precharged = true
  · have h : (precharge99Status pins && prechargeOorStatus pins) = true := precharged
    split_ifs <;> simp [Option.bind_assoc]
  · have h : ¬ (precharge99Status pins && prechargeOorStatus pins) = true := precharged
    split_ifs <;> simp [Option.bind_assoc]

end Step

/-! ## What a step is made of -/

/-- The transitions that a step makes from `v`. -/
def StepEnters (v : World) : StateControllerState → Prop
  | .scsStartedPrecharge => v.currentState = .scsWaitingForPrechargeActivation
  | .scsPrechargeMinimumTimeExceeded => False
  | .scsTractiveSystemRaceReady => v.currentState = .scsPrechargeMinimumTimeExceeded ∨
      v.currentState = .scsLatchingError
  | _ => True

theorem stepEnters_of_opens {v : World} {s : StateControllerState} (hs : s.opens = true) :
    StepEnters v s := by
  cases s <;> trivial

/-- A property of what is computed from a world, closed under what a step does: nothing, a
transition, or a transition and something else. -/
structure StepClosed (D : World → (ℕ → Option World) → Prop) : Prop where
  stay (w : World) : D w fun _ => some w
  enter {w : World} {s : StateControllerState} : StepEnters w s → D w fun n => transitionState n s w
  bind {w : World} {s : StateControllerState} {g : ℕ → World → Option World} : StepEnters w s →
    (∀ v, v.currentState = s → D v fun n => g n v) → D w fun n => transitionState n s w >>= g n

namespace StepClosed

variable {D : World → (ℕ → Option World) → Prop} (C : StepClosed D)

include C

theorem opens {s : StateControllerState} (hs : s.opens = true) (w : World) :
    D w fun n => transitionState n s w :=
  C.enter (stepEnters_of_opens hs)

theorem of_waiting {h : Hold} (hs : w.currentState = h.state) :
    D w fun n => stateMachineProcessStep n pins w := by
  simp only [step_waiting _ pins hs]
  cases pins.hold with
  | none => exact C.opens (by split_ifs <;> rfl) w
  | some h' =>
    refine C.bind (stepEnters_of_opens h'.opens_state) fun v _ => ?_
    split_ifs
    · exact C.opens rfl v
    · exact C.stay v

theorem of_activation (hs : w.currentState = .scsWaitingForPrechargeActivation) :
    D w fun n => stateMachineProcessStep n pins w := by
  simp only [step_activation _ pins hs]
  cases pins.hold with
  | some h' => exact C.opens h'.opens_state w
  | none =>
    dsimp only
    split_ifs
    · exact C.enter hs
    · exact C.stay w

theorem of_watching (hs : w.currentState = .scsStartedPrecharge ∨
    w.currentState = .scsTractiveSystemRaceReady) :
    D w fun n => stateMachineProcessStep n pins w := by
  simp only [step_watching _ pins hs]
  split_ifs
  · exact C.stay w
  · exact C.opens rfl w

theorem of_minimumTime (hs : w.currentState = .scsPrechargeMinimumTimeExceeded) :
    D w fun n => stateMachineProcessStep n pins w := by
  have second {v : World} (hv : v.currentState = .scsPrechargeMinimumTimeExceeded ∨
      v.currentState = .scsLatchingError) : D v fun n => transitionState n
        (if pins.precharged = true then .scsTractiveSystemRaceReady else .scsLatchingError) v := by
    split_ifs
    · exact C.enter hv
    · exact C.opens rfl v
  simp only [step_minimumTime _ pins hs]
  by_cases safe : pins.safe = true
  · simp only [if_pos safe]
    exact second (.inl hs)
  · simp only [if_neg safe]
    exact C.bind (stepEnters_of_opens rfl) fun v hv => second (.inr hv)

/-- A step has the property. -/
theorem step : D w fun n => stateMachineProcessStep n pins w := by
  cases hs : w.currentState
  case scsWaitingForInternalSafety => exact C.of_waiting pins w (h := .internalSafety) hs
  case scsWaitingForTractiveLoop => exact C.of_waiting pins w (h := .tractiveLoop) hs
  case scsWaitingForShutdownCircuit => exact C.of_waiting pins w (h := .shutdownCircuit) hs
  case scsWaitingForPrechargeActivation => exact C.of_activation pins w hs
  case scsStartedPrecharge => exact C.of_watching pins w (.inl hs)
  case scsTractiveSystemRaceReady => exact C.of_watching pins w (.inr hs)
  case scsPrechargeMinimumTimeExceeded => exact C.of_minimumTime pins w hs
  all_goals
    have idle : w.currentState ≤ .scsInitialising := by rw [hs]; decide
    simp only [step_idle _ pins idle]
    exact C.stay w

end StepClosed

end Ams
