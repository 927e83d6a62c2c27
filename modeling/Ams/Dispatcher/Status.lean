import Ams.Tractive.Enable

/-!
# The status mask

`StatusDispatcher::generate_status_mask` reads the pins through the same status functions as the
state machine.  Every bit of the mask is one input, but for the error light, which is a union of
others (`getLsbD_generateStatusMask`).
-/

namespace Ams

open Reactive BMSController InsulationMonitoringDevice StackPlausibility

namespace StatusDispatcher

def statusErrorInsulationFault : BitVec 16 := .ofNat 16 (1 <<< 0)

def statusErrorAms : BitVec 16 := .ofNat 16 (1 <<< 1)

def statusErrorStackUndervoltage : BitVec 16 := .ofNat 16 (1 <<< 2)

def statusErrorStackOvervoltage : BitVec 16 := .ofNat 16 (1 <<< 3)

def statusErrorServiceDisconnects : BitVec 16 := .ofNat 16 (1 <<< 4)

def statusErrorHardwareOvercurrent : BitVec 16 := .ofNat 16 (1 <<< 5)

def statusBmsCellOvervoltage : BitVec 16 := .ofNat 16 (1 <<< 7)

def statusBmsCellUndervoltage : BitVec 16 := .ofNat 16 (1 <<< 8)

def statusBmsCellOvertemp : BitVec 16 := .ofNat 16 (1 <<< 9)

def statusBmsCellUndertemp : BitVec 16 := .ofNat 16 (1 <<< 10)

def statusBmsCellOpenCircuit : BitVec 16 := .ofNat 16 (1 <<< 11)

def statusInfoPrechargeOutofrange : BitVec 16 := .ofNat 16 (1 <<< 12)

def statusInfoPrecharge99 : BitVec 16 := .ofNat 16 (1 <<< 13)

def statusInfoAirPowerAvailable : BitVec 16 := .ofNat 16 (1 <<< 14)

/-- `if (condition) status_mask |= flag`. -/
def raise (condition : Bool) (flag statusMask : BitVec 16) : BitVec 16 :=
  if condition then statusMask ||| flag else statusMask

/-- The five bits of the battery management system. -/
def statusBms : BitVec 16 :=
  statusBmsCellOvervoltage ||| statusBmsCellUndervoltage ||| statusBmsCellUndertemp |||
    statusBmsCellOvertemp ||| statusBmsCellOpenCircuit

/-- The bits whose union is the error light. -/
def statusAmsCauses : BitVec 16 :=
  statusErrorStackUndervoltage ||| statusErrorStackOvervoltage ||| statusErrorServiceDisconnects |||
    statusErrorHardwareOvercurrent ||| statusBms

def generateStatusMask (pins : Pins) : BitVec 16 :=
  let statusMask : BitVec 16 := 0
  let statusMask := raise (!imdStatus pins) statusErrorInsulationFault statusMask
  let statusMask := raise (!undervoltageStatus pins) statusErrorStackUndervoltage statusMask
  let statusMask := raise (!overvoltageStatus pins) statusErrorStackOvervoltage statusMask
  let statusMask := raise (!disconnectsStatus pins) statusErrorServiceDisconnects statusMask
  let statusMask := raise (prechargeOorStatus pins) statusInfoPrechargeOutofrange statusMask
  let statusMask := raise (precharge99Status pins) statusInfoPrecharge99 statusMask
  let statusMask := raise (contactorPowerStatus pins) statusInfoAirPowerAvailable statusMask
  let statusMask := raise (!bmsStatus pins) statusBms statusMask
  raise (statusMask &&& statusAmsCauses != 0) statusErrorAms statusMask

theorem getLsbD_raise (condition : Bool) (flag statusMask : BitVec 16) (i : ℕ) :
    (raise condition flag statusMask).getLsbD i =
      (statusMask.getLsbD i || (condition && flag.getLsbD i)) := by
  unfold raise
  cases condition <;> simp

theorem getLsbD_flag {n : ℕ} (hn : n < 16) (i : ℕ) :
    (BitVec.ofNat 16 (1 <<< n)).getLsbD i = decide (n = i) := by
  rw [BitVec.getLsbD_ofNat, Nat.shiftLeft_eq, Nat.one_mul, Nat.testBit_two_pow]
  by_cases h : n = i
  · simp [← h, hn]
  · simp [h]

/-- The bits of the battery management system are `7` to `11`. -/
theorem getLsbD_statusBms (i : ℕ) : statusBms.getLsbD i = (decide (7 ≤ i) && decide (i < 12)) := by
  simp only [statusBms, statusBmsCellOvervoltage, statusBmsCellUndervoltage, statusBmsCellOvertemp,
    statusBmsCellUndertemp, statusBmsCellOpenCircuit, BitVec.getLsbD_or]
  rw [getLsbD_flag (by decide), getLsbD_flag (by decide), getLsbD_flag (by decide),
    getLsbD_flag (by decide), getLsbD_flag (by decide)]
  rw [Bool.eq_iff_iff]
  simp only [Bool.or_eq_true, Bool.and_eq_true, decide_eq_true_eq]
  omega

/-- Every bit but the error light is raised by the input it reports. -/
theorem getLsbD_generateStatusMask (pins : Pins) {i : ℕ} (hi : i ≠ 1) :
    (generateStatusMask pins).getLsbD i =
      ((!imdStatus pins && decide (0 = i)) || (!undervoltageStatus pins && decide (2 = i)) ||
        (!overvoltageStatus pins && decide (3 = i)) || (!disconnectsStatus pins && decide (4 = i)) ||
        (prechargeOorStatus pins && decide (12 = i)) || (precharge99Status pins && decide (13 = i)) ||
        (contactorPowerStatus pins && decide (14 = i)) ||
        (!bmsStatus pins && (decide (7 ≤ i) && decide (i < 12)))) := by
  simp only [generateStatusMask, getLsbD_raise, getLsbD_statusBms, statusErrorInsulationFault,
    statusErrorAms, statusErrorStackUndervoltage, statusErrorStackOvervoltage,
    statusErrorServiceDisconnects, statusInfoPrechargeOutofrange, statusInfoPrecharge99,
    statusInfoAirPowerAvailable]
  rw [getLsbD_flag (by decide), getLsbD_flag (by decide), getLsbD_flag (by decide),
    getLsbD_flag (by decide), getLsbD_flag (by decide), getLsbD_flag (by decide),
    getLsbD_flag (by decide), getLsbD_flag (by decide)]
  simp [hi.symm]

/-- One of the bits of `flag` is set in the mask. -/
def isSet (statusMask flag : BitVec 16) : Bool := statusMask &&& flag != 0

theorem isSet_flag {n : ℕ} (hn : n < 16) (statusMask : BitVec 16) :
    isSet statusMask (.ofNat 16 (1 <<< n)) = statusMask.getLsbD n := by
  have bit (i : ℕ) : (statusMask &&& .ofNat 16 (1 <<< n)).getLsbD i =
      (statusMask.getLsbD i && decide (n = i)) := by
    rw [BitVec.getLsbD_and, getLsbD_flag hn]
  cases h : statusMask.getLsbD n with
  | true =>
    have set := bit n
    rw [h] at set
    refine bne_iff_ne.2 fun zero => ?_
    rw [zero] at set
    simp at set
  | false =>
    have zero : statusMask &&& .ofNat 16 (1 <<< n) = 0 := by
      refine BitVec.eq_of_getLsbD_eq fun i _ => ?_
      rw [bit]
      by_cases same : n = i
      · rw [← same, h]
        simp
      · simp [same]
    rw [isSet, zero]
    rfl

end StatusDispatcher

/-! ## The end of the precharge -/

open StatusDispatcher

/-- What the mask reports of a complete precharge. -/
def ReportsPrecharged (statusMask : BitVec 16) : Prop :=
  isSet statusMask statusInfoPrecharge99 = true ∧
    isSet statusMask statusInfoPrechargeOutofrange = false

theorem isSet_precharge99 (pins : Pins) :
    isSet (generateStatusMask pins) statusInfoPrecharge99 = precharge99Status pins := by
  rw [statusInfoPrecharge99, isSet_flag (by decide), getLsbD_generateStatusMask _ (by decide)]
  simp

theorem isSet_prechargeOutofrange (pins : Pins) :
    isSet (generateStatusMask pins) statusInfoPrechargeOutofrange = prechargeOorStatus pins := by
  rw [statusInfoPrechargeOutofrange, isSet_flag (by decide),
    getLsbD_generateStatusMask _ (by decide)]
  simp

/-- Every step that enters race ready, whatever the coils do, reads pins that the status frame
reports as out of range. -/
theorem ready_out_of_range {w : World} {ts : List (Transition World Call)}
    (exec : booted.Execution ts w) {τ : Transition World Call} (taken : τ ∈ ts) {pins : Pins}
    (step : τ.label = .stateMachineProcessStep pins)
    (entry : .stateWrite .scsTractiveSystemRaceReady ∈ τ.dst.trace) :
    isSet (generateStatusMask pins) statusInfoPrecharge99 = true ∧
      isSet (generateStatusMask pins) statusInfoPrechargeOutofrange = true ∧
      ¬ ReportsPrecharged (generateStatusMask pins) := by
  obtain ⟨p, hp, advanced⟩ := advances_of_mem exec taken
  rw [advanced.trace] at entry
  rcases (p.outcome _).entry rfl entry with ⟨other, -⟩ | ⟨other, -⟩ | ⟨-, -, pins', b, sampled, done⟩
  · cases other
  · cases other
  obtain ⟨same, -⟩ := stimulus_eq_sample.1 sampled
  obtain rfl : pins = pins' := by simpa [step] using same
  obtain ⟨complete, outOfRange⟩ := Bool.and_eq_true_iff.1 done
  refine ⟨(isSet_precharge99 pins).trans complete,
    (isSet_prechargeOutofrange pins).trans outOfRange, fun reports => ?_⟩
  rw [ReportsPrecharged, isSet_prechargeOutofrange, outOfRange] at reports
  cases reports.2

theorem ready_out_of_range_start :
    (finalStep .allGood).dst.prechargeContactorCoil = true ∧
      (finalStep .allGood).dst.runContactorCoil = true ∧
      isSet (generateStatusMask .allGood) statusInfoPrecharge99 = true ∧
      isSet (generateStatusMask .allGood) statusInfoPrechargeOutofrange = true ∧
      ¬ ReportsPrecharged (generateStatusMask .allGood) :=
  ⟨rfl, rfl, ready_out_of_range execution_ready (τ := finalStep .allGood) (by simp) rfl (by decide)⟩

/-- The undisturbed start ends with both coils on and the precharge reported out of range. -/
theorem not_reportsPrecharged_allGood :
    booted.Execution (startRun ++ [finalStep .allGood]) (finalStep .allGood).dst ∧
      .stateWrite .scsTractiveSystemRaceReady ∈ (finalStep .allGood).dst.trace ∧
      (finalStep .allGood).dst.prechargeContactorCoil = true ∧
      (finalStep .allGood).dst.runContactorCoil = true ∧
      ¬ ReportsPrecharged (generateStatusMask .allGood) := by
  refine ⟨execution_ready, by decide, rfl, rfl, ?_⟩
  unfold ReportsPrecharged
  decide

end Ams
