import Ams.Controller.Actions
import Ams.Tractive.Refinement

/-!
# Monitoring the contactors

A toggle of a coil starts its error timer, whose callback sets the `fireonce` flag and checks the
auxiliary feedback of the contactors against the coils.  The check itself is commented out in the
source, so no hardware error is ever reported (`hardwareError_eq_false`) and a stuck contactor goes
unnoticed.
-/

namespace Ams

open Reactive ContactorController StateControllerEvent

namespace World

def fireonce (w : World) : Coil → Bool
  | .precharge => w.prechargeFireonce
  | .run => w.runFireonce

def setFireonce (k : Coil) (w : World) : World :=
  match k with
  | .precharge => { w with prechargeFireonce := true }
  | .run => { w with runFireonce := true }

end World

/-- The levels of the auxiliary feedback pins. -/
structure Feedback where
  precharge : Bool
  run : Bool
  deriving DecidableEq, Repr

namespace ContactorController

def pcFeedbackStatus (pins : Feedback) : Bool := pins.precharge

def runFeedbackStatus (pins : Feedback) : Bool := pins.run

def pcHwerrStatus (w : World) : Bool := w.prechargeHardwareError

def runHwerrStatus (w : World) : Bool := w.runHardwareError

/-- The whole body is commented out in the source. -/
def procedure (_pins : Feedback) (w : World) : World := w

/-- The callback of an error timer. -/
def toggleCb (k : Coil) (pins : Feedback) (w : World) : World := procedure pins (w.setFireonce k)

def prechargeToggleCb : Feedback → World → World := toggleCb .precharge

def runToggleCb : Feedback → World → World := toggleCb .run

end ContactorController

/-- The flag that the contactor of a coil reports. -/
def World.hardwareError (w : World) : Coil → Bool
  | .precharge => pcHwerrStatus w
  | .run => runHwerrStatus w

/-- The feedback status of the contactor of a coil. -/
def Feedback.status (pins : Feedback) : Coil → Bool
  | .precharge => pcFeedbackStatus pins
  | .run => runFeedbackStatus pins

inductive MonitorCall where
  | call (c : Call)
  /-- a round of the cyclic task -/
  | procedure (pins : Feedback)
  | prechargeToggleCb (pins : Feedback)
  | runToggleCb (pins : Feedback)
  deriving DecidableEq, Repr

inductive MonitorStep : World → MonitorCall → World → Prop where
  | call {w w' : World} {c : Call} : c.afterBoot = true → c.Step w w' → MonitorStep w (.call c) w'
  | procedure {w : World} (pins : Feedback) : MonitorStep w (.procedure pins)
      (ContactorController.procedure pins { w with trace := [] })
  | prechargeToggleCb {w : World} (pins : Feedback) : MonitorStep w (.prechargeToggleCb pins)
      (ContactorController.prechargeToggleCb pins { w with trace := [] })
  | runToggleCb {w : World} (pins : Feedback) : MonitorStep w (.runToggleCb pins)
      (ContactorController.runToggleCb pins { w with trace := [] })

/-- The running tasks with the task of the contactor controller and its timers, as
`ContactorController::initialise` leaves the flags. -/
def monitored : System World MonitorCall where
  init w := Booted w ∧ ∀ k, w.fireonce k = false ∧ w.hardwareError k = false
  step := MonitorStep

/-! ## Stuck contactors -/

/-- The feedback read by the call of `procedure`, if the operation makes one. -/
def MonitorCall.pins : MonitorCall → Option Feedback
  | call _ => none
  | procedure pins | prechargeToggleCb pins | runToggleCb pins => some pins

/-- The world in which `procedure` is entered. -/
def MonitorCall.entered (w : World) : MonitorCall → World
  | prechargeToggleCb _ => w.setFireonce .precharge
  | runToggleCb _ => w.setFireonce .run
  | _ => w

/-- The coil has had its settle time and the feedback differs from it. -/
def Mismatch (k : Coil) (pins : Feedback) (w : World) : Prop :=
  w.fireonce k = true ∧ pins.status k ≠ w.coil k

/-- The hardware error is reported, and the contactors are open for good. -/
structure Detected (k : Coil) (w : World) : Prop where
  hardwareError : w.hardwareError k = true
  contactorState : w.contactorState = .hvcLatchingMechanicalError
  coil : ∀ k, w.coil k = false
  currentState : w.currentState.energised = false
  /-- until `initialise` is called no call closes a coil -/
  stays : ∀ ts w', powerOn.Run w ts w' → (∀ τ ∈ ts, τ.label ≠ .contactorControllerInitialise) →
    ∀ τ ∈ ts, ∀ k, .coilWrite k true ∉ τ.dst.trace

/-- Each contactor that the operation checks and finds different from its coil is detected. -/
def Detects (τ : Transition World MonitorCall) : Prop :=
  ∀ pins, τ.label.pins = some pins → ∀ k, Mismatch k pins (τ.label.entered τ.src) → Detected k τ.dst

/-! ## The flags -/

variable {w w' : World} {k : Coil} {c : Call} {ts : List (Transition World MonitorCall)}
  {τ : Transition World MonitorCall}

theorem syncCoils_hardwareError (w : World) (k : Coil) :
    (syncCoils w).hardwareError k = w.hardwareError k := by
  unfold syncCoils saveRunToggle savePrechargeToggle
  cases k <;> split_ifs <;> rfl

/-- No action writes the flags of the hardware errors. -/
theorem Act.hardwareError (act : Act w w') (k : Coil) : w'.hardwareError k = w.hardwareError k := by
  cases act with
  | sync follows =>
    rw [syncCoils_hardwareError]
    cases k <;> rfl
  | _ => cases k <;> rfl

theorem Acts.hardwareError (acts : Acts w w') (k : Coil) :
    w'.hardwareError k = w.hardwareError k :=
  acts.invariant (I := fun v => v.hardwareError k = w.hardwareError k)
    (fun _ _ hv act => (act.hardwareError k).trans hv) rfl

theorem MonitorStep.hardwareError {a : MonitorCall} (made : MonitorStep w a w') (k : Coil) :
    w'.hardwareError k = w.hardwareError k := by
  cases made with
  | call hc made =>
    rw [(made.acts (Call.setsContactors_of_afterBoot hc)).hardwareError]
    cases k <;> rfl
  | procedure pins => cases k <;> rfl
  | prechargeToggleCb pins => cases k <;> rfl
  | runToggleCb pins => cases k <;> rfl

/-- No hardware error is ever reported. -/
theorem hardwareError_eq_false (h : monitored.Reachable w) (k : Coil) :
    w.hardwareError k = false :=
  h.invariant (I := fun w => w.hardwareError k = false) (fun _ init => (init.2 k).2)
    fun _ _ _ unset made => (MonitorStep.hardwareError made k).trans unset

/-! ## Detection -/

/-- A call of `procedure` does what it is for exactly when no contactor that has settled differs from
its coil. -/
theorem detects_iff (exec : monitored.Execution ts w) (taken : τ ∈ ts) :
    Detects τ ↔ ∀ pins, τ.label.pins = some pins →
      ∀ k, ¬ Mismatch k pins (τ.label.entered τ.src) := by
  obtain ⟨-, -, after⟩ := exec.reachable_of_mem taken
  constructor
  · intro detects pins checked k mismatch
    have reported := (detects pins checked k mismatch).hardwareError
    rw [hardwareError_eq_false after k] at reported
    cases reported
  · exact fun none pins checked k mismatch => absurd mismatch (none pins checked k)

/-- The undisturbed start as far as the closed precharge contactor. -/
def World.precharging : World := (startCalls.take 3).foldl (fun w c => c.result w) .mainDone

theorem execution_precharging : ∃ ts, monitored.Execution ts .precharging := by
  have start : monitored.Execution [] .mainDone :=
    .init ⟨mainDone_booted, fun k => by cases k <;> exact ⟨rfl, rfl⟩⟩
  have waited := start.snoc
    (.call rfl (Call.step_result (.stateMachineProcessStep .allGood) fun _ => rfl))
  have enabled := waited.snoc (.call rfl (Call.step_result (.pushTractiveEnable true) fun _ => rfl))
  have closed := enabled.snoc
    (.call rfl (Call.step_result (.stateMachineProcessStep .allGood) fun _ => rfl))
  exact ⟨_, closed⟩

/-- The precharge contactor has not closed in its settle time. -/
def stuckCallback : Transition World MonitorCall where
  src := .precharging
  label := .prechargeToggleCb ⟨false, false⟩
  dst := prechargeToggleCb ⟨false, false⟩ { World.precharging with trace := [] }

theorem execution_stuckCallback : ∃ ts, monitored.Execution (ts ++ [stuckCallback])
    stuckCallback.dst := by
  obtain ⟨ts, exec⟩ := execution_precharging
  exact ⟨ts, exec.snoc (MonitorStep.prechargeToggleCb _)⟩

theorem detects_iff_stuckCallback : Detects stuckCallback ↔
    ∀ pins, stuckCallback.label.pins = some pins →
      ∀ k, ¬ Mismatch k pins (stuckCallback.label.entered stuckCallback.src) := by
  obtain ⟨ts, exec⟩ := execution_stuckCallback
  exact detects_iff exec (by simp)

theorem not_detects_stuckCallback : (∃ ts, monitored.Execution (ts ++ [stuckCallback])
    stuckCallback.dst) ∧ ¬ Detects stuckCallback := by
  refine ⟨execution_stuckCallback, fun detects => ?_⟩
  have mismatch : Mismatch .precharge ⟨false, false⟩
      (stuckCallback.label.entered stuckCallback.src) := ⟨rfl, by decide⟩
  exact absurd (detects _ rfl .precharge mismatch).hardwareError (by decide)

end Ams
