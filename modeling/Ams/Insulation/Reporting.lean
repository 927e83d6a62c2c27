import Ams.Tractive.Refinement

/-!
# The insulation task

`InsulationMonitoringDevice::procedure` waits for a signal, reads the pin again and notifies the
insulation error if the pin is at its fault level.  The interrupt that sets the signal is attached to
the falling edge of the pin, but `imd_status` inverts the pin: the fault begins at the rising edge.
A fault is reported only when an earlier falling edge has woken the task up, or is about to
(`faults_reported_iff`).
-/

namespace Ams

open Reactive InsulationMonitoringDevice

inductive Edge where
  | rise
  | fall
  deriving DecidableEq, Repr

/-- Where the task is in its loop. -/
inductive InsulationPlace where
  /-- in `signal_wait` -/
  | waiting
  /-- the signal has come, and the pin has not been read since -/
  | woken
  /-- the pin has been read at its fault level -/
  | notifying
  deriving DecidableEq, Repr

structure Insulation where
  world : World
  pins : Pins
  /-- `SIGNAL_INSULATION_FAULT` of the thread -/
  signal : Bool
  place : InsulationPlace
  /-- the pin has changed since the task was initialised -/
  changed : Bool
  /-- the error has been notified since the last change of the pin -/
  notified : Bool

inductive InsulationAction where
  /-- the pin changes its level -/
  | change
  | wake
  | check
  | notify
  /-- an operation of another task -/
  | other (c : Call)
  deriving DecidableEq, Repr

/-- The other level of the pin. -/
def Pins.toggleImd (pins : Pins) : Pins := { pins with imdSignal := !pins.imdSignal }

/-- The edge on which the pin leaves its level. -/
def Pins.imdEdge (pins : Pins) : Edge := if pins.imdSignal then .fall else .rise

namespace InsulationMonitoringDevice

/-- `imd_signal.fall(&imd_interrupt)` in `initialise`. -/
def interruptEdge : Edge := .fall

def imdInterrupt (s : Insulation) : Insulation := { s with signal := true }

end InsulationMonitoringDevice

/-- A change of the pin, with the interrupt if it is attached to the edge. -/
def Insulation.change (s : Insulation) : Insulation :=
  let s' := { s with pins := s.pins.toggleImd, changed := true, notified := false }
  if s.pins.imdEdge = interruptEdge then imdInterrupt s' else s'

inductive InsulationStep : Insulation → InsulationAction → Insulation → Prop where
  | change {s : Insulation} : InsulationStep s .change s.change
  | wake {s : Insulation} : s.place = .waiting → s.signal = true →
      InsulationStep s .wake { s with signal := false, place := .woken }
  | check {s : Insulation} : s.place = .woken →
      InsulationStep s .check
        { s with place := if !imdStatus s.pins then .notifying else .waiting }
  | notify {s : Insulation} {w : World} : s.place = .notifying →
      (Call.notifyEvent .sceInsulationMonitoringDeviceError).Step s.world w →
      InsulationStep s .notify { s with world := w, place := .waiting, notified := true }
  | other {s : Insulation} {c : Call} {w : World} : c.afterBoot = true → c.Step s.world w →
      InsulationStep s (.other c) { s with world := w }

/-- The task, once initialised, with the pin at either level. -/
def insulation : System Insulation InsulationAction where
  init s := Booted s.world ∧ s.signal = false ∧ s.place = .waiting ∧ s.changed = false ∧
    s.notified = false
  step := InsulationStep

/-! ## Changes of the pin -/

/-- The change takes `imd_status` from true to false. -/
def FaultEdge (τ : Transition Insulation InsulationAction) : Prop :=
  τ.label = .change ∧ imdStatus τ.src.pins = true

/-- A fault that has lasted since the last change of the pin has been notified, if the task waits
without a signal. -/
def Insulation.Reported (s : Insulation) : Prop :=
  s.changed = true → imdStatus s.pins = false → s.signal = false → s.place = .waiting →
    s.notified = true

variable {s t : Insulation} {a : InsulationAction} {ts : List (Transition Insulation InsulationAction)}

/-- The interrupt does not run when a fault begins. -/
theorem change_of_status (h : imdStatus s.pins = true) : s.change =
    { s with pins := s.pins.toggleImd, changed := true, notified := false } := by
  have low : s.pins.imdSignal = false := by simpa [imdStatus] using h
  simp [Insulation.change, Pins.imdEdge, interruptEdge, low]

/-- The interrupt runs when a fault ends. -/
theorem change_of_fault (h : imdStatus s.pins = false) : s.change =
    { s with pins := s.pins.toggleImd, changed := true, notified := false, signal := true } := by
  have high : s.pins.imdSignal = true := by simpa [imdStatus] using h
  simp [Insulation.change, Pins.imdEdge, interruptEdge, imdInterrupt, high]

theorem signal_of_faultEdge (made : InsulationStep s .change t) (good : imdStatus s.pins = true) :
    t.signal = s.signal := by
  cases made with
  | change => rw [change_of_status good]

theorem notifying_of_check (made : InsulationStep s .check t) (fault : imdStatus s.pins = false) :
    t.place = .notifying := by
  cases made with
  | check => simp [fault]

theorem imdStatus_toggleImd (pins : Pins) : imdStatus pins.toggleImd = !imdStatus pins := rfl

/-! ## Invariants -/

/-- The fault that the task is about to notify has not ended, or its end is signalled. -/
def Insulation.Notifies (s : Insulation) : Prop :=
  s.place = .notifying → s.signal = false → imdStatus s.pins = false

theorem InsulationStep.notifies (made : InsulationStep s a t) (h : s.Notifies) : t.Notifies := by
  cases made with
  | change =>
    by_cases good : imdStatus s.pins = true
    · rw [change_of_status good]
      intro _ _
      rw [imdStatus_toggleImd, good]
      rfl
    · rw [change_of_fault (by simpa using good)]
      intro _ quiet
      cases quiet
  | wake => intro place; cases place
  | check =>
    intro place _
    dsimp only at place
    split_ifs at place with bad
    · simpa using bad
  | notify => intro place; cases place
  | other => exact h

theorem insulation_notifies (h : insulation.Reachable s) : s.Notifies := by
  refine h.invariant (I := Insulation.Notifies) ?_ fun s a t hs made => InsulationStep.notifies made hs
  rintro s ⟨-, -, place, -⟩ notifying
  rw [place] at notifying
  cases notifying

/-- A fault that has not been notified wakes the task up, or is about to be read. -/
def Insulation.Noticed (s : Insulation) : Prop :=
  s.changed = true → imdStatus s.pins = false → s.notified = false →
    s.signal = true ∨ s.place ≠ .waiting

theorem Insulation.Noticed.reported (h : s.Noticed) : s.Reported := by
  intro changed fault quiet waiting
  by_contra unnotified
  rcases h changed fault (by simpa using unnotified) with signal | place
  · rw [quiet] at signal
    cases signal
  · exact place waiting

/-- The condition on a change that begins a fault. -/
def WakesUp (τ : Transition Insulation InsulationAction) : Prop :=
  FaultEdge τ → τ.src.signal = true ∨ τ.src.place = .woken

theorem InsulationStep.noticed (made : InsulationStep s a t) (h : s.Noticed)
    (wakes : WakesUp ⟨s, a, t⟩) : t.Noticed := by
  cases made with
  | change =>
    by_cases good : imdStatus s.pins = true
    · rw [change_of_status good]
      intro _ _ _
      refine (wakes ⟨rfl, good⟩).imp_right fun woken => ?_
      have place : s.place = .woken := woken
      simp [place]
    · rw [change_of_fault (by simpa using good)]
      exact fun _ _ _ => .inl rfl
  | wake => exact fun _ _ _ => .inr (by simp)
  | check =>
    intro _ fault _
    refine .inr ?_
    have bad : imdStatus s.pins = false := fault
    simp [bad]
  | notify => intro _ _ unnotified; cases unnotified
  | other => exact h

/-- A fault that begins while the task waits without a signal is not reported. -/
theorem wakesUp_of_reported (before : insulation.Reachable s) (made : InsulationStep s a t)
    (reported : t.Reported) : WakesUp ⟨s, a, t⟩ := by
  rintro ⟨label, good⟩
  obtain rfl : a = .change := label
  dsimp only at good ⊢
  cases made with
  | change =>
    rw [change_of_status good] at reported
    cases signal : s.signal with
    | true => exact .inl rfl
    | false =>
      cases place : s.place with
      | woken => exact .inr rfl
      | waiting =>
        have fault : imdStatus s.pins.toggleImd = false := by rw [imdStatus_toggleImd, good]; rfl
        cases reported rfl fault signal place
      | notifying =>
        have fault := insulation_notifies before place signal
        rw [good] at fault
        cases fault

/-! ## Runs -/

theorem reported_run_iff (exec : insulation.Execution ts s) :
    (∀ τ ∈ ts, τ.dst.Reported) ↔ ∀ τ ∈ ts, WakesUp τ := by
  refine ⟨fun reported τ taken => ?_, fun wakes τ taken => ?_⟩
  · obtain ⟨before, made, -⟩ := exec.reachable_of_mem taken
    exact wakesUp_of_reported before made (reported τ taken)
  · obtain ⟨pre, post, rfl⟩ := List.append_of_mem taken
    obtain ⟨⟨s₀, ⟨-, -, -, unchanged, -⟩, run⟩, made, -⟩ := exec.cut
    have first : s₀.Noticed := by
      intro changed
      rw [unchanged] at changed
      cases changed
    have before : τ.src.Noticed := run.invariant_of (I := Insulation.Noticed) (P := WakesUp)
      (fun s a t hs made wakes => InsulationStep.noticed made hs wakes)
      (fun υ hυ => wakes υ (List.mem_append_left _ hυ)) first
    exact (InsulationStep.noticed made before (wakes τ taken)).reported

/-- In every run from the initialisation of the task: every change that begins a fault leaves the
signal set, the task notifies every fault that it reads, and every fault is reported, if and only if
every change that begins a fault finds the signal set.  Every fault is reported if and only if every
change that begins one finds the signal set or the task about to read the pin. -/
theorem faults_reported_iff (exec : insulation.Execution ts s) :
    (((∀ τ ∈ ts, FaultEdge τ → τ.dst.signal = true) ∧
        (∀ τ ∈ ts, τ.label = .check → imdStatus τ.src.pins = false → τ.dst.place = .notifying) ∧
        ∀ τ ∈ ts, τ.dst.Reported) ↔
      ∀ τ ∈ ts, FaultEdge τ → τ.src.signal = true) ∧
    ((∀ τ ∈ ts, τ.dst.Reported) ↔
      ∀ τ ∈ ts, FaultEdge τ → τ.src.signal = true ∨ τ.src.place = .woken) := by
  have same : ∀ τ ∈ ts, FaultEdge τ → τ.dst.signal = τ.src.signal := by
    rintro τ taken ⟨label, good⟩
    obtain ⟨-, made, -⟩ := exec.reachable_of_mem taken
    rw [label] at made
    exact signal_of_faultEdge made good
  refine ⟨⟨fun reports τ taken edge => ?_, fun signalled => ⟨fun τ taken edge => ?_, ?_, ?_⟩⟩,
    reported_run_iff exec⟩
  · rw [← same τ taken edge]
    exact reports.1 τ taken edge
  · rw [same τ taken edge]
    exact signalled τ taken edge
  · intro τ taken label fault
    obtain ⟨-, made, -⟩ := exec.reachable_of_mem taken
    rw [label] at made
    exact notifying_of_check made fault
  · exact (reported_run_iff exec).2 fun τ taken edge => .inl (signalled τ taken edge)

/-- The task, initialised with every input as it should be. -/
def Insulation.initialised : Insulation := ⟨.mainDone, .allGood, false, .waiting, false, false⟩

/-- The first fault. -/
def faultRun : List (Transition Insulation InsulationAction) :=
  [⟨.initialised, .change, Insulation.initialised.change⟩]

theorem execution_faultRun : insulation.Execution faultRun Insulation.initialised.change := by
  have start : insulation.Execution [] Insulation.initialised :=
    .init ⟨mainDone_booted, rfl, rfl, rfl, rfl⟩
  exact start.snoc .change

theorem faults_reported_iff_first :
    (((∀ τ ∈ faultRun, FaultEdge τ → τ.dst.signal = true) ∧
        (∀ τ ∈ faultRun, τ.label = .check → imdStatus τ.src.pins = false →
          τ.dst.place = .notifying) ∧
        ∀ τ ∈ faultRun, τ.dst.Reported) ↔
      ∀ τ ∈ faultRun, FaultEdge τ → τ.src.signal = true) ∧
    ((∀ τ ∈ faultRun, τ.dst.Reported) ↔
      ∀ τ ∈ faultRun, FaultEdge τ → τ.src.signal = true ∨ τ.src.place = .woken) :=
  faults_reported_iff execution_faultRun

/-- The first fault sets no signal and is not reported. -/
theorem not_faults_reported : insulation.Execution faultRun Insulation.initialised.change ∧
    ∃ τ ∈ faultRun, FaultEdge τ ∧ τ.dst.signal = false ∧ ¬ τ.dst.Reported := by
  refine ⟨execution_faultRun, _, List.mem_singleton_self _, ⟨rfl, rfl⟩, rfl, fun reported => ?_⟩
  cases reported rfl rfl rfl rfl

end Ams
