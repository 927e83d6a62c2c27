import Ams.Tractive.Refinement

/-!
# Faults

A bad safety input latches the state machine and opens the contactors, and they stay so until the
driver deactivates the tractive system.  In one case the step does not look at the result of the
check: at the end of the minimum precharge time a complete precharge writes race ready over the
latched state (`OverridesFault`).  A run keeps its faults latched, its reports true and its
error events in force exactly when it takes no such step.
-/

namespace Ams

open Reactive StateControllerEvent

variable {p : Phase} {w w' : World} {ts us : List (Transition World Call)}
  {τ : Transition World Call}

/-! ## Overriding a bad input -/

/-- The step finds a safety input bad and the precharge complete at the end of the minimum time. -/
def OverridesFault (τ : Transition World Call) : Prop :=
  τ.src.currentState = .scsPrechargeMinimumTimeExceeded ∧
    ∃ pins, τ.label = .stateMachineProcessStep pins ∧ pins.safe = false ∧ pins.precharged = true

theorem Phase.Shows.currentState_iff (h : p.Shows w) :
    w.currentState = .scsPrechargeMinimumTimeExceeded ↔ p = .precharged := by
  rw [h.currentState]
  cases p with
  | waiting hold => cases hold <;> simp [Phase.state, Hold.state]
  | _ => simp [Phase.state]

theorem Phase.Shows.overrides_iff (h : p.Shows τ.src) :
    OverridesFault τ ↔ p.Overrides (τ.label.stimulus τ.src) := by
  unfold OverridesFault Phase.Overrides
  rw [h.currentState_iff]
  simp [stimulus_eq_sample]

theorem OverridesFault.strands (override : OverridesFault τ) (h : p.Shows τ.src)
    (advanced : Advances p τ.label τ.src τ.dst) : Phase.stranded.Shows τ.dst := by
  have shown := advanced.shows_next
  have overrides := h.overrides_iff.1 override
  rwa [Phase.next_of_overrides overrides] at shown

/-- The undisturbed start, ended by a step with a bad battery signal. -/
def overriddenFault : Transition World Call := finalStep { Pins.allGood with bmsOk := false }

theorem execution_overriddenFault :
    booted.Execution (startRun ++ [overriddenFault]) overriddenFault.dst :=
  execution_start.snoc ⟨rfl, Call.step_result _ fun _ => rfl⟩

/-- Only a step at the end of the minimum time can override a fault. -/
theorem not_overridesFault_snoc (free : ∀ τ ∈ ts, ¬ OverridesFault τ)
    (other : τ.src.currentState ≠ .scsPrechargeMinimumTimeExceeded) :
    ∀ υ ∈ ts ++ [τ], ¬ OverridesFault υ := by
  intro υ mem override
  rcases List.mem_append.1 mem with mem | mem
  · exact free υ mem override
  · obtain rfl := List.mem_singleton.1 mem
    exact other override.1

/-- An undisturbed start overrides no fault: its last step finds no input bad. -/
theorem not_overridesFault_ready :
    ∀ τ ∈ startRun ++ [finalStep .allGood], ¬ OverridesFault τ := by
  rintro τ mem ⟨late, pins, step, bad, -⟩
  have early : ∀ τ ∈ startRun, τ.src.currentState ≠ .scsPrechargeMinimumTimeExceeded := by decide
  rcases List.mem_append.1 mem with mem | mem
  · exact early τ mem late
  · obtain rfl := List.mem_singleton.1 mem
    obtain rfl := Call.stateMachineProcessStep.inj step
    cases bad

/-- Without an overridden fault the state machine is never stranded. -/
theorem shows_of_not_overrides (exec : booted.Execution ts w) (none : ∀ τ ∈ ts, ¬ OverridesFault τ) :
    ∃ p : Phase, p ≠ .stranded ∧ p.Shows w := by
  obtain ⟨s₀, h₀, run⟩ := exec
  refine run.invariant_of (I := fun w => ∃ p : Phase, p ≠ .stranded ∧ p.Shows w)
    (P := fun τ => ¬ OverridesFault τ) ?_ none
    ⟨.waiting .internalSafety, nofun, h₀.shows_phase⟩
  rintro s c t ⟨p, ne, hp⟩ made free
  refine ⟨p.next (c.stimulus s), fun stranded => free ?_, (made.2.advances hp made.1).shows_next⟩
  exact hp.overrides_iff.2 ((p.outcome _).overrides ne stranded)

/-! ## Faults latch -/

/-- The state machine is latched and both coils are off. -/
structure Latched (w : World) : Prop where
  currentState : w.currentState = .scsLatchingError
  prechargeContactorCoil : w.prechargeContactorCoil = false
  runContactorCoil : w.runContactorCoil = false

theorem latched_of_shows (h : Phase.latched.Shows w) : Latched w :=
  ⟨h.currentState, h.precharge, h.run⟩

/-- Only a deactivation by the driver leaves the latched phase. -/
theorem latched_next {st : Stimulus}
    (h : .eventNotified sceDriverDeactivatesTractiveSystem ∉ Phase.latched.effects st) :
    Phase.latched.next st = .latched := by
  cases st with
  | event ev =>
    cases ev with
    | sceDriverDeactivatesTractiveSystem => exact absurd (Phase.latched.event_notified _) h
    | _ => rfl
  | _ => rfl

theorem latched_until_deactivation (run : booted.Run w us w') (h : Phase.latched.Shows w)
    (quiet : ∀ τ ∈ us, .eventNotified sceDriverDeactivatesTractiveSystem ∉ τ.dst.trace) :
    Phase.latched.Shows w' := by
  refine run.invariant_of (I := fun w => Phase.latched.Shows w) ?_ quiet h
  intro s c t hs made held
  have advanced := made.2.advances hs made.1
  have shown := advanced.shows_next
  rwa [latched_next (by rwa [← advanced.trace])] at shown

/-- In the run `ts` every step that begins energised and samples a bad safety input ends latched,
and every later operation leaves it so, until the driver's deactivation is handled. -/
def FaultsLatch (ts : List (Transition World Call)) : Prop :=
  ∀ pre τ post pins, ts = pre ++ τ :: post → τ.label = .stateMachineProcessStep pins →
    τ.src.currentState.energised = true → pins.safe = false →
    Latched τ.dst ∧ ∀ mid υ rest, post = mid ++ υ :: rest →
      (∀ σ ∈ mid ++ [υ], .eventNotified sceDriverDeactivatesTractiveSystem ∉ σ.dst.trace) →
      Latched υ.dst

theorem next_eq_latched {pins : Pins} {enable : Bool} (energised : p.state.energised = true)
    (bad : pins.safe = false) (free : ¬ p.Overrides (.sample pins enable)) :
    p.next (.sample pins enable) = .latched := by
  cases p with
  | waiting hold => cases hold <;> cases energised
  | latched | armed => cases energised
  | precharging | ready | stranded => simp [Phase.next, Phase.sample, bad]
  | precharged =>
    have open_ : pins.precharged = false := by
      by_contra done
      exact free ⟨rfl, pins, enable, rfl, bad, by simpa using done⟩
    simp [Phase.next, Phase.sample, open_]

/-- Every operation comes back, and a run latches its faults exactly when none is overridden. -/
theorem faultsLatch_iff (exec : booted.Execution ts w) :
    (∀ c : Call, c.afterBoot = true → ∃ w', c.Step w w') ∧
      (FaultsLatch ts ↔ ∀ τ ∈ ts, ¬ OverridesFault τ) := by
  refine ⟨fun c => returns_afterBoot exec.reachable, ?_, ?_⟩
  · intro latch τ taken override
    obtain ⟨p, hp, advanced⟩ := advances_of_mem exec taken
    obtain ⟨pre, post, rfl⟩ := List.append_of_mem taken
    have stranded := override.strands hp advanced
    obtain ⟨late, pins, step, bad, -⟩ := override
    have latched := (latch pre τ post pins rfl step (by rw [late]; rfl) bad).1
    have ready := stranded.currentState
    rw [latched.currentState] at ready
    cases ready
  · rintro free pre τ post pins rfl step energised bad
    obtain ⟨before, made, after⟩ := exec.cut
    obtain ⟨p, hp⟩ := booted_shows before.reachable
    have notOverrides := mt hp.overrides_iff.2 (free τ (by simp))
    have shown := (made.2.advances hp made.1).shows_next
    rw [stimulus_eq_sample.2 ⟨step, rfl⟩] at shown notOverrides
    rw [hp.currentState] at energised
    rw [next_eq_latched energised bad notOverrides] at shown
    refine ⟨latched_of_shows shown, ?_⟩
    rintro mid υ rest rfl quiet
    obtain ⟨between, last, -⟩ := after.cut
    exact latched_of_shows (latched_until_deactivation (between.snoc last) shown quiet)

/-- A bad battery signal in race ready. -/
def latchingFault : Transition World Call where
  src := (finalStep .allGood).dst
  label := .stateMachineProcessStep { Pins.allGood with bmsOk := false }
  dst := (Call.stateMachineProcessStep { Pins.allGood with bmsOk := false }).result
    (finalStep .allGood).dst

/-- The step after it, with every input good again. -/
def afterFault : Transition World Call where
  src := latchingFault.dst
  label := .stateMachineProcessStep .allGood
  dst := (Call.stateMachineProcessStep .allGood).result latchingFault.dst

/-- A start with a fault that latches. -/
def latchedRun : List (Transition World Call) :=
  startRun ++ [finalStep .allGood] ++ [latchingFault] ++ [afterFault]

theorem execution_latchedRun : booted.Execution latchedRun afterFault.dst := by
  have faulted := execution_ready.snoc ⟨rfl, Call.step_result latchingFault.label fun _ => rfl⟩
  exact faulted.snoc ⟨rfl, Call.step_result afterFault.label fun _ => rfl⟩

theorem not_overridesFault_latchedRun : ∀ τ ∈ latchedRun, ¬ OverridesFault τ := by
  have faulted : ∀ τ ∈ startRun ++ [finalStep .allGood] ++ [latchingFault], ¬ OverridesFault τ :=
    not_overridesFault_snoc not_overridesFault_ready (by decide)
  exact not_overridesFault_snoc faulted (by decide)

theorem faultsLatch_iff_fault :
    (∀ c : Call, c.afterBoot = true → ∃ w', c.Step afterFault.dst w') ∧ FaultsLatch latchedRun ∧
      latchingFault.src.currentState = .scsTractiveSystemRaceReady ∧
      Latched latchingFault.dst ∧ Latched afterFault.dst := by
  obtain ⟨returns, iff⟩ := faultsLatch_iff execution_latchedRun
  have latch := iff.2 not_overridesFault_latchedRun
  obtain ⟨latched, kept⟩ := latch (startRun ++ [finalStep .allGood]) latchingFault [afterFault] _
    (by simp [latchedRun]) rfl rfl rfl
  exact ⟨returns, latch, rfl, latched, kept [] afterFault [] rfl (by decide)⟩

/-- The faulted step ends race ready. -/
theorem not_faultsLatch :
    booted.Execution (startRun ++ [overriddenFault]) overriddenFault.dst ∧
      overriddenFault.dst.currentState = .scsTractiveSystemRaceReady ∧
      ¬ FaultsLatch (startRun ++ [overriddenFault]) := by
  refine ⟨execution_overriddenFault, rfl, fun latch => ?_⟩
  have latched := (latch startRun overriddenFault [] _ rfl rfl rfl rfl).1
  exact absurd latched.currentState (by decide)

/-! ## Reports -/

/-- The state machine reports an energised state only with the contactors in it. -/
structure Truthful (w : World) : Prop where
  precharge : w.currentState = .scsStartedPrecharge ∨
      w.currentState = .scsPrechargeMinimumTimeExceeded →
    w.contactorState = .hvcPrecharge ∧ w.prechargeContactorCoil = true ∧ w.runContactorCoil = false
  ready : w.currentState = .scsTractiveSystemRaceReady →
    w.contactorState = .hvcHighCurrentRun ∧ w.prechargeContactorCoil = true ∧
      w.runContactorCoil = true

theorem Phase.Shows.truthful_iff (h : p.Shows w) : Truthful w ↔ p ≠ .stranded := by
  constructor
  · rintro truthful rfl
    have closed := (truthful.ready h.currentState).1
    rw [h.contactorState] at closed
    cases closed
  · intro ne
    constructor
    all_goals
      rw [h.currentState, h.contactorState, h.prechargeContactorCoil, h.runContactorCoil]
      cases p with
      | waiting hold => cases hold <;> decide
      | stranded => exact absurd rfl ne
      | _ => decide

/-- The reports of a run are true exactly when it overrides no fault. -/
theorem truthful_run_iff (exec : booted.Execution ts w) :
    (∀ τ ∈ ts, Truthful τ.src ∧ Truthful τ.dst) ↔ ∀ τ ∈ ts, ¬ OverridesFault τ := by
  constructor
  · intro truthful τ taken override
    obtain ⟨p, hp, advanced⟩ := advances_of_mem exec taken
    exact (override.strands hp advanced).truthful_iff.1 (truthful τ taken).2 rfl
  · intro free τ taken
    obtain ⟨pre, post, rfl⟩ := List.append_of_mem taken
    obtain ⟨before, made, -⟩ := exec.cut
    have freeThrough : ∀ σ ∈ pre ++ [τ], ¬ OverridesFault σ := fun σ hσ =>
      free σ (by rw [List.append_cons]; exact List.mem_append_left _ hσ)
    have freeBefore : ∀ σ ∈ pre, ¬ OverridesFault σ := fun σ hσ =>
      freeThrough σ (List.mem_append_left _ hσ)
    obtain ⟨p, ne, hp⟩ := shows_of_not_overrides before freeBefore
    obtain ⟨q, ne', hq⟩ := shows_of_not_overrides (before.snoc made) freeThrough
    exact ⟨hp.truthful_iff.2 ne, hq.truthful_iff.2 ne'⟩

theorem truthful_run_iff_fault : (∀ τ ∈ latchedRun, Truthful τ.src ∧ Truthful τ.dst) ∧
    latchingFault.src.contactorState = .hvcHighCurrentRun ∧
    latchingFault.src.runContactorCoil = true := by
  have truthful := (truthful_run_iff execution_latchedRun).2 not_overridesFault_latchedRun
  have taken : latchingFault ∈ latchedRun := by simp [latchedRun]
  obtain ⟨closed, -, run⟩ := (truthful latchingFault taken).1.ready rfl
  exact ⟨truthful, closed, run⟩

/-- After the overridden fault race ready is reported with the contactors open. -/
theorem not_truthful_overriddenFault : booted.Reachable overriddenFault.dst ∧
    overriddenFault.dst.contactorState = .hvcAllOpen ∧ ¬ Truthful overriddenFault.dst := by
  refine ⟨execution_overriddenFault.reachable, rfl, fun truthful => ?_⟩
  exact absurd (truthful.ready rfl).1 (by decide)

/-! ## Error events -/

/-- Both coils are off and the state machine is at or below `scsWaitingForInternalSafety`. -/
structure SafeState (w : World) : Prop where
  prechargeContactorCoil : w.prechargeContactorCoil = false
  runContactorCoil : w.runContactorCoil = false
  currentState : w.currentState ≤ .scsWaitingForInternalSafety

/-- An operation of the run `ts` that handles an error event, its own or a nested one, ends safe. -/
def ErrorsPrevail (ts : List (Transition World Call)) : Prop :=
  ∀ τ ∈ ts, ∀ ev : StateControllerEvent, ev.isError = true → .eventNotified ev ∈ τ.dst.trace →
    SafeState τ.dst

/-- Every operation comes back, and the error events of a run prevail exactly when it overrides no
fault. -/
theorem errorsPrevail_iff (exec : booted.Execution ts w) :
    (∀ c : Call, c.afterBoot = true → ∃ w', c.Step w w') ∧
      (ErrorsPrevail ts ↔ ∀ τ ∈ ts, ¬ OverridesFault τ) := by
  refine ⟨fun c => returns_afterBoot exec.reachable, ?_, ?_⟩
  · intro prevail τ taken override
    obtain ⟨p, hp, advanced⟩ := advances_of_mem exec taken
    have notified := (hp.overrides_iff.1 override).notifies
    rw [← advanced.trace] at notified
    have low := (prevail τ taken sceContactorSequenceError rfl notified).currentState
    rw [(override.strands hp advanced).currentState] at low
    exact absurd low (by decide)
  · intro free τ taken ev error notified
    obtain ⟨p, hp, advanced⟩ := advances_of_mem exec taken
    have shown := advanced.shows_next
    rw [advanced.trace] at notified
    rcases (p.outcome _).notified notified with delivered | ⟨overrides, -⟩
    · rw [delivered] at shown
      obtain ⟨opened, low⟩ := p.next_error error
      refine ⟨?_, ?_, by rwa [shown.currentState]⟩
      · rw [shown.prechargeContactorCoil, opened]
        rfl
      · rw [shown.runContactorCoil, opened]
        rfl
    · exact absurd (hp.overrides_iff.2 overrides) (free τ taken)

/-- A hardware error in race ready. -/
def overcurrent : Transition World Call where
  src := (finalStep .allGood).dst
  label := .notifyEvent sceHardwareOvercurrentError
  dst := (Call.notifyEvent sceHardwareOvercurrentError).result (finalStep .allGood).dst

theorem errorsPrevail_iff_overcurrent :
    (∀ c : Call, c.afterBoot = true → ∃ w', c.Step overcurrent.dst w') ∧
      ErrorsPrevail (startRun ++ [finalStep .allGood] ++ [overcurrent]) ∧
      overcurrent.src.runContactorCoil = true ∧ SafeState overcurrent.dst := by
  have exec := execution_ready.snoc ⟨rfl, Call.step_result overcurrent.label fun _ => rfl⟩
  obtain ⟨returns, iff⟩ := errorsPrevail_iff exec
  have prevail := iff.2 (not_overridesFault_snoc not_overridesFault_ready (by decide))
  have taken := List.mem_append_right (startRun ++ [finalStep .allGood])
    (List.mem_singleton_self overcurrent)
  have safe := prevail overcurrent taken sceHardwareOvercurrentError rfl (by decide)
  exact ⟨returns, prevail, rfl, safe⟩

/-- The nested sequence error of the overridden fault is written over. -/
theorem not_errorsPrevail :
    booted.Execution (startRun ++ [overriddenFault]) overriddenFault.dst ∧
      .eventNotified sceContactorSequenceError ∈ overriddenFault.dst.trace ∧
      ¬ ErrorsPrevail (startRun ++ [overriddenFault]) := by
  have notified : .eventNotified sceContactorSequenceError ∈ overriddenFault.dst.trace := by decide
  refine ⟨execution_overriddenFault, notified, fun prevail => ?_⟩
  have low := (prevail overriddenFault (by simp) sceContactorSequenceError rfl notified).currentState
  exact absurd low (by decide)

end Ams
