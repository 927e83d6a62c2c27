import Ams.Tractive.Phase

/-!
# The controllers refine the phases

`Phase.Shows` relates a world to the phase it is in: the two states are the phase's pair and the
coils are the mask bits of the contactor state.  From such a world every call of the running tasks
comes back, leaves the next phase behind and has exactly the phase's effects (`Phase.Shows.called`).
Hence the phases are an abstraction of every run after the start-up (`simulation`), and a fact about
a call in a reachable state is a fact about one phase and one stimulus (`booted_shows`,
`Call.Step.advances`).
-/

namespace Ams

open Reactive ContactorController StateController Phase

/-- The world is in phase `p`. -/
structure Phase.Shows (p : Phase) (w : World) : Prop where
  currentState : w.currentState = p.state
  contactorState : w.contactorState = p.contactor
  precharge : w.coil .precharge = p.contactor.drivesPrecharge
  run : w.coil .run = p.contactor.drivesRun

theorem Phase.Shows.prechargeContactorCoil {p : Phase} {w : World} (h : p.Shows w) :
    w.prechargeContactorCoil = p.contactor.drivesPrecharge := h.precharge

theorem Phase.Shows.runContactorCoil {p : Phase} {w : World} (h : p.Shows w) :
    w.runContactorCoil = p.contactor.drivesRun := h.run

/-- From `w` to `w'`: the phase afterwards, the effects on the way, and the enable bit as it was. -/
structure Leads (q : Phase) (es : List Effect) (w w' : World) : Prop where
  shows_phase : q.Shows w'
  trace : w'.trace = w.trace ++ es
  enable : w'.tractivePowerEnableBit = w.tractivePowerEnableBit

variable {p q : Phase} {w w' v : World} {es fs : List Effect}

theorem Leads.append (first : Leads p es w v) (second : Leads q fs v w') :
    Leads q (es ++ fs) w w' where
  shows_phase := second.shows_phase
  trace := by rw [second.trace, first.trace, List.append_assoc]
  enable := second.enable.trans first.enable

theorem Phase.Shows.stays (h : p.Shows w) : Leads p [] w w := ⟨h, by simp, rfl⟩

theorem Phase.Shows.emit (h : p.Shows w) (e : Effect) : Leads p [e] w (w.emit e) where
  shows_phase := ⟨h.currentState, h.contactorState, by simp [h.precharge], by simp [h.run]⟩
  trace := by simp
  enable := rfl

theorem Phase.Shows.allOpen_le (h : p.Shows w) : .hvcAllOpen ≤ w.contactorState := by
  rw [h.contactorState]
  exact p.allOpen_le_contactor

theorem Leads.bind {f : ℕ → Option World} {g : ℕ → World → Option World}
    (first : Yields f (Leads p es w))
    (second : ∀ v, p.Shows v → v.tractivePowerEnableBit = w.tractivePowerEnableBit →
      Yields (fun n => g n v) (Leads q fs v)) :
    Yields (fun n => f n >>= g n) (Leads q (es ++ fs) w) :=
  first.bind fun v hv => (second v hv.shows_phase hv.enable).mono fun _ hu => hv.append hu

/-! ## Transitions -/

/-- The coils follow a contactor state that has been assigned. -/
theorem Phase.Shows.sync_trace (h : p.Shows w) (c : ContactorState) :
    (syncCoils (w.writeContactor c)).trace =
      w.trace ++ syncEffects p.contactor.drivesPrecharge p.contactor.drivesRun c := by
  rw [syncCoils_trace, ← h.precharge, ← h.run]
  rfl

theorem Phase.Shows.opens (h : p.Shows w) (hc : q.contactor = .hvcAllOpen)
    (hs : q.state.opens = true) :
    Yields (fun n => transitionState n q.state w)
      (Leads q (openEffects p.contactor q.state) w) := by
  refine (transitionState_opened hs h.allOpen_le).yields ?_
  constructor
  · constructor <;> simp [hc] <;> rfl
  · simp [World.opened, h.precharge, h.run, openEffects]
  · simp

theorem Phase.Shows.starts_precharge (h : p.Shows w) (hc : p.contactor = .hvcAllOpen) :
    Yields (fun n => transitionState n .scsStartedPrecharge w)
      (Leads .precharging prechargeEffects w) := by
  have accepted : request w.contactorState .hvcPrecharge = some .hvcPrecharge := by
    rw [h.contactorState, hc]
    rfl
  refine (transitionState_startedPrecharge (pushState_accepted accepted)).yields ?_
  constructor
  · constructor <;> simp [Phase.contactor, Phase.state]
  · simp only [World.writeState_trace, World.emit_trace, h.sync_trace, hc, List.append_assoc]
    rfl
  · simp

theorem Phase.Shows.becomes_ready (h : Phase.precharged.Shows w) :
    Yields (fun n => transitionState n .scsTractiveSystemRaceReady w)
      (Leads .ready runEffects w) := by
  have accepted : request w.contactorState .hvcHighCurrentRun = some .hvcHighCurrentRun := by
    rw [h.contactorState]
    rfl
  refine (transitionState_raceReady (pushState_accepted accepted)).yields ?_
  constructor
  · constructor <;> simp [Phase.contactor, Phase.state]
  · simp only [World.writeState_trace, h.sync_trace, List.append_assoc]
    rfl
  · simp

/-- After a fault has opened the contactors the request for the run contactor is refused, the
sequence error finds the state machine latched, and race ready is written over it. -/
theorem Phase.Shows.strands (h : Phase.latched.Shows w) :
    Yields (fun n => transitionState n .scsTractiveSystemRaceReady w)
      (Leads .stranded refusedRunEffects w) := by
  have refused : request w.contactorState .hvcHighCurrentRun = none := by
    rw [h.contactorState]
    rfl
  have low : ¬ .scsWaitingForInternalSafety < w.currentState := by
    rw [h.currentState]
    decide
  have notified := (h.emit (.eventNotified .sceContactorSequenceError)).append
    (Phase.Shows.emit (h.emit _).shows_phase .signalSet)
  have settled := World.settle_of_allOpen notified.shows_phase.contactorState
  have returned := pushState_refused_low refused low
  rw [settled] at returned
  refine (transitionState_raceReady returned).yields ?_
  constructor
  · constructor <;> simp [h.contactorState, Phase.contactor, Phase.state]
  · simp [h.precharge, h.run, h.contactorState, refusedRunEffects, Phase.contactor]
    rfl
  · simp

theorem Phase.Shows.latches (h : p.Shows w) :
    Yields (fun n => transitionState n .scsLatchingError w)
      (Leads .latched (openEffects p.contactor .scsLatchingError) w) :=
  h.opens (q := .latched) rfl rfl

theorem Phase.Shows.holds (h : p.Shows w) (hold : Hold) :
    Yields (fun n => transitionState n hold.state w)
      (Leads (.waiting hold) (openEffects p.contactor hold.state) w) :=
  h.opens (q := .waiting hold) rfl hold.opens_state

/-! ## Steps of the state machine -/

theorem Phase.Shows.sampled_waiting {hold : Hold} (h : (Phase.waiting hold).Shows w) (pins : Pins) :
    Yields (fun n => stateMachineProcessStep n pins w)
      (Leads ((Phase.waiting hold).sample pins w.tractivePowerEnableBit)
        ((Phase.waiting hold).sampleEffects pins w.tractivePowerEnableBit) w) := by
  simp only [step_waiting _ pins h.currentState, sample, sampleEffects]
  cases pins.hold with
  | none =>
    split_ifs
    · exact h.latches
    · exact h.opens (q := .armed) rfl rfl
  | some h' =>
    by_cases enabled : w.tractivePowerEnableBit = true
    · simp only [if_pos enabled]
      refine Leads.bind (h.holds h') fun v hv same => ?_
      simp only [same, enabled, if_true]
      exact hv.latches
    · simp only [if_neg enabled]
      refine Leads.bind (h.holds h') fun v hv same => ?_
      simp only [same, enabled, Bool.false_eq_true, if_false]
      exact yields_of_eq (fun _ => rfl) hv.stays

theorem Phase.Shows.sampled_armed (h : Phase.armed.Shows w) (pins : Pins) :
    Yields (fun n => stateMachineProcessStep n pins w)
      (Leads (Phase.armed.sample pins w.tractivePowerEnableBit)
        (Phase.armed.sampleEffects pins w.tractivePowerEnableBit) w) := by
  simp only [step_activation _ pins h.currentState, sample, sampleEffects]
  cases pins.hold with
  | none =>
    dsimp only
    split_ifs
    · exact h.starts_precharge rfl
    · exact yields_of_eq (fun _ => rfl) h.stays
  | some hold => exact h.holds hold

/-- After a bad safety input the second transition starts from the latched state. -/
theorem Phase.Shows.sampled_precharged (h : Phase.precharged.Shows w) (pins : Pins) (b : Bool) :
    Yields (fun n => stateMachineProcessStep n pins w)
      (Leads (Phase.precharged.sample pins b) (Phase.precharged.sampleEffects pins b) w) := by
  simp only [step_minimumTime _ pins h.currentState, sample, sampleEffects]
  by_cases safe : pins.safe = true
  · simp only [if_pos safe, Option.bind_eq_bind, Option.bind_some]
    split_ifs
    · exact h.becomes_ready
    · exact h.latches
  · simp only [if_neg safe]
    refine Leads.bind h.latches fun v hv _ => ?_
    split_ifs
    · exact hv.strands
    · exact hv.latches

theorem Phase.Shows.sampled_watching (h : p.Shows w) (pins : Pins)
    (hs : p.state = .scsStartedPrecharge ∨ p.state = .scsTractiveSystemRaceReady) :
    Yields (fun n => stateMachineProcessStep n pins w)
      (Leads (if pins.safe then p else .latched)
        (if pins.safe then [] else openEffects p.contactor .scsLatchingError) w) := by
  rw [← h.currentState] at hs
  simp only [step_watching _ pins hs]
  split_ifs
  · exact yields_of_eq (fun _ => rfl) h.stays
  · exact h.latches

theorem Phase.Shows.sampled (h : p.Shows w) (pins : Pins) :
    Yields (fun n => stateMachineProcessStep n pins w)
      (Leads (p.sample pins w.tractivePowerEnableBit)
        (p.sampleEffects pins w.tractivePowerEnableBit) w) := by
  cases p with
  | latched =>
    exact yields_of_eq (fun n => step_idle n pins (by rw [h.currentState]; decide)) h.stays
  | waiting hold => exact h.sampled_waiting pins
  | armed => exact h.sampled_armed pins
  | precharged => exact h.sampled_precharged pins _
  | precharging => exact h.sampled_watching pins (.inl rfl)
  | ready | stranded => exact h.sampled_watching pins (.inr rfl)

/-! ## Events, the timer and the driver -/

theorem Phase.Shows.notified (h : p.Shows w) (ev : StateControllerEvent) :
    Yields (fun n => notifyEvent n ev w)
      (Leads (p.next (.event ev)) (p.effects (.event ev)) w) := by
  simp only [next, effects]
  have entered := h.emit (.eventNotified ev)
  by_cases hr : resets ev p.state = true
  · simp only [if_pos hr]
    obtain ⟨v, hv, opened⟩ := entered.shows_phase.holds .internalSafety
    have led := entered.append opened
    exact (notifyEvent_resets (by rwa [h.currentState]) hv).yields
      (led.append (led.shows_phase.emit .signalSet))
  · simp only [if_neg hr, List.append_nil]
    exact (notifyEvent_quiet (by simpa [h.currentState] using hr)).yields
      (entered.append (Phase.Shows.emit entered.shows_phase .signalSet))

theorem Phase.Shows.expired (h : p.Shows w) :
    Yields (fun n => prechargeTimerFire n w) (Leads (p.next .expiry) (p.effects .expiry) w) := by
  unfold prechargeTimerFire
  simp only [next, effects]
  by_cases hp : p = precharging
  · subst hp
    simp only [h.currentState, state, if_true]
    refine transitionState_minimumTimeExceeded.yields ⟨⟨rfl, h.contactorState, ?_, ?_⟩, rfl, rfl⟩
    · rw [World.writeState_coil, h.precharge]
      rfl
    · rw [World.writeState_coil, h.run]
      rfl
  · have other : w.currentState ≠ .scsStartedPrecharge := by
      rw [h.currentState]
      intro started
      apply hp
      cases p with
      | waiting hold => cases hold <;> cases started
      | precharging => rfl
      | _ => cases started
    simp only [if_neg hp, if_neg other]
    exact yields_of_eq (fun _ => rfl) h.stays

/-! ## Calls of the running tasks -/

/-- What a call, made in `w`, is to the state machine. -/
def Call.stimulus (w : World) : Call → Stimulus
  | stateMachineProcessStep pins => .sample pins w.tractivePowerEnableBit
  | pushTractiveEnable newVal =>
    if newVal != w.tractivePowerEnableBit then .event (driverEvent newVal) else .quiet
  | notifyEvent ev => .event ev
  | prechargeTimerFire => .expiry
  | _ => .quiet

/-- The enable bit after the call. -/
def Call.enable (w : World) : Call → Bool
  | pushTractiveEnable newVal | writeTractiveEnable newVal => newVal
  | _ => w.tractivePowerEnableBit

/-- Only a step samples. -/
theorem stimulus_eq_sample {c : Call} {w : World} {pins : Pins} {enable : Bool} :
    c.stimulus w = .sample pins enable ↔
      c = .stateMachineProcessStep pins ∧ w.tractivePowerEnableBit = enable := by
  cases c <;> simp only [Call.stimulus] <;> (try split_ifs) <;> simp

theorem stimulus_eq_expiry {c : Call} {w : World} :
    c.stimulus w = .expiry ↔ c = .prechargeTimerFire := by
  cases c <;> simp only [Call.stimulus] <;> (try split_ifs) <;> simp

/-- What the call `c` does to a world in phase `p`. -/
structure Advances (p : Phase) (c : Call) (w w' : World) : Prop where
  shows_next : (p.next (c.stimulus w)).Shows w'
  trace : w'.trace = p.effects (c.stimulus w)
  enable : w'.tractivePowerEnableBit = c.enable w

variable {c : Call}

theorem Phase.Shows.cleared (h : p.Shows w) : p.Shows { w with trace := [] } :=
  ⟨h.currentState, h.contactorState, h.precharge, h.run⟩

theorem Phase.Shows.enable_written (h : p.Shows w) (b : Bool) : p.Shows (writeTractiveEnable b w) :=
  ⟨h.currentState, h.contactorState, h.precharge, h.run⟩

theorem Phase.Shows.pushed (h : p.Shows w) (newVal : Bool) :
    Yields (fun n => pushTractiveEnable n newVal { w with trace := [] })
      (Advances p (.pushTractiveEnable newVal) w) := by
  have written := h.cleared.enable_written newVal
  by_cases changed : (newVal != w.tractivePowerEnableBit) = true
  · have stimulus : (Call.pushTractiveEnable newVal).stimulus w = .event (driverEvent newVal) :=
      if_pos changed
    simp only [pushTractiveEnable_of_changed (w := { w with trace := [] }) changed]
    refine (written.notified (driverEvent newVal)).mono fun v hv => ?_
    exact ⟨stimulus ▸ hv.shows_phase, stimulus ▸ hv.trace, hv.enable⟩
  · have stimulus : (Call.pushTractiveEnable newVal).stimulus w = .quiet := if_neg changed
    exact yields_of_eq (fun _ => pushTractiveEnable_of_same changed)
      ⟨stimulus ▸ written, stimulus ▸ rfl, rfl⟩

/-- Every call of a running task comes back and advances the phase. -/
theorem Phase.Shows.called (h : p.Shows w) (hc : c.afterBoot = true) :
    ∃ w', c.Step w w' ∧ Advances p c w w' := by
  cases c with
  | stateMachineProcessStep pins =>
    obtain ⟨w', hw', led⟩ := h.cleared.sampled pins
    exact ⟨w', hw', led.shows_phase, led.trace, led.enable⟩
  | notifyEvent ev =>
    obtain ⟨w', hw', led⟩ := h.cleared.notified ev
    exact ⟨w', hw', led.shows_phase, led.trace, led.enable⟩
  | prechargeTimerFire =>
    obtain ⟨w', hw', led⟩ := h.cleared.expired
    exact ⟨w', hw', led.shows_phase, led.trace, led.enable⟩
  | pushTractiveEnable newVal => exact h.pushed newVal
  | writeTractiveEnable newVal =>
    exact ⟨_, returns_of_eq fun _ => rfl, h.cleared.enable_written newVal, rfl, rfl⟩
  | stateControllerInitialise | contactorControllerInitialise | pushState _ => cases hc

theorem Call.Step.advances (made : c.Step w w') (h : p.Shows w) (hc : c.afterBoot = true) :
    Advances p c w w' := by
  obtain ⟨v, hv, advanced⟩ := h.called hc
  rwa [c.step_unique made hv]

theorem Booted.shows_phase (h : Booted w) : (Phase.waiting .internalSafety).Shows w :=
  ⟨h.currentState, h.contactorState, h.prechargeContactorCoil, h.runContactorCoil⟩

/-- Every run after the start-up is a run of the phases. -/
theorem simulation : Simulation booted phases fun w p => p.Shows w where
  init _ h := ⟨_, rfl, h.shows_phase⟩
  step _ _ _ _ h made := .inr ⟨_, _, rfl, (made.2.advances h made.1).shows_next⟩

theorem booted_shows (h : booted.Reachable w) : ∃ p : Phase, p.Shows w := by
  obtain ⟨p, -, hp⟩ := simulation.reachable h
  exact ⟨p, hp⟩

/-- What a transition of an execution does to the phase it finds. -/
theorem advances_of_mem {ts : List (Transition World Call)} (exec : booted.Execution ts w)
    {τ : Transition World Call} (taken : τ ∈ ts) :
    ∃ p : Phase, p.Shows τ.src ∧ Advances p τ.label τ.src τ.dst := by
  obtain ⟨reachable, made, -⟩ := exec.reachable_of_mem taken
  obtain ⟨p, hp⟩ := booted_shows reachable
  exact ⟨p, hp, made.2.advances hp made.1⟩

theorem returns_afterBoot (h : booted.Reachable w) (hc : c.afterBoot = true) :
    ∃ w', c.Step w w' := by
  obtain ⟨p, hp⟩ := booted_shows h
  obtain ⟨w', made, -⟩ := hp.called hc
  exact ⟨w', made⟩

/-! ## An undisturbed start -/

/-- The world after `main`, with the enable bit low. -/
def World.mainDone : World :=
  { World.powerOn with
    contactorState := .hvcAllOpen
    currentState := .scsWaitingForInternalSafety }

theorem mainDone_booted : Booted .mainDone := ⟨rfl, rfl, rfl, rfl⟩

/-- The transitions of the calls `cs`, made one after another from `w`. -/
def Call.transitions : List Call → World → List (Transition World Call)
  | [], _ => []
  | c :: cs, w => ⟨w, c, c.result w⟩ :: transitions cs (c.result w)

/-- From the end of `main` to the end of the minimum precharge time. -/
def startCalls : List Call :=
  [.stateMachineProcessStep .allGood, .pushTractiveEnable true, .stateMachineProcessStep .allGood,
    .prechargeTimerFire]

def World.minimumTime : World := startCalls.foldl (fun w c => c.result w) .mainDone

def startRun : List (Transition World Call) := Call.transitions startCalls .mainDone

theorem execution_start : booted.Execution startRun .minimumTime := by
  have start : booted.Execution [] World.mainDone := .init mainDone_booted
  have waited := start.snoc ⟨rfl, Call.step_result (.stateMachineProcessStep .allGood) fun _ => rfl⟩
  have enabled := waited.snoc ⟨rfl, Call.step_result (.pushTractiveEnable true) fun _ => rfl⟩
  have closed := enabled.snoc
    ⟨rfl, Call.step_result (.stateMachineProcessStep .allGood) fun _ => rfl⟩
  exact closed.snoc ⟨rfl, Call.step_result .prechargeTimerFire fun _ => rfl⟩

/-- A step that samples `pins` at the end of the start. -/
def finalStep (pins : Pins) : Transition World Call where
  src := .minimumTime
  label := .stateMachineProcessStep pins
  dst := (Call.stateMachineProcessStep pins).result .minimumTime

theorem execution_ready : booted.Execution (startRun ++ [finalStep .allGood])
    (finalStep .allGood).dst :=
  execution_start.snoc ⟨rfl, Call.step_result _ fun _ => rfl⟩

end Ams
