import Ams.Controller.Requests
import Ams.Controller.Checks
import Mathlib.Data.List.Induction

/-!
# When the mutual recursion comes back

`transition_state` writes the state of the state machine after its contactor request has come back.
A request that is refused below `hvcAllOpen` while the state machine is above
`scsWaitingForInternalSafety` is therefore handled by a request that is refused in the same way, and
the nesting has no end.  `Call.Recurs` lists, for every call, the states in which that happens;
`Call.returns_iff` shows that the list is complete.
-/

namespace Ams

open Reactive ContactorController StateController BMSController

variable {w : World}

/-! ## Calls that come back -/

/-- From `hvcAllOpen` upwards every request but the mechanical error comes back there. -/
theorem pushState_yields {newState : ContactorState} (hc : .hvcAllOpen ≤ w.contactorState)
    (h : newState ≠ .hvcLatchingMechanicalError) :
    Yields (fun n => pushState n newState w) fun w' => .hvcAllOpen ≤ w'.contactorState := by
  cases accepted : request w.contactorState newState with
  | some s =>
    refine (pushState_accepted accepted).yields ?_
    rw [syncCoils_contactorState]
    exact allOpen_le_of_request h accepted
  | none =>
    have open_le : ContactorState.hvcAllOpen ≤ .hvcAllOpen := by decide
    by_cases high : .scsWaitingForInternalSafety < w.currentState
    · exact (pushState_refused_high accepted high hc).yields (by simpa using open_le)
    · refine (pushState_refused_low accepted high).yields ?_
      rw [syncCoils_contactorState, World.settle]
      split_ifs
      · exact open_le
      · exact hc

theorem transitionState_yields (hc : .hvcAllOpen ≤ w.contactorState) (s : StateControllerState) :
    Yields (fun n => transitionState n s w) fun w' =>
      .hvcAllOpen ≤ w'.contactorState ∧ w'.currentState = s := by
  have startedPrecharge : ContactorState.hvcPrecharge ≠ .hvcLatchingMechanicalError := nofun
  have raceReady : ContactorState.hvcHighCurrentRun ≠ .hvcLatchingMechanicalError := nofun
  by_cases hs : s.opens = true
  · exact (transitionState_opened hs hc).yields ⟨by rw [opened_contactorState]; decide, rfl⟩
  · cases s <;> first | exact absurd rfl hs | skip
    · obtain ⟨w', hw', hc'⟩ := pushState_yields hc startedPrecharge
      exact (transitionState_startedPrecharge hw').yields ⟨hc', rfl⟩
    · exact transitionState_minimumTimeExceeded.yields ⟨hc, rfl⟩
    · obtain ⟨w', hw', hc'⟩ := pushState_yields hc raceReady
      exact (transitionState_raceReady hw').yields ⟨hc', rfl⟩

/-- Below `hvcAllOpen` a transition comes back when the sequence error finds nothing to do. -/
theorem transitionState_low {s : StateControllerState} (hs : s.opens = true)
    (below : ¬ .hvcAllOpen ≤ w.contactorState)
    (low : ¬ .scsWaitingForInternalSafety < w.currentState) :
    Yields (fun n => transitionState n s w) fun w' => w'.contactorState = w.contactorState ∧
      w'.currentState = s ∧ w'.tractivePowerEnableBit = w.tractivePowerEnableBit := by
  have refused : request w.contactorState .hvcAllOpen = none := request_eq_none below nofun
  have settled : ¬ .hvcAllOpen < w.contactorState := by
    rcases (ContactorState.not_allOpen_le_iff _).1 below with h | h <;> rw [h] <;> decide
  refine (transitionState_opens hs (pushState_refused_low refused low)).yields ?_
  simp [World.settle, settled]

/-! ## The calls that do not come back -/

/-- The step begins a contactor request above `scsWaitingForInternalSafety`.  From
`scsWaitingForInternalSafety` itself it does so by its second transition, when the first one has
gone to another waiting state. -/
def StepRequests (pins : Pins) (w : World) : Prop :=
  match w.currentState with
  | .scsNonResettableLatchingError | .scsLatchingError | .scsInitialising => False
  | .scsWaitingForInternalSafety =>
    bmsStatus pins = true ∧ pins.safe = false ∧ w.tractivePowerEnableBit = true
  | .scsWaitingForTractiveLoop | .scsWaitingForShutdownCircuit
  | .scsPrechargeMinimumTimeExceeded => True
  | .scsWaitingForPrechargeActivation => pins.safe = false ∨ w.tractivePowerEnableBit = true
  | .scsStartedPrecharge | .scsTractiveSystemRaceReady => pins.safe = false

/-- The call, made in `w`, makes a contactor request whose refusal is handled by the same request.
-/
def Call.Recurs (w : World) : Call → Prop
  | stateControllerInitialise => w.Wedged
  | contactorControllerInitialise | writeTractiveEnable _ | prechargeTimerFire => False
  | stateMachineProcessStep pins => ¬ .hvcAllOpen ≤ w.contactorState ∧ StepRequests pins w
  | pushTractiveEnable newVal =>
    newVal = false ∧ w.tractivePowerEnableBit = true ∧ w.Wedged
  | notifyEvent ev => ev ≠ .sceDriverEnablesTractiveSystem ∧ w.Wedged
  | pushState newState => newState ≠ .hvcLatchingMechanicalError ∧ w.Wedged

theorem resets_of_wedged {ev : StateControllerEvent} (wedged : w.Wedged)
    (h : ev ≠ .sceDriverEnablesTractiveSystem) : resets ev w.currentState = true := by
  have high := wedged.2
  cases hs : w.currentState <;> rw [hs] at high <;>
    first | exact absurd high (by decide) | (cases ev <;> first | exact absurd rfl h | rfl)

theorem Hold.state_ne_minimumTime (h : Hold) : h.state ≠ .scsPrechargeMinimumTimeExceeded := by
  cases h <;> nofun

/-! Outside the first waiting state the first transition of the step is already wedged. -/

section Wedged

variable {pins : Pins} (wedged : w.Wedged) (n : ℕ)

include wedged

theorem step_waiting_wedged {h : Hold} (hs : w.currentState = h.state) :
    stateMachineProcessStep n pins w = none := by
  rw [step_waiting n pins hs]
  cases pins.hold with
  | none => exact transitionState_wedged n wedged (by split_ifs <;> nofun)
  | some h' =>
    simp only [transitionState_wedged n wedged h'.state_ne_minimumTime]
    rfl

theorem step_activation_wedged (hs : w.currentState = .scsWaitingForPrechargeActivation)
    (leaves : pins.safe = false ∨ w.tractivePowerEnableBit = true) :
    stateMachineProcessStep n pins w = none := by
  rw [step_activation n pins hs]
  cases hold : pins.hold with
  | some h' => exact transitionState_wedged n wedged h'.state_ne_minimumTime
  | none =>
    rw [(pins.hold_eq_none_iff).1 hold] at leaves
    simp only [if_pos (leaves.resolve_left nofun)]
    exact transitionState_wedged n wedged nofun

theorem step_watching_wedged (hs : w.currentState = .scsStartedPrecharge ∨
    w.currentState = .scsTractiveSystemRaceReady) (bad : pins.safe = false) :
    stateMachineProcessStep n pins w = none := by
  rw [step_watching n pins hs, if_neg (by simp [bad])]
  exact transitionState_wedged n wedged nofun

theorem step_minimumTime_wedged (hs : w.currentState = .scsPrechargeMinimumTimeExceeded) :
    stateMachineProcessStep n pins w = none := by
  rw [step_minimumTime n pins hs]
  by_cases safe : pins.safe = true
  · rw [if_pos safe]
    exact transitionState_wedged n wedged (by split_ifs <;> nofun)
  · have latch : transitionState n .scsLatchingError w = none :=
      transitionState_wedged n wedged nofun
    rw [if_neg safe, latch]
    rfl

end Wedged

/-- The first transition comes back, to a state above `scsWaitingForInternalSafety`, and the second
one is wedged. -/
theorem step_internalSafety_not_returns {pins : Pins} {w' : World}
    (below : ¬ .hvcAllOpen ≤ w.contactorState)
    (hs : w.currentState = .scsWaitingForInternalSafety) (bms : bmsStatus pins = true)
    (bad : pins.safe = false) (enabled : w.tractivePowerEnableBit = true) :
    ¬ Returns (fun n => stateMachineProcessStep n pins w) w' := by
  simp only [step_waiting _ pins (h := .internalSafety) hs]
  cases hold : pins.hold with
  | none => rw [(pins.hold_eq_none_iff).1 hold] at bad; cases bad
  | some h' =>
    obtain ⟨v, hv, hc, hs', hb⟩ := transitionState_low h'.opens_state below (by rw [hs]; decide)
    have wedged : v.Wedged := by
      refine ⟨hc ▸ below, ?_⟩
      rw [hs']
      cases h' with
      | internalSafety => rw [(pins.hold_eq_internalSafety_iff).1 hold] at bms; cases bms
      | tractiveLoop | shutdownCircuit => decide
    refine not_returns_bind hv fun n => ?_
    rw [if_pos (by rw [hb, enabled])]
    exact transitionState_wedged n wedged nofun

theorem step_not_returns {pins : Pins} {w' : World} (below : ¬ .hvcAllOpen ≤ w.contactorState)
    (h : StepRequests pins w) : ¬ Returns (fun n => stateMachineProcessStep n pins w) w' := by
  have wedged {s : StateControllerState} (hs : w.currentState = s)
      (high : .scsWaitingForInternalSafety < s) : w.Wedged := ⟨below, hs ▸ high⟩
  unfold StepRequests at h
  cases hs : w.currentState <;> simp only [hs] at h
  case scsWaitingForInternalSafety =>
    obtain ⟨bms, bad, enabled⟩ := h
    exact step_internalSafety_not_returns below hs bms bad enabled
  case scsWaitingForTractiveLoop =>
    exact not_returns_of_none fun n =>
      step_waiting_wedged (wedged hs (by decide)) n (h := .tractiveLoop) hs
  case scsWaitingForShutdownCircuit =>
    exact not_returns_of_none fun n =>
      step_waiting_wedged (wedged hs (by decide)) n (h := .shutdownCircuit) hs
  case scsWaitingForPrechargeActivation =>
    exact not_returns_of_none fun n => step_activation_wedged (wedged hs (by decide)) n hs h
  case scsStartedPrecharge =>
    exact not_returns_of_none fun n => step_watching_wedged (wedged hs (by decide)) n (.inl hs) h
  case scsTractiveSystemRaceReady =>
    exact not_returns_of_none fun n => step_watching_wedged (wedged hs (by decide)) n (.inr hs) h
  case scsPrechargeMinimumTimeExceeded =>
    exact not_returns_of_none fun n => step_minimumTime_wedged (wedged hs (by decide)) n hs

/-! ## The list is complete -/

theorem step_yields_high (pins : Pins) (hc : .hvcAllOpen ≤ w.contactorState) :
    Yields (fun n => stateMachineProcessStep n pins w) fun _ => True := by
  have closed : StepClosed fun v f => .hvcAllOpen ≤ v.contactorState → Yields f fun _ => True :=
    { stay := fun v _ => yields_of_eq (fun _ => rfl) trivial
      enter := fun _ hv => (transitionState_yields hv _).mono fun _ _ => trivial
      bind := fun _ second hv =>
        (transitionState_yields hv _).bind fun u hu => second u hu.2 hu.1 }
  exact closed.step pins w hc

/-- The states in which the state machine rests before the first precharge. -/
def StateControllerState.rests : StateControllerState → Bool
  | .scsLatchingError | .scsWaitingForInternalSafety | .scsWaitingForTractiveLoop
  | .scsWaitingForShutdownCircuit | .scsWaitingForPrechargeActivation => true
  | _ => false

theorem Hold.rests_state (h : Hold) : h.state.rests = true := by cases h <;> rfl

/-- A second transition follows only one that has stayed at `scsWaitingForInternalSafety`, so the
step comes back. -/
theorem step_internalSafety_yields {pins : Pins} (below : ¬ .hvcAllOpen ≤ w.contactorState)
    (hs : w.currentState = .scsWaitingForInternalSafety)
    (h : ¬ (bmsStatus pins = true ∧ pins.safe = false ∧ w.tractivePowerEnableBit = true)) :
    Yields (fun n => stateMachineProcessStep n pins w) fun w' => w'.currentState.rests = true := by
  have low : ¬ .scsWaitingForInternalSafety < w.currentState := by rw [hs]; decide
  simp only [step_waiting _ pins (h := .internalSafety) hs]
  cases hold : pins.hold with
  | none =>
    refine (transitionState_low (by split_ifs <;> rfl) below low).mono fun v hv => ?_
    rw [hv.2.1]
    split_ifs <;> rfl
  | some h' =>
    refine (transitionState_low h'.opens_state below low).bind fun v hv => ?_
    obtain ⟨hc, hs', hb⟩ := hv
    by_cases enabled : v.tractivePowerEnableBit = true
    · have bms : bmsStatus pins = false := by
        by_contra good
        have bad : pins.safe = false := by rw [pins.safe_eq_isNone_hold, hold]; rfl
        exact h ⟨by simpa using good, bad, by rw [← hb, enabled]⟩
      obtain rfl : Hold.internalSafety = h' := by
        rw [← Option.some.injEq, ← hold, (pins.hold_eq_internalSafety_iff).2 bms]
      simp only [if_pos enabled]
      refine (transitionState_low rfl (hc ▸ below) (by rw [hs']; decide)).mono fun v hv => ?_
      rw [hv.2.1]
      rfl
    · simp only [if_neg enabled]
      exact yields_of_eq (fun _ => rfl) (by rw [hs', h'.rests_state])

theorem step_yields_low {pins : Pins} (below : ¬ .hvcAllOpen ≤ w.contactorState)
    (h : ¬ StepRequests pins w) :
    Yields (fun n => stateMachineProcessStep n pins w) fun w' =>
      w'.currentState = w.currentState ∨ w'.currentState.rests = true := by
  have stay : Yields (fun _ => some w) fun w' =>
      w'.currentState = w.currentState ∨ w'.currentState.rests = true :=
    yields_of_eq (fun _ => rfl) (.inl rfl)
  unfold StepRequests at h
  cases hs : w.currentState <;> simp only [hs] at h stay
  case scsWaitingForInternalSafety =>
    exact (step_internalSafety_yields below hs h).mono fun v rests => .inr rests
  case scsWaitingForPrechargeActivation =>
    obtain ⟨safe, enabled⟩ := not_or.1 h
    simp only [step_activation _ pins hs, (pins.hold_eq_none_iff).2 (by simpa using safe),
      if_neg enabled]
    exact stay
  case scsStartedPrecharge =>
    simp only [step_watching _ pins (.inl hs), if_pos (show pins.safe = true by simpa using h)]
    exact stay
  case scsTractiveSystemRaceReady =>
    simp only [step_watching _ pins (.inr hs), if_pos (show pins.safe = true by simpa using h)]
    exact stay
  case scsWaitingForTractiveLoop | scsWaitingForShutdownCircuit | scsPrechargeMinimumTimeExceeded =>
    exact absurd trivial h
  all_goals
    simp only [step_idle _ pins (show w.currentState ≤ .scsInitialising by rw [hs]; decide)]
    exact stay

/-- A transition that opens the contactors comes back exactly outside the wedged worlds. -/
theorem transitionState_returns_iff {s : StateControllerState} (hs : s.opens = true) :
    (∃ w', Returns (fun n => transitionState n s w) w') ↔ ¬ w.Wedged := by
  constructor
  · rintro ⟨w', hw'⟩ wedged
    have ne : s ≠ .scsPrechargeMinimumTimeExceeded := by rintro rfl; cases hs
    exact not_returns_of_none (fun n => transitionState_wedged n wedged ne) hw'
  · intro h
    by_cases hc : .hvcAllOpen ≤ w.contactorState
    · exact ⟨_, transitionState_opened hs hc⟩
    · obtain ⟨w', hw', -⟩ := transitionState_low hs hc fun high => h ⟨hc, high⟩
      exact ⟨w', hw'⟩

theorem notifyEvent_returns_iff (ev : StateControllerEvent) :
    (∃ w', Returns (fun n => notifyEvent n ev w) w') ↔
      ¬ (ev ≠ .sceDriverEnablesTractiveSystem ∧ w.Wedged) := by
  constructor
  · rintro ⟨w', hw'⟩ ⟨ne, wedged⟩
    exact not_returns_of_none (fun n => notifyEvent_wedged n wedged (resets_of_wedged wedged ne)) hw'
  · intro h
    cases hr : resets ev w.currentState with
    | false => exact ⟨_, notifyEvent_quiet hr⟩
    | true =>
      have ne : ev ≠ .sceDriverEnablesTractiveSystem := by
        rintro rfl
        exact Bool.noConfusion hr
      have free : ¬ w.Wedged := fun wedged => h ⟨ne, wedged⟩
      obtain ⟨w', hw'⟩ :=
        (transitionState_returns_iff (w := w.emit (.eventNotified ev)) opens_internalSafety).2 free
      exact ⟨_, notifyEvent_resets hr hw'⟩

theorem pushState_returns_iff (newState : ContactorState) :
    (∃ w', Returns (fun n => pushState n newState w) w') ↔
      ¬ (newState ≠ .hvcLatchingMechanicalError ∧ w.Wedged) := by
  constructor
  · rintro ⟨w', hw'⟩ ⟨ne, wedged⟩
    exact not_returns_of_none (fun n => pushState_wedged n wedged ne) hw'
  · intro h
    by_cases latch : newState = .hvcLatchingMechanicalError
    · exact ⟨_, pushState_accepted (by rw [latch]; rfl)⟩
    by_cases hc : .hvcAllOpen ≤ w.contactorState
    · obtain ⟨w', hw', -⟩ := pushState_yields hc latch
      exact ⟨w', hw'⟩
    · exact ⟨_, pushState_refused_low (request_eq_none hc latch)
        fun high => h ⟨latch, hc, high⟩⟩

theorem step_returns_iff (pins : Pins) :
    (∃ w', Returns (fun n => stateMachineProcessStep n pins w) w') ↔
      ¬ (¬ .hvcAllOpen ≤ w.contactorState ∧ StepRequests pins w) := by
  constructor
  · rintro ⟨w', hw'⟩ ⟨below, requests⟩
    exact step_not_returns below requests hw'
  · intro h
    have yields : Yields (fun n => stateMachineProcessStep n pins w) fun _ => True := by
      by_cases hc : .hvcAllOpen ≤ w.contactorState
      · exact step_yields_high pins hc
      · exact (step_yields_low hc fun requests => h ⟨hc, requests⟩).mono fun _ _ => trivial
    obtain ⟨w', hw', -⟩ := yields
    exact ⟨w', hw'⟩

theorem pushTractiveEnable_returns_iff (newVal : Bool) :
    (∃ w', Returns (fun n => pushTractiveEnable n newVal w) w') ↔
      ¬ (newVal = false ∧ w.tractivePowerEnableBit = true ∧ w.Wedged) := by
  unfold pushTractiveEnable
  cases hb : w.tractivePowerEnableBit <;> cases newVal <;>
    simp only [bne_self_eq_false, Bool.false_eq_true, if_false, false_and, and_false,
      not_false_eq_true, iff_true, bne_iff_ne, ne_eq, if_true, true_and, Bool.true_eq_false]
  · exact ⟨_, returns_of_eq fun _ => rfl⟩
  · exact ⟨_, notifyEvent_quiet rfl⟩
  · exact (notifyEvent_returns_iff _).trans (by simp [driverEvent]; rfl)
  · exact ⟨_, returns_of_eq fun _ => rfl⟩

/-- A call comes back exactly when it does not recur. -/
theorem Call.returns_iff (c : Call) (w : World) : (∃ w', c.Step w w') ↔ ¬ c.Recurs w := by
  have now (v : World) : ∃ w', Returns (fun _ => some v) w' := ⟨v, returns_of_eq fun _ => rfl⟩
  cases c with
  | stateControllerInitialise => exact transitionState_returns_iff opens_internalSafety
  | contactorControllerInitialise => exact iff_of_true (now _) not_false
  | writeTractiveEnable newVal => exact iff_of_true (now _) not_false
  | stateMachineProcessStep pins => exact step_returns_iff pins
  | pushTractiveEnable newVal => exact pushTractiveEnable_returns_iff newVal
  | notifyEvent ev => exact notifyEvent_returns_iff ev
  | pushState newState => exact pushState_returns_iff newState
  | prechargeTimerFire =>
    refine iff_of_true ?_ not_false
    unfold Call.Step Call.exec StateController.prechargeTimerFire
    dsimp only
    split_ifs
    · exact ⟨_, transitionState_minimumTimeExceeded⟩
    · exact now _

/-- The calls `cs` can be made one after another from power-on, each after the previous one has
returned, and the last one returns too. -/
def CallsReturn (cs : List Call) : Prop :=
  ∃ ts w, powerOn.Execution ts w ∧ ts.map Transition.label = cs

theorem callsReturn_of_append {pre post : List Call} (h : CallsReturn (pre ++ post)) :
    CallsReturn pre := by
  obtain ⟨ts, w, ⟨s₀, h₀, run⟩, labels⟩ := h
  obtain ⟨as, bs, rfl, has, -⟩ := List.map_eq_append_iff.1 labels
  cases bs with
  | nil => exact ⟨as, w, ⟨s₀, h₀, by rwa [List.append_nil] at run⟩, has⟩
  | cons τ bs => exact ⟨as, τ.src, ⟨s₀, h₀, run.cut.1⟩, has⟩

/-- One more call after calls that have led to `w`. -/
theorem callsReturn_snoc_iff {ts : List (Transition World Call)} (exec : powerOn.Execution ts w)
    (c : Call) : CallsReturn (ts.map Transition.label ++ [c]) ↔ ¬ c.Recurs w := by
  rw [← Call.returns_iff]
  constructor
  · rintro ⟨us, v, exec', labels⟩
    obtain ⟨as, bs, rfl, has, hbs⟩ := List.map_eq_append_iff.1 labels
    obtain ⟨τ, cs, rfl, rfl, -⟩ := List.map_eq_cons_iff.1 hbs
    obtain ⟨⟨s₀, rfl, before⟩, made, -⟩ := exec'.cut
    -- the calls before determine the state
    obtain ⟨t₀, rfl, run⟩ := exec
    obtain ⟨-, rfl⟩ := run.unique (fun _ c _ _ => c.step_unique) before has.symm
    exact ⟨τ.dst, made⟩
  · rintro ⟨w', made⟩
    exact ⟨_, w', exec.snoc made, by simp⟩

/-- A sequence of calls comes back to its end exactly when none of its calls is made in a state in
which it recurs. -/
theorem callsReturn_iff (cs : List Call) :
    CallsReturn cs ↔ ∀ pre c post, cs = pre ++ c :: post → ∀ ts w, powerOn.Execution ts w →
      ts.map Transition.label = pre → ¬ c.Recurs w := by
  constructor
  · rintro returns pre c post rfl ts w exec rfl
    rw [List.append_cons] at returns
    exact (callsReturn_snoc_iff exec c).1 (callsReturn_of_append returns)
  · intro h
    induction cs using List.reverseRecOn with
    | nil => exact ⟨[], World.powerOn, .init rfl, rfl⟩
    | append_singleton cs c ih =>
      obtain ⟨ts, w, exec, rfl⟩ := ih fun pre d post hcs =>
        h pre d (post ++ [c]) (by rw [hcs]; simp)
      exact (callsReturn_snoc_iff exec c).2 (h _ c [] rfl ts w exec rfl)

/-- Before `ContactorController::initialise` the state machine may already wait for the precharge
activation; the next error event does not come back. -/
theorem not_callsReturn_before_contactors :
    CallsReturn [.stateControllerInitialise, .stateMachineProcessStep .allGood] ∧
      ¬ CallsReturn [.stateControllerInitialise, .stateMachineProcessStep .allGood,
        .notifyEvent .sceBatteryManagementSystemError] := by
  have exec := ((System.Execution.init (M := powerOn) rfl).snoc
    (Call.step_result .stateControllerInitialise fun _ => rfl)).snoc
    (Call.step_result (.stateMachineProcessStep .allGood) fun _ => rfl)
  refine ⟨⟨_, _, exec, rfl⟩, fun h => ?_⟩
  exact (callsReturn_snoc_iff exec (.notifyEvent .sceBatteryManagementSystemError)).1 h
    ⟨nofun, by decide, by decide⟩

end Ams
