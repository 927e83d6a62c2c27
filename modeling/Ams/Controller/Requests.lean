import Ams.Controller.Sequencing

/-!
# What a contactor request and a transition do

One lemma for each way in which `push_state`, `notify_event` and `transition_state` can go.  While
the contactor state is at least `hvcAllOpen` every request comes back: it is accepted
(`pushState_accepted`), or the sequence error finds the state machine at or below
`scsWaitingForInternalSafety` (`pushState_refused_low`) or above it (`pushState_refused_high`).
Below `hvcAllOpen` the sequence error of a refused request comes back only when the state machine is
not above `scsWaitingForInternalSafety`; otherwise (`World.Wedged`) the handling of the error
requests `hvcAllOpen`, which is refused again, for ever (`pushState_wedged`).
-/

namespace Ams

open Reactive ContactorController StateController

/-! ## Frames -/

namespace World

variable (w : World) (e : Effect) (s : StateControllerState) (c : ContactorState)

@[simp] theorem emit_contactorState : (w.emit e).contactorState = w.contactorState := rfl

@[simp] theorem emit_coil (k : Coil) : (w.emit e).coil k = w.coil k := by cases k <;> rfl

@[simp] theorem emit_currentState : (w.emit e).currentState = w.currentState := rfl

@[simp] theorem emit_enable : (w.emit e).tractivePowerEnableBit = w.tractivePowerEnableBit := rfl

@[simp] theorem emit_trace : (w.emit e).trace = w.trace ++ [e] := rfl

@[simp] theorem writeContactor_contactorState : (w.writeContactor c).contactorState = c := rfl

@[simp] theorem writeContactor_coil (k : Coil) : (w.writeContactor c).coil k = w.coil k := by
  cases k <;> rfl

@[simp] theorem writeContactor_currentState :
    (w.writeContactor c).currentState = w.currentState := rfl

@[simp] theorem writeContactor_enable :
    (w.writeContactor c).tractivePowerEnableBit = w.tractivePowerEnableBit := rfl

@[simp] theorem writeContactor_trace : (w.writeContactor c).trace = w.trace := rfl

@[simp] theorem writeState_contactorState : (w.writeState s).contactorState = w.contactorState := rfl

@[simp] theorem writeState_coil (k : Coil) : (w.writeState s).coil k = w.coil k := by cases k <;> rfl

@[simp] theorem writeState_currentState : (w.writeState s).currentState = s := rfl

@[simp] theorem writeState_enable :
    (w.writeState s).tractivePowerEnableBit = w.tractivePowerEnableBit := rfl

@[simp] theorem writeState_trace : (w.writeState s).trace = w.trace ++ [.stateWrite s] := rfl

end World

/-- The effects of `syncCoils` with the coils at `precharge` and `run`. -/
def syncEffects (precharge run : Bool) (new : ContactorState) : List Effect :=
  [.coilWrite .precharge new.drivesPrecharge, .coilWrite .run new.drivesRun] ++
    (if precharge != new.drivesPrecharge then
      [.errorTimerStart .precharge
        (if new.drivesPrecharge then prechargeTimePullinMs else prechargeTimePulloutMs)] else []) ++
    (if run != new.drivesRun then
      [.errorTimerStart .run (if new.drivesRun then runTimePullinMs else runTimePulloutMs)] else [])

section Sync

variable (w : World)

@[simp] theorem syncCoils_contactorState : (syncCoils w).contactorState = w.contactorState := by
  unfold syncCoils saveRunToggle savePrechargeToggle
  split_ifs <;> rfl

@[simp] theorem syncCoils_currentState : (syncCoils w).currentState = w.currentState := by
  unfold syncCoils saveRunToggle savePrechargeToggle
  split_ifs <;> rfl

@[simp] theorem syncCoils_enable :
    (syncCoils w).tractivePowerEnableBit = w.tractivePowerEnableBit := by
  unfold syncCoils saveRunToggle savePrechargeToggle
  split_ifs <;> rfl

@[simp] theorem syncCoils_precharge :
    (syncCoils w).coil .precharge = w.contactorState.drivesPrecharge := by
  unfold syncCoils saveRunToggle savePrechargeToggle
  split_ifs <;> rfl

@[simp] theorem syncCoils_run : (syncCoils w).coil .run = w.contactorState.drivesRun := by
  unfold syncCoils saveRunToggle savePrechargeToggle
  split_ifs <;> rfl

@[simp] theorem syncCoils_trace : (syncCoils w).trace =
    w.trace ++ syncEffects (w.coil .precharge) (w.coil .run) w.contactorState := by
  unfold syncCoils saveRunToggle savePrechargeToggle syncEffects
  split_ifs with hr hp hp <;> simp_all [writeCoils, World.emit, World.coil]

end Sync

/-! ## Requests -/

theorem request_allOpen {current : ContactorState} (h : .hvcAllOpen ≤ current) :
    request current .hvcAllOpen = some .hvcAllOpen := if_pos h

/-- Below `hvcAllOpen` only the mechanical error is accepted. -/
theorem request_eq_none {current newState : ContactorState} (below : ¬ .hvcAllOpen ≤ current)
    (h : newState ≠ .hvcLatchingMechanicalError) : request current newState = none := by
  rcases (ContactorState.not_allOpen_le_iff current).1 below with rfl | rfl <;>
    cases newState <;> first | rfl | exact absurd rfl h

/-- A request that is not the mechanical error is accepted at or above `hvcAllOpen`. -/
theorem allOpen_le_of_request {current newState s : ContactorState}
    (h : newState ≠ .hvcLatchingMechanicalError) (accepted : request current newState = some s) :
    .hvcAllOpen ≤ s := by
  cases newState <;> simp only [request, reduceCtorEq, ne_eq, not_true_eq_false] at h accepted <;>
    split_ifs at accepted <;> cases accepted <;> decide

/-- `current_state` after a sequence error has been raised: opened unless it is below `hvcAllOpen`.
-/
def World.settle (w : World) : World :=
  if .hvcAllOpen < w.contactorState then w.writeContactor .hvcAllOpen else w

theorem World.settle_of_not_lt {w : World} (h : ¬ .hvcAllOpen < w.contactorState) : w.settle = w :=
  if_neg h

theorem World.settle_of_allOpen {w : World} (h : w.contactorState = .hvcAllOpen) : w.settle = w := by
  refine World.settle_of_not_lt ?_
  rw [h]
  decide

/-- The world after a transition to a state that opens the contactors. -/
def World.opened (s : StateControllerState) (w : World) : World :=
  (World.emit .prechargeTimerStop (syncCoils (w.writeContactor .hvcAllOpen))).writeState s

section Opened

variable (w : World) (s : StateControllerState)

@[simp] theorem opened_contactorState : (w.opened s).contactorState = .hvcAllOpen := by
  simp [World.opened]

@[simp] theorem opened_currentState : (w.opened s).currentState = s := rfl

@[simp] theorem opened_enable :
    (w.opened s).tractivePowerEnableBit = w.tractivePowerEnableBit := by
  simp [World.opened]

@[simp] theorem opened_coil (k : Coil) : (w.opened s).coil k = false := by
  cases k <;> simp [World.opened] <;> rfl

end Opened

theorem opens_internalSafety :
    StateControllerState.scsWaitingForInternalSafety.opens = true := rfl

section Unfold

variable (n : ℕ) (w : World)

theorem transitionState_succ_of_opens {s : StateControllerState} (hs : s.opens = true) :
    transitionState (n + 1) s w = (do
      let w ← pushState n .hvcAllOpen w
      some ((w.emit .prechargeTimerStop).writeState s)) := by
  cases s <;> simp [transitionState, StateControllerState.opens] at hs ⊢

theorem transitionState_succ_startedPrecharge :
    transitionState (n + 1) .scsStartedPrecharge w = (do
      let w ← pushState n .hvcPrecharge w
      some ((w.emit (.prechargeTimerStart prechargeMinimumTimeMillisec)).writeState
        .scsStartedPrecharge)) := by
  simp [transitionState]

theorem transitionState_succ_minimumTimeExceeded :
    transitionState (n + 1) .scsPrechargeMinimumTimeExceeded w =
      some (w.writeState .scsPrechargeMinimumTimeExceeded) := by
  simp [transitionState]

theorem transitionState_succ_raceReady :
    transitionState (n + 1) .scsTractiveSystemRaceReady w = (do
      let w ← pushState n .hvcHighCurrentRun w
      some (w.writeState .scsTractiveSystemRaceReady)) := by
  simp [transitionState]

/-- The guard under which `notify_event` asks for `scsWaitingForInternalSafety`. -/
def resets (ev : StateControllerEvent) (s : StateControllerState) : Bool :=
  match ev with
  | .sceDriverEnablesTractiveSystem => false
  | .sceDriverDeactivatesTractiveSystem =>
    s = .scsLatchingError ∨ .scsWaitingForInternalSafety ≤ s
  | _ => .scsWaitingForInternalSafety < s

theorem notifyEvent_succ (ev : StateControllerEvent) :
    notifyEvent (n + 1) ev w = (do
      let w ← if resets ev w.currentState = true then
          transitionState n .scsWaitingForInternalSafety (w.emit (.eventNotified ev))
        else some (w.emit (.eventNotified ev))
      some (w.emit .signalSet)) := by
  cases ev <;> simp only [notifyEvent, resets, decide_eq_true_eq, World.emit_currentState,
    Bool.false_eq_true, if_false] <;> rfl

theorem resets_sequenceError {s : StateControllerState} :
    resets .sceContactorSequenceError s = true ↔ .scsWaitingForInternalSafety < s :=
  decide_eq_true_iff

theorem resets_of_isError {ev : StateControllerEvent} {s : StateControllerState}
    (h : ev.isError = true) : resets ev s = true ↔ .scsWaitingForInternalSafety < s := by
  cases ev <;> first | exact decide_eq_true_iff | cases h

theorem pushState_succ_of_some {newState s : ContactorState}
    (h : request w.contactorState newState = some s) :
    pushState (n + 1) newState w = some (syncCoils (w.writeContactor s)) := by
  rw [pushState, h]

theorem pushState_succ_of_none {newState : ContactorState}
    (h : request w.contactorState newState = none) :
    pushState (n + 1) newState w = (do
      let w ← notifyEvent n .sceContactorSequenceError w
      some (syncCoils w.settle)) := by
  rw [pushState, h]
  rfl

end Unfold

variable {w : World}

theorem pushState_accepted {newState s : ContactorState}
    (h : request w.contactorState newState = some s) :
    Returns (fun n => pushState n newState w) (syncCoils (w.writeContactor s)) :=
  returns_of_succ (returns_of_eq fun n => pushState_succ_of_some n w h)

/-! ## Transitions -/

theorem transitionState_opens {s : StateControllerState} {w' : World} (hs : s.opens = true)
    (h : Returns (fun n => pushState n .hvcAllOpen w) w') :
    Returns (fun n => transitionState n s w) ((w'.emit .prechargeTimerStop).writeState s) := by
  apply returns_of_succ
  simp only [transitionState_succ_of_opens _ _ hs]
  exact h.map fun w => (w.emit .prechargeTimerStop).writeState s

theorem transitionState_startedPrecharge {w' : World}
    (h : Returns (fun n => pushState n .hvcPrecharge w) w') :
    Returns (fun n => transitionState n .scsStartedPrecharge w)
      ((w'.emit (.prechargeTimerStart prechargeMinimumTimeMillisec)).writeState
        .scsStartedPrecharge) := by
  apply returns_of_succ
  simp only [transitionState_succ_startedPrecharge]
  exact h.map fun w =>
    (w.emit (.prechargeTimerStart prechargeMinimumTimeMillisec)).writeState .scsStartedPrecharge

theorem transitionState_minimumTimeExceeded :
    Returns (fun n => transitionState n .scsPrechargeMinimumTimeExceeded w)
      (w.writeState .scsPrechargeMinimumTimeExceeded) :=
  returns_of_succ (returns_of_eq fun n => transitionState_succ_minimumTimeExceeded n w)

theorem transitionState_raceReady {w' : World}
    (h : Returns (fun n => pushState n .hvcHighCurrentRun w) w') :
    Returns (fun n => transitionState n .scsTractiveSystemRaceReady w)
      (w'.writeState .scsTractiveSystemRaceReady) := by
  apply returns_of_succ
  simp only [transitionState_succ_raceReady]
  exact h.map fun w => w.writeState .scsTractiveSystemRaceReady

theorem transitionState_opened {s : StateControllerState} (hs : s.opens = true)
    (h : .hvcAllOpen ≤ w.contactorState) :
    Returns (fun n => transitionState n s w) (w.opened s) :=
  transitionState_opens hs (pushState_accepted (request_allOpen h))

/-! ## Events -/

theorem notifyEvent_quiet {ev : StateControllerEvent} (h : resets ev w.currentState = false) :
    Returns (fun n => notifyEvent n ev w) ((w.emit (.eventNotified ev)).emit .signalSet) := by
  apply returns_of_succ
  simp only [notifyEvent_succ, h, Bool.false_eq_true, if_false]
  exact returns_of_eq fun _ => rfl

theorem notifyEvent_resets {ev : StateControllerEvent} {w' : World}
    (h : resets ev w.currentState = true)
    (returned : Returns
      (fun n => transitionState n .scsWaitingForInternalSafety (w.emit (.eventNotified ev))) w') :
    Returns (fun n => notifyEvent n ev w) (w'.emit .signalSet) := by
  apply returns_of_succ
  simp only [notifyEvent_succ, h, if_true]
  exact returned.map fun w => w.emit .signalSet

theorem notifyEvent_opened {ev : StateControllerEvent} (h : resets ev w.currentState = true)
    (hc : .hvcAllOpen ≤ w.contactorState) :
    Returns (fun n => notifyEvent n ev w)
      (((w.emit (.eventNotified ev)).opened .scsWaitingForInternalSafety).emit .signalSet) :=
  notifyEvent_resets h (transitionState_opened opens_internalSafety hc)

theorem pushState_of_notifyEvent {newState : ContactorState} {w' : World}
    (h : request w.contactorState newState = none)
    (event : Returns (fun n => notifyEvent n .sceContactorSequenceError w) w') :
    Returns (fun n => pushState n newState w) (syncCoils w'.settle) := by
  apply returns_of_succ
  simp only [pushState_succ_of_none _ _ h]
  exact event.map _

/-- The sequence error changes nothing at or below `scsWaitingForInternalSafety`. -/
theorem pushState_refused_low {newState : ContactorState}
    (h : request w.contactorState newState = none)
    (low : ¬ .scsWaitingForInternalSafety < w.currentState) :
    Returns (fun n => pushState n newState w)
      (syncCoils ((w.emit (.eventNotified .sceContactorSequenceError)).emit .signalSet).settle) :=
  pushState_of_notifyEvent h (notifyEvent_quiet (by simpa using mt resets_sequenceError.1 low))

theorem pushState_refused_high {newState : ContactorState}
    (h : request w.contactorState newState = none)
    (high : .scsWaitingForInternalSafety < w.currentState) (hc : .hvcAllOpen ≤ w.contactorState) :
    Returns (fun n => pushState n newState w) (syncCoils
      (((w.emit (.eventNotified .sceContactorSequenceError)).opened
        .scsWaitingForInternalSafety).emit .signalSet)) := by
  have returned := pushState_of_notifyEvent h (notifyEvent_opened (resets_sequenceError.2 high) hc)
  rwa [World.settle_of_allOpen (by simp)] at returned

/-! ## The wedged worlds -/

/-- A refused request raises an error whose handling is refused in turn. -/
def World.Wedged (w : World) : Prop :=
  ¬ .hvcAllOpen ≤ w.contactorState ∧ .scsWaitingForInternalSafety < w.currentState

theorem World.Wedged.emit {e : Effect} (h : w.Wedged) : (w.emit e).Wedged := h

/-- The handling of the sequence error goes round without coming back. -/
theorem notifyEvent_wedged (n : ℕ) {ev : StateControllerEvent} (wedged : w.Wedged)
    (h : resets ev w.currentState = true) : notifyEvent n ev w = none := by
  induction n using Nat.strong_induction_on generalizing w ev with
  | _ n ih =>
    -- one round is `notify_event`, `transition_state`, `push_state` and the next error
    rcases n with _ | _ | _ | n
    · rw [notifyEvent]
    · rw [notifyEvent_succ, if_pos h, transitionState]
      rfl
    · rw [notifyEvent_succ, if_pos h, transitionState_succ_of_opens _ _ opens_internalSafety,
        pushState]
      rfl
    · have refused : request (w.emit (.eventNotified ev)).contactorState .hvcAllOpen = none :=
        request_eq_none wedged.1 (by decide)
      rw [notifyEvent_succ, if_pos h, transitionState_succ_of_opens _ _ opens_internalSafety,
        pushState_succ_of_none _ _ refused,
        ih n (by omega) wedged.emit (resets_sequenceError.2 wedged.2)]
      rfl

theorem pushState_wedged (n : ℕ) {newState : ContactorState} (wedged : w.Wedged)
    (h : newState ≠ .hvcLatchingMechanicalError) : pushState n newState w = none := by
  cases n with
  | zero => rw [pushState]
  | succ n =>
    rw [pushState_succ_of_none _ _ (request_eq_none wedged.1 h),
      notifyEvent_wedged n wedged (resets_sequenceError.2 wedged.2)]
    rfl

theorem transitionState_wedged (n : ℕ) {s : StateControllerState} (wedged : w.Wedged)
    (h : s ≠ .scsPrechargeMinimumTimeExceeded) : transitionState n s w = none := by
  cases n with
  | zero => rw [transitionState]
  | succ n =>
    by_cases hs : s.opens = true
    · rw [transitionState_succ_of_opens _ _ hs, pushState_wedged n wedged (by decide)]
      rfl
    · cases s <;> simp only [StateControllerState.opens, not_true_eq_false, not_false_eq_true,
        ne_eq, reduceCtorEq] at h hs
      · rw [transitionState_succ_startedPrecharge, pushState_wedged n wedged (by decide)]
        rfl
      · rw [transitionState_succ_raceReady, pushState_wedged n wedged (by decide)]
        rfl

end Ams
