import Ams.Controller.Requests
import Ams.Controller.StateController

/-!
# The contactors under any requests

`ContactorController` seen on its own: `push_state` is called with any request, and between two calls
the callers may leave the state machine in any state.  A call that comes back has assigned the request
or, after a refusal and whatever the state machine did about it, opened the contactors
(`pushState_settles`).  So the pair of coils moves along `CoilMove`, and the mechanical error latches.
-/

namespace Ams

open Reactive ContactorController StateController

/-- A call of `push_state`, with the state in which its callers have left the state machine. -/
structure Request where
  newState : ContactorState
  currentState : StateControllerState
  deriving DecidableEq, Repr

/-- The requests made after `ContactorController::initialise`, with the coils off. -/
def requests : System World Request where
  init w := w.contactorState = .hvcAllOpen ∧ w.prechargeContactorCoil = false ∧
    w.runContactorCoil = false
  step w r w' := (Call.pushState r.newState).Step { w with currentState := r.currentState } w'

/-- The coil outputs, the precharge coil first. -/
def World.coils (w : World) : Bool × Bool := (w.prechargeContactorCoil, w.runContactorCoil)

/-- The coil outputs that the contactor state calls for. -/
def ContactorState.coils (s : ContactorState) : Bool × Bool := (s.drivesPrecharge, s.drivesRun)

/-- Precharge first, then run, and open from anywhere. -/
inductive CoilMove : Bool × Bool → Bool × Bool → Prop where
  | stays (pair : Bool × Bool) : CoilMove pair pair
  | precharges : CoilMove (false, false) (true, false)
  | runs : CoilMove (true, false) (true, true)
  | opens (pair : Bool × Bool) : CoilMove pair (false, false)

variable {w w' : World} {ts : List (Transition World Request)}

/-! ## One call -/

/-- The contactor state after a refused request. -/
def ContactorState.settled (s : ContactorState) : ContactorState :=
  if .hvcAllOpen < s then .hvcAllOpen else s

theorem settle_contactorState (w : World) :
    w.settle.contactorState = w.contactorState.settled := by
  unfold World.settle ContactorState.settled
  split_ifs <;> rfl

theorem coils_syncCoils (w : World) : (syncCoils w).coils = w.contactorState.coils :=
  Prod.ext (syncCoils_precharge w) (syncCoils_run w)

/-- A call that comes back has assigned the request or settled. -/
theorem pushState_settles {newState : ContactorState} (made : (Call.pushState newState).Step w w') :
    w'.contactorState = (request w.contactorState newState).getD w.contactorState.settled ∧
      w'.coils = w'.contactorState.coils := by
  have synced (v : World) : (syncCoils v).coils = (syncCoils v).contactorState.coils := by
    rw [coils_syncCoils, syncCoils_contactorState]
  cases accepted : request w.contactorState newState with
  | some s =>
    rw [Returns.unique made (pushState_accepted (w := { w with trace := [] }) accepted)]
    exact ⟨by simp, synced _⟩
  | none =>
    have refused : request { w with trace := [] }.contactorState newState = none := accepted
    by_cases high : .scsWaitingForInternalSafety < w.currentState
    · by_cases hc : .hvcAllOpen ≤ w.contactorState
      · rw [Returns.unique made (pushState_refused_high refused high hc)]
        refine ⟨?_, synced _⟩
        have settled : w.contactorState.settled = .hvcAllOpen := by
          cases hs : w.contactorState <;> rw [hs] at hc <;> first | rfl | exact absurd hc (by decide)
        rw [Option.getD_none, settled]
        simp
      · -- the handling of the refusal is refused in its turn
        have ne : newState ≠ .hvcLatchingMechanicalError := by
          rintro rfl
          cases accepted
        exact absurd made (not_returns_of_none fun n =>
          pushState_wedged n (w := { w with trace := [] }) ⟨hc, high⟩ ne)
    · rw [Returns.unique made (pushState_refused_low refused high)]
      refine ⟨?_, synced _⟩
      rw [syncCoils_contactorState, settle_contactorState]
      rfl

/-- From one contactor state to the next one the coils move in order. -/
theorem coilMove_request (s newState : ContactorState) :
    CoilMove s.coils ((request s newState).getD s.settled).coils := by
  cases s <;> cases newState <;>
    first | exact .stays _ | exact .opens _ | exact .precharges | exact .runs

theorem settles_latched (newState : ContactorState) :
    (request .hvcLatchingMechanicalError newState).getD
      ContactorState.hvcLatchingMechanicalError.settled = .hvcLatchingMechanicalError := by
  cases newState <;> rfl

/-! ## Sequences of calls -/

/-- The coils are at the mask bits of the contactor state after every call, and before it. -/
theorem requests_synced (h : requests.Reachable w) : w.coils = w.contactorState.coils := by
  refine h.invariant (I := fun w => w.coils = w.contactorState.coils) ?_ ?_
  · rintro w ⟨hc, precharge, run⟩
    rw [World.coils, hc, precharge, run]
    rfl
  · exact fun _ _ _ _ made => (pushState_settles made).2

theorem latched_requests (run : requests.Run w ts w')
    (latched : w.contactorState = .hvcLatchingMechanicalError) :
    w'.contactorState = .hvcLatchingMechanicalError := by
  refine run.invariant (I := fun w => w.contactorState = .hvcLatchingMechanicalError) ?_ latched
  intro s r t hs made
  rw [(pushState_settles made).1]
  exact (congrArg (fun s => (request s r.newState).getD s.settled) hs).trans (settles_latched _)

/-- After every call the coils are at the mask bits of the contactor state and have moved in order, and
once the mechanical error has been requested the state is latched and the coils are off. -/
theorem coils_follow_requests (exec : requests.Execution ts w) :
    (∀ τ ∈ ts, τ.dst.coils = τ.dst.contactorState.coils ∧ CoilMove τ.src.coils τ.dst.coils) ∧
      ∀ pre τ post, ts = pre ++ τ :: post → τ.label.newState = .hvcLatchingMechanicalError →
        ∀ σ ∈ τ :: post, σ.dst.contactorState = .hvcLatchingMechanicalError ∧
          σ.dst.coils = (false, false) := by
  constructor
  · intro τ taken
    obtain ⟨reachable, made, -⟩ := exec.reachable_of_mem taken
    obtain ⟨state, synced⟩ := pushState_settles made
    refine ⟨synced, ?_⟩
    rw [synced, state, requests_synced reachable]
    exact coilMove_request _ _
  · rintro pre τ post rfl latches σ taken
    obtain ⟨before, made, after⟩ := exec.cut
    have latched : τ.dst.contactorState = .hvcLatchingMechanicalError := by
      rw [(pushState_settles made).1, latches]
      rfl
    have stays : σ.dst.contactorState = .hvcLatchingMechanicalError := by
      rcases List.mem_cons.1 taken with rfl | taken
      · exact latched
      · obtain ⟨mid, rest, rfl⟩ := List.append_of_mem taken
        obtain ⟨between, last, -⟩ := after.cut
        exact latched_requests (between.snoc last) latched
    obtain ⟨-, -, reachable⟩ := exec.reachable_of_mem (List.mem_append_right _ taken)
    refine ⟨stays, ?_⟩
    rw [requests_synced reachable, stays]
    rfl

/-- The state machine at power-on asks for `newState`. -/
def requestStep (w : World) (newState : ContactorState) : Transition World Request where
  src := w
  label := ⟨newState, .scsInitialising⟩
  dst := (Call.pushState newState).result { w with currentState := .scsInitialising }

theorem requestStep_step (w : World) (newState : ContactorState)
    (enough : ∀ n, (Call.pushState newState).exec (n + 8)
      { w with currentState := .scsInitialising, trace := [] } =
        some (requestStep w newState).dst) :
    requests.step w (requestStep w newState).label (requestStep w newState).dst :=
  Call.step_result (.pushState newState) enough

/-- The contactors close in order and the mechanical error is requested. -/
def requestRun : List (Transition World Request) :=
  let closing := requestStep (ContactorController.initialise .powerOn) .hvcPrecharge
  let running := requestStep closing.dst .hvcHighCurrentRun
  [closing, running, requestStep running.dst .hvcLatchingMechanicalError]

theorem coils_follow_requests_latched :
    (∀ τ ∈ requestRun, τ.dst.coils = τ.dst.contactorState.coils ∧ CoilMove τ.src.coils τ.dst.coils) ∧
      ∀ pre τ post, requestRun = pre ++ τ :: post →
        τ.label.newState = .hvcLatchingMechanicalError →
        ∀ σ ∈ τ :: post, σ.dst.contactorState = .hvcLatchingMechanicalError ∧
          σ.dst.coils = (false, false) := by
  have start : requests.Execution [] (ContactorController.initialise .powerOn) :=
    .init ⟨rfl, rfl, rfl⟩
  have closed := start.snoc (requestStep_step _ .hvcPrecharge fun _ => rfl)
  have running := closed.snoc (requestStep_step _ .hvcHighCurrentRun fun _ => rfl)
  have latched : requests.Execution requestRun _ :=
    running.snoc (requestStep_step _ .hvcLatchingMechanicalError fun _ => rfl)
  exact coils_follow_requests latched

end Ams
