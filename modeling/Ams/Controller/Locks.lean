import Ams.Controller.Startup
import Ams.Lib.Locks
import Mathlib.Data.Fintype.Option

/-!
# The locks of the controllers

The functions of the controllers as the ways in which they lock, unlock and call each other, whatever
they find in the state and on the pins.  A request locks the contactor state while the thread holds
the state of the state machine, and the sequence error locks the latter again from within; the locks
are recursive, so the order of the two is never turned round (`lockOrder`).
-/

namespace Ams

open Reactive Code

inductive ControlLock where
  /-- `StateController::current_state_lock` -/
  | stateCurrentStateLock
  | tractivePowerEnableLock
  /-- `ContactorController::current_state_lock` -/
  | contactorCurrentStateLock
  deriving DecidableEq, Repr

open ControlLock

/-- The functions that lock or call one that does. -/
inductive Routine where
  | main
  | stateControllerInitialise
  | contactorControllerInitialise
  | prechargeTimerFire
  | dispatchMessage
  | pushTractiveEnable
  | notifyEvent
  | transitionState
  | pushState
  | processErrorStates
  | processWaitingStates
  | processActivatedStates
  | stateMachineProcessStep
  | prechargeToggleCb
  | runToggleCb
  | contactorControllerProcedure
  | stackPlausibilityProcedure
  deriving DecidableEq, Repr

namespace Routine

def calls (f : Routine) : Code Routine ControlLock := stmt (.call f)

def guarded (l : ControlLock) (body : Code Routine ControlLock) : Code Routine ControlLock :=
  block [stmt (.lock l), body, stmt (.unlock l)]

/-- An `if` without `else`. -/
def optional (body : Code Routine ControlLock) : Code Routine ControlLock := branch [body, skip]

/-- The bodies; that of `stackPlausibilityProcedure` is one round of its loop. -/
def code : Routine → Code Routine ControlLock
  | main => block [calls stateControllerInitialise, calls contactorControllerInitialise]
  | stateControllerInitialise => guarded stateCurrentStateLock (calls transitionState)
  | contactorControllerInitialise => guarded contactorCurrentStateLock skip
  | prechargeTimerFire => guarded stateCurrentStateLock (optional (calls transitionState))
  | dispatchMessage => optional (calls pushTractiveEnable)
  | pushTractiveEnable => block [guarded tractivePowerEnableLock skip, optional (calls notifyEvent)]
  | notifyEvent =>
    guarded stateCurrentStateLock (branch
      [optional (calls transitionState), optional (calls transitionState), skip])
  | transitionState => branch [calls pushState, calls pushState, skip, calls pushState]
  | pushState => guarded contactorCurrentStateLock (optional (calls notifyEvent))
  | processErrorStates => skip
  | processWaitingStates =>
    branch [calls transitionState, calls transitionState, calls transitionState, skip]
  | processActivatedStates =>
    branch [calls transitionState, calls transitionState, calls transitionState, skip]
  | stateMachineProcessStep =>
    guarded stateCurrentStateLock (branch
      [skip,
        calls processErrorStates,
        block [calls processWaitingStates,
          branch [calls transitionState, optional (calls transitionState)]],
        block [calls processWaitingStates, optional (calls transitionState)],
        calls processActivatedStates,
        block [calls processActivatedStates, branch [calls transitionState, calls transitionState]],
        calls processActivatedStates])
  | prechargeToggleCb => calls contactorControllerProcedure
  | runToggleCb => calls contactorControllerProcedure
  -- the body is commented out in the source
  | contactorControllerProcedure => skip
  | stackPlausibilityProcedure => optional (calls notifyEvent)

end Routine

/-- The threads; the timers have one for their callbacks. -/
inductive ControlThread where
  | main
  | timer
  | task (t : Task)
  deriving DecidableEq, Repr

instance : Fintype Task where
  elems := ⟨creations, by decide⟩
  complete t := by cases t <;> decide

instance : Finite ControlThread := by
  let thread : Option (Option Task) → ControlThread
    | none => .main
    | some none => .timer
    | some (some t) => .task t
  refine Finite.of_surjective thread fun θ => ?_
  cases θ with
  | main => exact ⟨none, rfl⟩
  | timer => exact ⟨some none, rfl⟩
  | task t => exact ⟨some (some t), rfl⟩

open Routine in
/-- The tasks that are not listed lock nothing.  A task that `main` has not created yet is one that
has not been woken. -/
def controlProgram : Program ControlThread Routine ControlLock where
  body := code
  starts
    | .main => [main]
    | _ => []
  loops
    | .timer => [prechargeTimerFire, prechargeToggleCb, runToggleCb]
    | .task .canTransceiver => [dispatchMessage]
    | .task .stateController => [stateMachineProcessStep]
    | .task .stackPlausibility => [stackPlausibilityProcedure]
    | .task .contactorController => [contactorControllerProcedure]
    | _ => []

/-- The threads of the program. -/
def controlThreads : System (Threads ControlThread Routine ControlLock) ControlThread :=
  controlProgram.threads

/-- The state of the state machine is locked before that of the contactors. -/
def ControlLock.rank : ControlLock → ℕ
  | stateCurrentStateLock => 0
  | tractivePowerEnableLock => 0
  | contactorCurrentStateLock => 1

/-- The locks with which the functions are entered. -/
def Routine.contexts : Routine → List (Finset ControlLock)
  | transitionState | pushState =>
    [{stateCurrentStateLock}, {stateCurrentStateLock, contactorCurrentStateLock}]
  | notifyEvent => [∅, {stateCurrentStateLock, contactorCurrentStateLock}]
  | processErrorStates | processWaitingStates | processActivatedStates => [{stateCurrentStateLock}]
  | _ => [∅]

def lockOrder : Discipline controlProgram where
  rank := ControlLock.rank
  contexts := Routine.contexts
  total f := by cases f <;> decide
  checked f := by cases f <;> decide
  entered θ := by
    cases θ with
    | main => decide
    | timer => decide
    | task t => cases t <;> decide

variable {s : Threads ControlThread Routine ControlLock}

theorem stateLock_demanded {f : Routine} (h : f = .transitionState ∨ f = .pushState) :
    ∀ entry ∈ f.contexts, stateCurrentStateLock ∈ entry := by
  rcases h with rfl | rfl <;> decide

/-- In every order of the threads, `transition_state` and `push_state` run with the state of the state
machine locked, no threads wait for each other in a circle, and some busy thread can go on. -/
theorem control_deadlock_free (h : controlThreads.Reachable s) :
    (∀ θ, ∀ frame ∈ s.stack θ, frame.1 = .transitionState ∨ frame.1 = .pushState →
      s.held θ stateCurrentStateLock ≠ 0) ∧
    (∀ θ, ¬ Relation.TransGen s.WaitsFor θ θ) ∧
    ((∃ θ, s.stack θ ≠ []) → ∃ θ, s.stack θ ≠ [] ∧ ∃ t, controlThreads.step s θ t) := by
  refine ⟨fun θ frame hf requests => ?_, fun θ => ?_, fun busy => ?_⟩
  · exact lockOrder.holds h hf (stateLock_demanded requests)
  · exact lockOrder.not_deadlocked h θ
  · exact lockOrder.progress h busy

/-- The threads when `main` is entered. -/
def mainEntered : Threads ControlThread Routine ControlLock where
  stack
    | .main => [(.main, [.call .stateControllerInitialise, .call .contactorControllerInitialise])]
    | _ => []
  held _ _ := 0

theorem mainEntered_init : controlThreads.init mainEntered := by
  intro θ
  refine ⟨rfl, ?_⟩
  cases θ with
  | main => exact .inr ⟨.main, by decide, _, by decide, rfl⟩
  | timer => exact .inl rfl
  | task t => exact .inl rfl

/-- `main` is in the `push_state` of `StateController::initialise`. -/
theorem control_deadlock_free_initialise : ∃ s, controlThreads.Reachable s ∧
    (∃ frame ∈ s.stack .main, frame.1 = .pushState) ∧ s.held .main stateCurrentStateLock ≠ 0 := by
  have initialise : [.lock stateCurrentStateLock, .call .transitionState,
    .unlock stateCurrentStateLock] ∈ controlProgram.body .stateControllerInitialise := by decide
  have transition : [.call .pushState] ∈ controlProgram.body .transitionState := by decide
  have push : [.lock contactorCurrentStateLock, .unlock contactorCurrentStateLock] ∈
    controlProgram.body .pushState := by decide
  have start := (System.Execution.init mainEntered_init).reachable
  have initialising := start.step (l := .main) (.call rfl initialise)
  have locked := initialising.step (l := .main) (.lock rfl fun _ _ => rfl)
  have transitioning := locked.step (l := .main) (.call rfl transition)
  have pushing := transitioning.step (l := .main) (.call rfl push)
  exact ⟨_, pushing, ⟨_, List.mem_cons_self, rfl⟩,
    (control_deadlock_free pushing).1 .main _ List.mem_cons_self (.inr rfl)⟩

end Ams
