import Ams.Controller.Locks
import Ams.Rtx.Inheritance

/-!
# The locks of the controllers under the kernel

The threads of `controlProgram` run under the scheduler of the kernel, whose mutexes stand for the locks.
What holds of the threads in any order holds of them in the order that the priorities, the ticks and the
mutexes leave; beyond that the processor is never idle while a thread is busy.
-/

namespace Ams

open Function Reactive

/-- `osPriority` as the kernel counts it. -/
def osPriorityNormal : ℕ := 4

/-- The priorities with which the threads are created; `BaseTask::create` sets those of the tasks after
that. -/
def ControlThread.base : ControlThread → ℕ
  | .main => osPriorityNormal
  -- `OS_TIMERPRIO - 3`
  | .timer => 6
  | .task _ => osPriorityNormal

theorem ControlThread.base_pos (θ : ControlThread) : 0 < θ.base := by
  cases θ with
  | main => decide
  | timer => decide
  | task t => exact (by decide : 0 < osPriorityNormal)

def controlKernel : System (Multitasking ControlThread Routine ControlLock) (RtxAction ControlThread) :=
  multitasking controlProgram .main ControlThread.base

variable {s : Multitasking ControlThread Routine ControlLock}
  {ts : List (Transition (Multitasking ControlThread Routine ControlLock) (RtxAction ControlThread))}

/-- Under the kernel, whatever the ticks and the interrupts do, a thread in `transition_state` or
`push_state` owns the mutex of the state machine, no threads wait for mutexes in a circle, the running
task has the highest priority of those that can run, and as long as a thread is busy the kernel runs a
thread that can go on. -/
theorem control_over_kernel (h : controlKernel.Reachable s) :
    (∀ θ, ∀ frame ∈ s.stack θ, frame.1 = .transitionState ∨ frame.1 = .pushState →
      s.sched.owner .stateCurrentStateLock = some (some θ) ∧
        s.sched.level .stateCurrentStateLock ≠ 0) ∧
    (∀ θ, ¬ Relation.TransGen s.Blocks θ θ) ∧
    (∀ t ∈ s.sched.rdy, s.sched.prio t ≤ s.sched.prio s.sched.run) ∧
    ((∃ θ, s.stack θ ≠ []) → ∃ θ, s.sched.run = some θ ∧
      ∃ t, controlKernel.step s (if s.stack θ = [] then .block else .run) t) := by
  obtain ⟨inv, reach⟩ := multitasking_inv h
  refine ⟨fun θ frame hf requests => ?_, fun θ circle => ?_, inv.sched.runs.top, fun busy => ?_⟩
  · have held : s.held θ .stateCurrentStateLock ≠ 0 :=
      lockOrder.holds reach hf (stateLock_demanded requests)
    unfold Multitasking.held at held
    split_ifs at held with owner
    · exact ⟨owner, held⟩
    · exact absurd rfl held
  · exact lockOrder.not_deadlocked reach θ (circle.lift id fun _ _ => inv.waitsFor_of_blocks)
  · exact multitasking_progress lockOrder ControlThread.base_pos h busy

/-- The kernel when `main` is entered. -/
def kernelEntered : Multitasking ControlThread Routine ControlLock where
  sched :=
    { run := some .main
      rdy := [none]
      state := fun t => if t = some .main then .running else if t = none then .ready else .waiting
      prio := fun t => t.elim 0 ControlThread.base
      prioBase := fun t => t.elim 0 ControlThread.base
      rlnk := fun _ => none
      mlnk := fun _ => []
      level := fun _ => 0
      owner := fun _ => none
      lnk := fun _ => [] }
  stack := mainEntered.stack

theorem kernelEntered_init : controlKernel.init kernelEntered := by
  refine ⟨rfl, rfl, fun _ => rfl, fun _ => rfl, rfl, fun _ => rfl, fun _ => rfl, fun _ => rfl,
    fun _ => rfl, fun θ ne => ?_, .inr ⟨.main, by decide, _, by decide, rfl⟩⟩
  cases θ with
  | main => exact absurd rfl ne
  | timer => rfl
  | task t => rfl

/-- `main` is in the `push_state` of `StateController::initialise`, and the timer waits for the state
machine. -/
theorem kernel_waits : ∃ ts s, controlKernel.Execution ts s ∧ (∀ τ ∈ ts, SetsUnengaged τ) ∧
    (∃ frame ∈ s.stack .main, frame.1 = .pushState) ∧
    some .timer ∈ s.sched.lnk .stateCurrentStateLock ∧
    s.sched.owner .stateCurrentStateLock = some (some .main) := by
  have initialise : [.lock .stateCurrentStateLock, .call .transitionState,
    .unlock .stateCurrentStateLock] ∈ controlProgram.body .stateControllerInitialise := by decide
  have transition : [.call .pushState] ∈ controlProgram.body .transitionState := by decide
  have push : [.lock .contactorCurrentStateLock, .unlock .contactorCurrentStateLock] ∈
    controlProgram.body .pushState := by decide
  have fire : [.lock .stateCurrentStateLock, .unlock .stateCurrentStateLock] ∈
    controlProgram.body .prechargeTimerFire := by decide
  have start : controlKernel.Execution [] kernelEntered := .init kernelEntered_init
  have initialising := start.snoc (.call rfl rfl initialise)
  have locked := initialising.snoc (.lock rfl rfl rfl)
  have transitioning := locked.snoc (.call rfl rfl transition)
  have pushing := transitioning.snoc (.call rfl rfl push)
  have preempted := pushing.snoc (.tick false [.timer] (by decide) (by decide) rfl)
  have fired := preempted.snoc (.enter rfl rfl (by decide) fire)
  have waiting := fired.snoc (.wait rfl rfl rfl)
  refine ⟨_, _, waiting, ?_, ⟨_, List.mem_cons_self, rfl⟩, ?_, rfl⟩
  · simp [SetsUnengaged]
  · decide

theorem control_over_kernel_waits : ∃ s, controlKernel.Reachable s ∧
    (∃ frame ∈ s.stack .main, frame.1 = .pushState) ∧
    s.sched.owner .stateCurrentStateLock = some (some .main) ∧
    s.sched.level .stateCurrentStateLock ≠ 0 := by
  obtain ⟨ts, s, exec, -, ⟨frame, hf, pushes⟩, -⟩ := kernel_waits
  exact ⟨s, exec.reachable, ⟨frame, hf, pushes⟩,
    (control_over_kernel exec.reachable).1 .main frame hf (.inr pushes)⟩

/-- The mutex that the timer waits for is one that `main` has taken as a lock. -/
theorem multitasking_refines_waits : ∃ s, controlKernel.Reachable s ∧
    some .timer ∈ s.sched.lnk .stateCurrentStateLock ∧ controlThreads.Reachable s.threads := by
  obtain ⟨ts, s, exec, -, -, waits, -⟩ := kernel_waits
  exact ⟨s, exec.reachable, waits, (multitasking_refines exec.reachable).1⟩

/-- `main` has at least the priority of the timer. -/
theorem multitasking_inherits_waits : ∃ s, controlKernel.Reachable s ∧
    some .timer ∈ s.sched.lnk .stateCurrentStateLock ∧
    s.sched.prioBase (some .timer) ≤ s.sched.prio (some .main) := by
  obtain ⟨ts, s, exec, sets, -, waits, owner⟩ := kernel_waits
  exact ⟨s, exec.reachable, waits,
    ((multitasking_inherits ControlThread.base_pos exec sets).1 _ _ _ waits owner).1⟩

end Ams
