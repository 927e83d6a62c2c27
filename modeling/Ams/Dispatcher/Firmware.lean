import Ams.Controller.Kernel
import Ams.Rtx.Rounds

/-!
# The tasks of the firmware

All threads of the program under the kernel, with what they wait for between their rounds.  To the
functions of the controllers come those of the dispatchers, which send through `CANTransceiver::write`
and lock the driver there, and inside it the one mutex of `CAN`.
-/

namespace Ams

open Function Reactive Code

inductive FirmwareLock where
  | control (l : ControlLock)
  /-- `CANTransceiver::driver_lock` -/
  | driverLock
  /-- `CAN::_mutex` -/
  | mutex
  deriving DecidableEq, Repr

/-- The functions of the controllers that lock, and those of the other tasks. -/
inductive Subroutine where
  | control (f : Routine)
  | main
  | canTransceiverInitialise
  | bmsProcedure
  | heartbeatProcedure
  | heartbeatSend
  | statusProcedure
  | statusSend
  | contactorInfoProcedure
  | contactorInfoSend
  | rderrors
  | tderrors
  | write
  | canFrequency
  | canAttach
  | canRderror
  | canTderror
  | canWrite
  deriving DecidableEq, Repr

/-- A statement of the controllers. -/
def Subroutine.lift : Stmt Routine ControlLock → Stmt Subroutine FirmwareLock
  | .lock l => .lock (.control l)
  | .unlock l => .unlock (.control l)
  | .call f => .call (.control f)

namespace Subroutine

def calls (f : Subroutine) : Code Subroutine FirmwareLock := stmt (.call f)

def guarded (l : FirmwareLock) (body : Code Subroutine FirmwareLock) : Code Subroutine FirmwareLock :=
  block [stmt (.lock l), body, stmt (.unlock l)]

def code : Subroutine → Code Subroutine FirmwareLock
  | control f => f.code.map fun way => way.map lift
  | main =>
    block [calls canTransceiverInitialise, calls (.control .stateControllerInitialise),
      calls (.control .contactorControllerInitialise)]
  | canTransceiverInitialise => block [calls canFrequency, calls canAttach]
  | bmsProcedure => skip
  | heartbeatProcedure => calls heartbeatSend
  | heartbeatSend => block [calls rderrors, calls tderrors, calls write]
  | statusProcedure => calls statusSend
  | statusSend => calls write
  | contactorInfoProcedure => calls contactorInfoSend
  | contactorInfoSend => calls write
  | rderrors => calls canRderror
  | tderrors => calls canTderror
  | write => guarded .driverLock (calls canWrite)
  | canFrequency | canAttach | canRderror | canTderror | canWrite => guarded .mutex skip

end Subroutine

/-- `SIGNAL_STATE_CONTROLLER_INTERRUPT` -/
def signalStateControllerInterrupt : BitVec 16 := 2

/-- `STATE_MACHINE_FREQ_MILLISEC` -/
def stateMachineFreqMillisec : ℕ := 1000 / 10

/-- What the tasks wait for; the periods are those of the cyclic ones. -/
def Task.pause : Task → Pause
  | .canTransceiver => .message
  | .stateController => .signal signalStateControllerInterrupt stateMachineFreqMillisec
  | .stackPlausibility => .signal 0 osWaitForever
  | .bmsController => .delay 100
  | .contactorController => .delay 500
  | .heartbeatDispatcher => .delay 1000
  | .statusDispatcher => .delay 75
  | .contactorInfoDispatcher => .delay 200

/-- `CyclicTask` begins with the procedure; the loops of the others begin with the wait. -/
def Task.cyclic : Task → Bool
  | .canTransceiver | .stateController | .stackPlausibility => false
  | _ => true

def Task.procedures : Task → List Subroutine
  | .canTransceiver => [.control .dispatchMessage]
  | .stateController => [.control .stateMachineProcessStep]
  | .stackPlausibility => [.control .stackPlausibilityProcedure]
  | .bmsController => [.bmsProcedure]
  | .contactorController => [.control .contactorControllerProcedure]
  | .heartbeatDispatcher => [.heartbeatProcedure]
  | .statusDispatcher => [.statusProcedure]
  | .contactorInfoDispatcher => [.contactorInfoProcedure]

def firmwareTasking : Tasking ControlThread Subroutine FirmwareLock where
  body := Subroutine.code
  starts
    | .main => [.main]
    | _ => []
  loops
    | .main => []
    | .timer => [.control .prechargeTimerFire, .control .prechargeToggleCb, .control .runToggleCb]
    | .task t => t.procedures
  pause
    | .main => .delay osWaitForever
    | .timer => .message
    | .task t => t.pause
  eager
    | .task t => t.cyclic
    | _ => false
  signals
    | .control .notifyEvent => [(.task .stateController, signalStateControllerInterrupt)]
    | _ => []

def firmware : System (Rounds ControlThread Subroutine FirmwareLock) (RoundAction ControlThread) :=
  rounds firmwareTasking .main ControlThread.base

/-! ## Locks -/

/-- The state of the state machine comes before that of the contactors, and the driver before `CAN`. -/
def FirmwareLock.rank : FirmwareLock → ℕ
  | control l => l.rank
  | driverLock => 0
  | mutex => 1

def Subroutine.contexts : Subroutine → List (Finset FirmwareLock)
  | control f => f.contexts.map (Finset.image .control)
  | canWrite => [{.driverLock}]
  | _ => [∅]

def firmwareLockOrder : Discipline firmwareTasking.toProgram where
  rank := FirmwareLock.rank
  contexts := Subroutine.contexts
  total f := by
    cases f with
    | control f => cases f <;> decide
    | _ => decide
  checked f := by
    cases f with
    | control f => cases f <;> decide
    | _ => decide
  entered θ := by
    cases θ with
    | main => decide
    | timer => decide
    | task t => cases t <;> decide

variable {s : Rounds ControlThread Subroutine FirmwareLock}
  {ts pre mid post : List
    (Transition (Rounds ControlThread Subroutine FirmwareLock) (RoundAction ControlThread))}
  {τ υ : Transition (Rounds ControlThread Subroutine FirmwareLock) (RoundAction ControlThread)}

/-- A function that is entered with a lock only runs while its thread owns the mutex. -/
theorem firmware_owner (h : firmware.Reachable s) {θ : ControlThread} {f : Subroutine}
    {l : FirmwareLock} (demanded : ∀ entry ∈ f.contexts, l ∈ entry)
    {frame : Subroutine × Way Subroutine FirmwareLock} (mem : frame ∈ s.stack θ) (eq : frame.1 = f) :
    s.rtx.sched.owner l = some (some θ) := by
  obtain ⟨reach, -⟩ := Rounds.rounds_inv h
  have held := firmwareLockOrder.holds (multitasking_inv reach).2 mem (eq ▸ demanded)
  unfold Multitasking.threads Multitasking.held at held
  dsimp only at held
  split_ifs at held with owner
  · exact owner
  · exact absurd rfl held

/-- In the whole firmware under the kernel, no two threads are in the write of the CAN driver or in a
change of the contactor state at once, no threads wait for mutexes in a circle, and as long as a thread is
in the middle of its code the kernel does not run the idle task. -/
theorem firmware_exclusive (h : firmware.Reachable s) :
    (∀ f ∈ [Subroutine.canWrite, .control .transitionState, .control .pushState],
      ∀ θ θ' frame frame', frame ∈ s.stack θ → frame' ∈ s.stack θ' → frame.1 = f → frame'.1 = f →
        θ = θ') ∧
    (∀ θ, ¬ Relation.TransGen s.tasks.Blocks θ θ) ∧
    ((∃ θ, s.stack θ ≠ []) → ∃ θ, s.rtx.sched.run = some θ ∧
      (s.stack θ ≠ [] → ∃ t, firmware.step s .run t)) := by
  obtain ⟨reach, inv⟩ := Rounds.rounds_inv h
  refine ⟨fun f hf θ θ' frame frame' mem mem' eq eq' => ?_, fun θ circle => ?_, fun busy => ?_⟩
  · obtain ⟨l, demanded⟩ : ∃ l, ∀ entry ∈ f.contexts, l ∈ entry := by
      simp only [List.mem_cons, List.not_mem_nil, or_false] at hf
      rcases hf with rfl | rfl | rfl
      · exact ⟨.driverLock, by decide⟩
      · exact ⟨.control .stateCurrentStateLock, by decide⟩
      · exact ⟨.control .stateCurrentStateLock, by decide⟩
    have owner := firmware_owner h demanded mem eq
    rw [firmware_owner h demanded mem' eq'] at owner
    exact (Option.some.inj (Option.some.inj owner)).symm
  · exact firmwareLockOrder.not_deadlocked (multitasking_inv reach).2 θ
      (circle.lift id fun _ _ => inv.tasks.waitsFor_of_blocks)
  · obtain ⟨θ, run, t, step⟩ :=
      multitasking_progress firmwareLockOrder ControlThread.base_pos reach busy
    refine ⟨θ, run, fun busy => ?_⟩
    rw [if_neg (show s.tasks.stack θ ≠ [] from busy)] at step
    exact ⟨_, .run run busy step⟩

/-! ## Rounds -/

theorem Task.ticks_of_delay {t : Task} {millisec : ℕ} (delay : t.pause = .delay millisec) :
    millisec ≠ 0 ∧ rtMs2tick millisec = millisec ∧ millisec < 0xFFFF := by
  cases t <;> cases delay <;> decide

/-- In every run of the firmware the rounds of a cyclic task begin at least its period apart, and a task
that waits for signals does not go to sleep over one: if a signal is set that it waits for, it does a round
before it sleeps. -/
theorem firmware_rounds {t : Task} (exec : firmware.Execution (pre ++ τ :: (mid ++ υ :: post)) s) :
    (∀ millisec, t.pause = .delay millisec → τ.label = .enter (.task t) →
      υ.label = .enter (.task t) → τ.src.rtx.osTime + millisec ≤ υ.src.rtx.osTime) ∧
    ∀ signals millisec flags, t.pause = .signal signals millisec →
      τ.src.rtx.Created (some (.task t)) → τ.label.Sets (.task t) flags →
      Rtx.Completes signals flags → υ.label = .pause (.task t) → υ.dst.Sleeps (.task t) →
      ∃ κ ∈ mid, κ.label = .enter (.task t) := by
  refine ⟨fun millisec delay first second => ?_,
    fun signals millisec flags pauses created sets completes falls sleeps => ?_⟩
  · obtain ⟨pos, same, fits⟩ := Task.ticks_of_delay delay
    have apart := Rounds.apart exec first second delay pos (same.symm ▸ fits)
    rwa [same] at apart
  · exact Rounds.signalled exec pauses created sets completes falls sleeps

/-- The firmware when `main` is entered. -/
def firmwareEntered : Rounds ControlThread Subroutine FirmwareLock where
  rtx :=
    { sched :=
        { run := some .main
          rdy := [none]
          state := fun t => if t = some .main then .running else if t = none then .ready else .waiting
          prio := fun t => t.elim 0 ControlThread.base
          prioBase := fun t => t.elim 0 ControlThread.base
          rlnk := fun _ => none
          mlnk := fun _ => []
          level := fun _ => 0
          owner := fun _ => none
          lnk := fun _ => [] }
      osTime := 0
      osDly := []
      waitState := fun _ => .inactive
      events := fun _ => 0
      waits := fun _ => 0 }
  stack
    | .main => [(.main, [.call .canTransceiverInitialise, .call (.control .stateControllerInitialise),
        .call (.control .contactorControllerInitialise)])]
    | _ => []
  due := firmwareTasking.eager

theorem firmwareEntered_init : firmware.init firmwareEntered := by
  refine ⟨⟨rfl, rfl, fun _ => rfl, fun _ => rfl, rfl, fun _ => rfl, fun _ => rfl, fun _ => rfl,
    fun _ => rfl, fun θ ne => ?_, .inr ⟨.main, by decide, _, by decide, rfl⟩⟩, rfl, rfl,
    fun _ => rfl, fun _ => rfl, fun _ => rfl, rfl⟩
  cases θ with
  | main => exact absurd rfl ne
  | timer => rfl
  | task t => rfl

/-- The status dispatcher is in the write of the driver. -/
theorem firmware_writes : ∃ s, firmware.Reachable s ∧
    ∃ frame ∈ s.stack (.task .statusDispatcher), frame.1 = .canWrite := by
  have procedure : Subroutine.statusProcedure ∈
    firmwareTasking.loops (.task .statusDispatcher) := by decide
  have body : [.call .statusSend] ∈ firmwareTasking.body .statusProcedure := by decide
  have send : [.call .write] ∈ firmwareTasking.body .statusSend := by decide
  have write : [.lock .driverLock, .call .canWrite, .unlock .driverLock] ∈
    firmwareTasking.body .write := by decide
  have driver : [.lock .mutex, .unlock .mutex] ∈ firmwareTasking.body .canWrite := by decide
  have start : firmware.Execution [] firmwareEntered := .init firmwareEntered_init
  have created := start.snoc (.create (.task .statusDispatcher) (by decide))
  have preempted := created.snoc (.tick true rfl)
  have entered := preempted.snoc (.enter rfl rfl rfl procedure body)
  have sending := entered.snoc (.run rfl (by decide) (.call rfl rfl send))
  have writing := sending.snoc (.run rfl (by decide) (.call rfl rfl write))
  have locked := writing.snoc (.run rfl (by decide) (.lock rfl rfl rfl))
  have driven := locked.snoc (.run rfl (by decide) (.call rfl rfl driver))
  exact ⟨_, driven.reachable, _, List.mem_cons_self, rfl⟩

theorem firmware_exclusive_writes : ∃ s, firmware.Reachable s ∧
    (∃ frame ∈ s.stack (.task .statusDispatcher), frame.1 = .canWrite) ∧
    ∀ θ, θ ≠ .task .statusDispatcher → ∀ frame ∈ s.stack θ, frame.1 ≠ .canWrite := by
  obtain ⟨s, reach, frame, mem, writes⟩ := firmware_writes
  refine ⟨s, reach, ⟨frame, mem, writes⟩, fun θ ne frame' mem' writes' => ne ?_⟩
  exact (firmware_exclusive reach).1 .canWrite (by simp) θ _ frame' frame mem' mem writes' writes

/-- The signal of an interrupt reaches the thread that checks the stack, which does a round and sleeps
again. -/
theorem firmware_signals : ∃ pre τ mid υ s, firmware.Execution (pre ++ τ :: (mid ++ [υ])) s ∧
    τ.src.rtx.Created (some (.task .stackPlausibility)) ∧ τ.label.Sets (.task .stackPlausibility) 1 ∧
    υ.label = .pause (.task .stackPlausibility) ∧ υ.dst.Sleeps (.task .stackPlausibility) := by
  have procedure : Subroutine.control .stackPlausibilityProcedure ∈
    firmwareTasking.loops (.task .stackPlausibility) := by decide
  have body : [] ∈ firmwareTasking.body (.control .stackPlausibilityProcedure) := by decide
  have start : firmware.Execution [] firmwareEntered := .init firmwareEntered_init
  have created := start.snoc (.create (.task .stackPlausibility) (by decide))
  have preempted := created.snoc (.tick true rfl)
  have slept := preempted.snoc (.signalWait rfl rfl rfl rfl rfl)
  have signalled := slept.snoc (.interrupt [.signal (some (.task .stackPlausibility)) 1] rfl)
  have preempted' := signalled.snoc (.tick true rfl)
  have entered := preempted'.snoc (.enter rfl rfl rfl procedure body)
  have returned := entered.snoc (.run rfl (by decide) (.ret rfl rfl))
  have slept' := returned.snoc (.signalWait rfl rfl rfl rfl rfl)
  exact ⟨[_, _, _], _, [_, _, _], _, _, slept', by decide, List.mem_cons_self, rfl, rfl⟩

/-- The task for the battery management does two rounds, and the state machine waits for its first 100
milliseconds to pass meanwhile. -/
theorem firmware_run : ∃ pre τ mid σ mid' υ post s,
    firmware.Execution (pre ++ τ :: mid ++ σ :: mid' ++ υ :: post) s ∧
    τ.label = .enter (.task .bmsController) ∧ υ.label = .enter (.task .bmsController) ∧
    υ.src.rtx.osTime = 100 ∧
    σ.label = .pause (.task .stateController) ∧ σ.dst.rtx.osTime = 40 ∧ s.rtx.osTime = 139 ∧
    ∀ κ ∈ σ :: (mid' ++ υ :: post), κ.dst.Sleeps (.task .stateController) := by
  have procedure : Subroutine.bmsProcedure ∈
    firmwareTasking.loops (.task .bmsController) := by decide
  have body : [] ∈ firmwareTasking.body .bmsProcedure := by decide
  have start : firmware.Execution [] firmwareEntered := .init firmwareEntered_init
  have created := start.snoc (.create (.task .bmsController) (by decide))
  have raised := created.snoc (.setPriority (.task .bmsController) 7 (by decide) rfl)
  have entered := raised.snoc (.enter rfl rfl rfl procedure body)
  have returned := entered.snoc_after (.run rfl (by decide) (.ret rfl rfl))
  have slept := returned.snoc_after (.delay rfl rfl rfl rfl rfl)
  obtain ⟨ticks, elapsed, -⟩ := Rounds.elapse slept (n := 40) rfl rfl (by decide)
  have created' := elapsed.snoc_after (.create (.task .stateController) (by decide))
  have raised' := created'.snoc_after (.setPriority (.task .stateController) 7 (by decide) rfl)
  have waits := raised'.snoc (.signalWait rfl rfl rfl rfl rfl)
  -- the delay has 60 milliseconds left, and the time-out is behind it in the list
  obtain ⟨ticks', elapsed', same'⟩ := Rounds.elapse waits (n := 59) rfl rfl (by decide)
  have woken := elapsed'.snoc_after (.tick false rfl)
  have entered' := woken.snoc (.enter rfl rfl rfl procedure body)
  have returned' := entered'.snoc_after (.run rfl (by decide) (.ret rfl rfl))
  have slept' := returned'.snoc_after (.delay rfl rfl rfl rfl rfl)
  obtain ⟨ticks'', elapsed'', same''⟩ := Rounds.elapse slept' (n := 39) rfl rfl (by decide)
  refine ⟨_, _, _, _, _, _, _, _, elapsed'', rfl, rfl, rfl, rfl, rfl, rfl, fun κ mem => ?_⟩
  unfold Rounds.Sleeps
  simp only [List.mem_cons, List.mem_append, List.not_mem_nil, or_false, false_or] at mem
  rcases mem with rfl | (mem | rfl) | rfl | (rfl | rfl) | mem
  · rfl
  · rw [same' κ mem]
    rfl
  · rfl
  · rfl
  · rfl
  · rfl
  · rw [same'' κ mem]
    rfl

theorem firmware_rounds_periods_signals :
    (∃ pre τ mid υ post s, firmware.Execution (pre ++ τ :: (mid ++ υ :: post)) s ∧
      τ.label = .enter (.task .bmsController) ∧ υ.label = .enter (.task .bmsController) ∧
      υ.src.rtx.osTime = 100 ∧ τ.src.rtx.osTime + 100 ≤ υ.src.rtx.osTime) ∧
    ∃ pre τ mid υ s, firmware.Execution (pre ++ τ :: (mid ++ [υ])) s ∧
      υ.dst.Sleeps (.task .stackPlausibility) ∧
      ∃ κ ∈ mid, κ.label = .enter (.task .stackPlausibility) := by
  constructor
  · obtain ⟨pre, τ, mid, σ, mid', υ, post, s, exec, first, second, now, -⟩ := firmware_run
    have exec : firmware.Execution (pre ++ τ :: (mid ++ σ :: mid' ++ υ :: post)) s := by
      simpa only [List.append_assoc, List.cons_append] using exec
    exact ⟨pre, τ, _, υ, post, s, exec, first, second, now,
      (firmware_rounds exec).1 100 rfl first second⟩
  · obtain ⟨pre, τ, mid, υ, s, exec, created, sets, falls, sleeps⟩ := firmware_signals
    exact ⟨pre, τ, mid, υ, s, exec, sleeps, (firmware_rounds exec).2 0 osWaitForever 1 rfl created
      sets (by simp [Rtx.Completes]) falls sleeps⟩

theorem sleeps_until_machine : ∃ pre σ mid s, firmware.Execution (pre ++ σ :: mid) s ∧
    σ.dst.rtx.osTime = 40 ∧ s.rtx.osTime = 139 ∧
    (∃ κ ∈ mid, κ.label = .enter (.task .bmsController)) ∧
    s.rtx.osTime < σ.dst.rtx.osTime + 100 ∧
    (∀ t, firmware.step s .tick t → ¬ t.Sleeps (.task .stateController)) ∧
    ∀ a t, firmware.step s a t → a ≠ .tick → ¬ t.Sleeps (.task .stateController) →
      ∃ flags, a.Sets (.task .stateController) flags := by
  obtain ⟨pre, τ, mid, σ, mid', υ, post, s, exec, -, second, -, falls, since, now, asleep⟩ :=
    firmware_run
  have exec : firmware.Execution (pre ++ τ :: mid ++ σ :: (mid' ++ υ :: post)) s := by
    simpa only [List.append_assoc, List.cons_append] using exec
  obtain ⟨within, wakes, others⟩ := Rounds.sleeps_until exec falls asleep (by decide)
  refine ⟨_, σ, _, s, exec, since, now, ⟨υ, by simp, second⟩, within, fun t ticked sleeps => ?_,
    others⟩
  have inv := (Rounds.rounds_inv exec.reachable).2
  have later : t.rtx.osTime = s.rtx.osTime + 1 := (ticked.effect inv.tasks inv.queued).osTime
  refine (wakes t ticked).1 sleeps ?_
  rw [later, now, since]
  rfl

end Ams
