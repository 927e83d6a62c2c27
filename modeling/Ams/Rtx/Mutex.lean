import Ams.Lib.Priority
import Mathlib.Logic.Function.Basic

/-!
# Tasks and mutexes of the kernel

A task runs, is in the ready list, or waits; the ready list and the lists of the tasks that wait for a
mutex are queues by priority.  A mutex counts how often its owner has taken it.  A task that finds it
taken raises the priority of the owner to its own and waits, and the owner hands the mutex over to the
first that waits for it and gives its priority back.
-/

namespace Ams

open Function Reactive

/-- The states of a task; those of the waits but for a mutex are one. -/
inductive TaskState where
  | ready
  | running
  | waitMut
  | waiting
  deriving DecidableEq, Repr

/-- The fields of `os_tsk`, `os_rdy`, the control blocks of the tasks and those of the mutexes.  In place
of the neighbour `p_rlnk` stands the mutex in whose list the task is. -/
structure Scheduler (T M : Type*) where
  run : T
  rdy : List T
  state : T → TaskState
  prio : T → ℕ
  prioBase : T → ℕ
  rlnk : T → Option M
  /-- the list of the mutexes that the task owns -/
  mlnk : T → List M
  level : M → ℕ
  owner : M → Option T
  /-- the list of the tasks that wait for the mutex -/
  lnk : M → List T

inductive OsResult where
  | ok
  | tmo
  | nok
  deriving DecidableEq, Repr

section Tasks

variable {T M : Type*} [DecidableEq T]

def rtSwitchReq (next : T) (k : Scheduler T M) : Scheduler T M :=
  { k with run := next, state := update k.state next .running }

/-- `rt_put_prio` into the ready list. -/
def putReady (t : T) (k : Scheduler T M) : Scheduler T M :=
  { k with rdy := putPrio k.prio t k.rdy, state := update k.state t .ready }

def rtPutRdyFirst (t : T) (k : Scheduler T M) : Scheduler T M :=
  { k with rdy := t :: k.rdy, state := update k.state t .ready }

/-- `rt_dispatch` without a task; `none` for an empty ready list. -/
def rtDispatchFirst (k : Scheduler T M) : Option (Scheduler T M) :=
  match k.rdy with
  | [] => none
  | next :: rdy => some (rtSwitchReq next { k with rdy := rdy })

def rtDispatch (next : T) (k : Scheduler T M) : Scheduler T M :=
  if k.prio k.run < k.prio next then rtSwitchReq next (rtPutRdyFirst k.run k) else putReady next k

/-- With a time-out, if any, that never comes. -/
def rtBlock (blockState : TaskState) (k : Scheduler T M) : Option (Scheduler T M) :=
  rtDispatchFirst { k with state := update k.state k.run blockState }

/-- The time of the round robin expires with the tick if `robin`, and the tasks `woken` are woken by it
one by one; `rt_pop_req` does the same without the round robin. -/
def rtSystick (robin : Bool) (woken : List T) (k : Scheduler T M) : Option (Scheduler T M) :=
  let k := rtPutRdyFirst k.run k
  let k := match k.rdy with
    | new :: rdy => if robin then { k with rdy := putPrio k.prio new rdy } else k
    | [] => k
  rtDispatchFirst (woken.foldl (fun k t => putReady t k) k)

end Tasks

variable {T M : Type*} [DecidableEq T] [DecidableEq M]

/-- After a change of the priority of `t`. -/
def rtResortPrio (t : T) (k : Scheduler T M) : Scheduler T M :=
  match k.rlnk t with
  | none => if k.state t = .ready then { k with rdy := putPrio k.prio t (k.rdy.erase t) } else k
  | some m => { k with lnk := update k.lnk m (putPrio k.prio t ((k.lnk m).erase t)) }

def rtTskPrio (t : T) (newPrio : ℕ) (k : Scheduler T M) : Option (Scheduler T M) :=
  let k := { k with
    prio := update k.prio t newPrio
    prioBase := update k.prioBase t newPrio }
  if t = k.run then
    match k.rdy with
    | [] => none
    | first :: _ =>
      if newPrio < k.prio first then rtDispatchFirst (putReady k.run k) else some k
  else
    let k := rtResortPrio t k
    if k.state t = .ready then
      match k.rdy with
      | [] => none
      | first :: rdy => some (rtDispatch first { k with rdy := rdy })
    else some k

/-- The owner of a mutex gets the priority of the running task if that is above its own. -/
def Scheduler.raise (owner : T) (k : Scheduler T M) : Scheduler T M :=
  if k.prio owner < k.prio k.run then
    rtResortPrio owner { k with prio := update k.prio owner (k.prio k.run) }
  else k

/-- The running task is put into the list of the tasks that wait for the mutex. -/
def Scheduler.chain (m : M) (k : Scheduler T M) : Scheduler T M :=
  { k with
    lnk := update k.lnk m (putPrio k.prio k.run (k.lnk m))
    rlnk := update k.rlnk k.run (some m) }

/-- The running task becomes the owner of the mutex. -/
def Scheduler.own (m : M) (k : Scheduler T M) : Scheduler T M :=
  { k with
    owner := update k.owner m (some k.run)
    mlnk := update k.mlnk k.run (m :: k.mlnk k.run) }

/-- `level++`; the levels of nesting are fewer than the 65536 that fit, as each takes its part of a
stack. -/
def Scheduler.inc (m : M) (k : Scheduler T M) : Scheduler T M :=
  { k with level := update k.level m (k.level m + 1) }

/-- Without a time-out. -/
def rtMutWait (m : M) (k : Scheduler T M) : Option (Scheduler T M × OsResult) :=
  if k.level m = 0 then some ((k.own m).inc m, .ok)
  else if k.owner m = some k.run then some (k.inc m, .ok)
  else
    match k.owner m with
    | none => none
    | some owner => (rtBlock .waitMut ((k.raise owner).chain m)).map (·, .tmo)

/-- `--level` -/
def Scheduler.dec (m : M) (k : Scheduler T M) : Scheduler T M :=
  { k with level := update k.level m (k.level m - 1) }

/-- One round of the loop over the mutexes of a task: the priority of the first that waits, if that is
higher. -/
def Scheduler.highest (k : Scheduler T M) (prio : ℕ) (m : M) : ℕ :=
  match k.lnk m with
  | [] => prio
  | first :: _ => if prio < k.prio first then k.prio first else prio

/-- The priority of the running task as it is restored. -/
def Scheduler.restoredPrio (k : Scheduler T M) : ℕ :=
  (k.mlnk k.run).foldl k.highest (k.prioBase k.run)

/-- The running task strikes the mutex off its list and restores its priority. -/
def Scheduler.disown (m : M) (k : Scheduler T M) : Scheduler T M :=
  let k := { k with mlnk := update k.mlnk k.run ((k.mlnk k.run).erase m) }
  { k with prio := update k.prio k.run k.restoredPrio }

/-- A task that waits for the mutex becomes its owner. -/
def Scheduler.handOver (m : M) (first : T) (rest : List T) (k : Scheduler T M) : Scheduler T M :=
  { k with
    lnk := update k.lnk m rest
    rlnk := update k.rlnk first none
    level := update k.level m 1
    owner := update k.owner m (some first)
    mlnk := update k.mlnk first (m :: k.mlnk first) }

/-- With the task that gets the mutex, if one does. -/
def rtMutRelease (m : M) (k : Scheduler T M) : Option (Scheduler T M × OsResult × Option T) :=
  if k.level m = 0 ∨ k.owner m ≠ some k.run then some (k, .nok, none)
  else
    let k := k.dec m
    if k.level m ≠ 0 then some (k, .ok, none)
    else
      let k := k.disown m
      match k.rdy, k.lnk m with
      | [], _ => none
      | ready :: _, first :: rest =>
        let k := k.handOver m first rest
        if k.prio ready ≤ k.prio k.run then some (rtDispatch first k, .ok, some first)
        else (rtDispatchFirst (putReady first (putReady k.run k))).map (·, .ok, some first)
      | ready :: _, [] =>
        if k.prio k.run < k.prio ready then
          (rtDispatchFirst (putReady k.run k)).map (·, .ok, none)
        else some (k, .ok, none)

end Ams
