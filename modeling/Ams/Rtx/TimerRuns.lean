import Ams.Rtx.Expiry
import Mathlib.Data.Fintype.Card

/-!
# Runs of the timer service

A start gives a timer its instant, whatever it has been before, and a stop or a deletion takes it away
(`Rearmed`).  Over a run, `schedule` is what the commands to a timer ask for, found from the commands
alone.  A timer is posted at the ticks that its schedule asks for and at no others, and the callbacks
are called in the order of the posts, none lost and none twice.
-/

namespace Ams

open Reactive TimerService

variable {I : Type*} [DecidableEq I] {s t : TimerService I} {pt i : I} {now u : ℕ}
  {millisec : UInt32}

/-! ## Commands -/

/-- The timer `pt` is to expire after `alarm`, if at all, and the others as before. -/
structure Rearmed (pt : I) (alarm : Option ℕ) (s t : TimerService I) : Prop where
  deadlines : ∀ now i u, (i, u) ∈ t.deadlines now ↔
    (i = pt ∧ ∃ d ∈ alarm, u = now + d) ∨ i ≠ pt ∧ (i, u) ∈ s.deadlines now
  others : ∀ i, i ≠ pt → t.cb i = s.cb i
  type : (t.cb pt).type = (s.cb pt).type
  messages : t.messages = s.messages
  inv : t.Inv

omit [DecidableEq I] in
theorem TimerService.Inv.not_mem (inv : s.Inv) (idle : (s.cb pt).state ≠ .osTimerRunning) :
    (pt, u) ∉ s.deadlines now := fun h => idle (inv.running_of_mem h)

/-- The list without one of its timers. -/
theorem TimerService.Inv.remove (inv : s.Inv) (running : (s.cb pt).state = .osTimerRunning) :
    ∃ rest, rtTimerRemove pt s.osTimerHead = some rest ∧ (deltas rest).Ahead ∧
      rest.map Prod.fst = (s.osTimerHead.map Prod.fst).erase pt ∧
      ∀ now i u, (i, u) ∈ DeltaList.deadlines now (deltas rest) ↔
        i ≠ pt ∧ (i, u) ∈ s.deadlines now := by
  obtain ⟨rest, removed, same⟩ := rtTimerRemove_eq_some ((inv.running pt).2 running) inv.fits
  refine ⟨rest, removed, ?_, ?_, fun now i u => ?_⟩
  · rw [same]
    exact inv.ahead.remove
  · rw [← map_fst_deltas, same, DeltaList.map_fst_remove, map_fst_deltas]
  · rw [same, DeltaList.mem_deadlines_remove inv.nodup_deltas]
    rfl

/-- A timer that is not in the list is put into it. -/
theorem Rearmed.insert {rest : TimerList I} {cb : I → OsTimerCb} (inv : s.Inv)
    (pos : 0 < millisec.toNat) (ahead : (deltas rest).Ahead)
    (keys : rest.map Prod.fst = (s.osTimerHead.map Prod.fst).erase pt)
    (deadlines : ∀ now i u, (i, u) ∈ DeltaList.deadlines now (deltas rest) ↔
      i ≠ pt ∧ (i, u) ∈ s.deadlines now)
    (others : ∀ i, i ≠ pt → cb i = s.cb i) (type : (cb pt).type = (s.cb pt).type)
    (running : (cb pt).state = .osTimerRunning) (period : 0 < (cb pt).icnt.toNat) :
    Rearmed pt (some millisec.toNat) s
      { s with cb := cb, osTimerHead := rtTimerInsert pt millisec rest } := by
  have instants (now : ℕ) (i : I) (u : ℕ) :
      (i, u) ∈ DeltaList.deadlines now (deltas (rtTimerInsert pt millisec rest)) ↔
        i = pt ∧ u = now + millisec.toNat ∨ i ≠ pt ∧ (i, u) ∈ s.deadlines now := by
    rw [mem_deadlines_rtTimerInsert, deadlines]
  have perm := map_fst_rtTimerInsert_perm pt millisec rest
  refine ⟨fun now i u => ?_, others, type, rfl, ?_, fun i => ?_, ?_, fun e he => ?_, fun i hi => ?_,
    inv.waiting⟩
  · simp [TimerService.deadlines, instants]
  · rw [perm.nodup_iff, keys]
    exact List.nodup_cons.2 ⟨inv.distinct.not_mem_erase, inv.distinct.erase _⟩
  · rw [perm.mem_iff, keys, List.mem_cons]
    by_cases same : i = pt
    · simp [same, running]
    · simp [same, others i same, List.mem_erase_of_ne same, inv.running]
  · exact ahead_rtTimerInsert ahead pos
  · rcases (instants 0 e.1 e.2).1 he with ⟨-, new⟩ | ⟨-, old⟩
    · rw [new, zero_add]
      exact millisec.toNat_lt
    · exact inv.fits _ old
  · by_cases same : i = pt
    · exact same ▸ period
    · dsimp only at hi ⊢
      rw [others i same] at hi ⊢
      exact inv.period i hi

/-- A timer that is taken from the list. -/
theorem Rearmed.erase {rest : TimerList I} {state : OsTimerState} (inv : s.Inv)
    (ahead : (deltas rest).Ahead) (keys : rest.map Prod.fst = (s.osTimerHead.map Prod.fst).erase pt)
    (deadlines : ∀ now i u, (i, u) ∈ DeltaList.deadlines now (deltas rest) ↔
      i ≠ pt ∧ (i, u) ∈ s.deadlines now)
    (stopped : state ≠ .osTimerRunning) :
    Rearmed pt none s { s.setState pt state with osTimerHead := rest } := by
  have others (i : I) (ne : i ≠ pt) : (s.setState pt state).cb i = s.cb i := by
    simp [setState, ne]
  have self : ((s.setState pt state).cb pt).state = state := by simp [setState]
  refine ⟨fun now i u => ?_, others, by simp [setState], rfl, ?_, fun i => ?_, ahead, fun e he => ?_,
    fun i hi => ?_, inv.waiting⟩
  · simp [TimerService.deadlines, deadlines]
  · rw [keys]
    exact inv.distinct.erase _
  · dsimp only
    rw [keys]
    by_cases same : i = pt
    · rw [same, self]
      simp [inv.distinct.not_mem_erase, stopped]
    · rw [others i same, List.mem_erase_of_ne same, inv.running]
  · exact inv.fits _ ((deadlines 0 e.1 e.2).1 he).2
  · by_cases same : i = pt
    · dsimp only at hi
      rw [same, self] at hi
      exact absurd hi stopped
    · dsimp only at hi ⊢
      rw [others i same] at hi ⊢
      exact inv.period i hi

omit [DecidableEq I] in
theorem toNat_pos_of_ne_zero (h : millisec ≠ 0) : 0 < millisec.toNat :=
  Nat.pos_of_ne_zero fun zero => h (UInt32.toNat_inj.1 zero)

/-- A start from the stopped state sets the interval, and a restart does not. -/
theorem svcTimerStart_cases (inv : s.Inv) (pt : I) (millisec : UInt32) :
    (∃ t, svcTimerStart pt millisec s = (.osOK, t) ∧ Rearmed pt (some millisec.toNat) s t ∧
      (t.cb pt).state = .osTimerRunning ∧ millisec ≠ 0 ∧ (s.cb pt).state ≠ .osTimerInvalid ∧
      (t.cb pt).icnt = if (s.cb pt).state = .osTimerRunning then (s.cb pt).icnt else millisec) ∨
    ∃ e, e ≠ .osOK ∧ svcTimerStart pt millisec s = (e, s) ∧
      (millisec = 0 ∨ (s.cb pt).state = .osTimerInvalid) := by
  by_cases zero : millisec = 0
  · exact .inr ⟨.osErrorValue, by decide, by rw [svcTimerStart, if_pos zero], .inl zero⟩
  have pos := toNat_pos_of_ne_zero zero
  cases state : (s.cb pt).state with
  | osTimerInvalid =>
    refine .inr ⟨.osErrorResource, by decide, ?_, .inr rfl⟩
    simp only [svcTimerStart, if_neg zero, state]
  | osTimerStopped =>
    have idle : (s.cb pt).state ≠ .osTimerRunning := by rw [state]; decide
    have absent : pt ∉ s.osTimerHead.map Prod.fst := mt (inv.running pt).1 idle
    refine .inl ⟨_, by simp only [svcTimerStart, if_neg zero, state, timerTicks_eq]; rfl,
      .insert inv pos inv.ahead (List.erase_of_not_mem absent).symm (fun now i u => ?_)
        (fun i ne => by simp [ne]) (by simp) (by simp) (by simpa using pos), by simp, zero, nofun,
      by simp⟩
    refine ⟨fun h => ⟨?_, h⟩, And.right⟩
    rintro rfl
    exact inv.not_mem idle h
  | osTimerRunning =>
    obtain ⟨rest, removed, ahead, keys, deadlines⟩ := inv.remove state
    refine .inl ⟨_, by simp only [svcTimerStart, if_neg zero, state, removed, timerTicks_eq],
      .insert inv pos ahead keys deadlines (fun _ _ => rfl) rfl state (inv.period pt state), state,
      zero, nofun, rfl⟩

theorem svcTimerStop_cases (inv : s.Inv) (pt : I) :
    (∃ t, svcTimerStop pt s = (.osOK, t) ∧ Rearmed pt none s t ∧
      (t.cb pt).state = .osTimerStopped ∧ (s.cb pt).state = .osTimerRunning) ∨
      ∃ e, e ≠ .osOK ∧ svcTimerStop pt s = (e, s) ∧ (s.cb pt).state ≠ .osTimerRunning := by
  by_cases running : (s.cb pt).state = .osTimerRunning
  · obtain ⟨rest, removed, ahead, keys, deadlines⟩ := inv.remove running
    have stopped : (OsTimerState.osTimerStopped) ≠ .osTimerRunning := by decide
    refine .inl ⟨_, ?_, .erase inv ahead keys deadlines stopped, by simp [setState], running⟩
    simp only [svcTimerStop, if_pos running]
    rw [show (s.setState pt .osTimerStopped).osTimerHead = s.osTimerHead from rfl, removed]
  · exact .inr ⟨.osErrorResource, by decide, by rw [svcTimerStop, if_neg running], running⟩

theorem svcTimerDelete_cases (inv : s.Inv) (pt : I) :
    (∃ t, svcTimerDelete pt s = (.osOK, t) ∧ Rearmed pt none s t ∧
      (t.cb pt).state = .osTimerInvalid) ∨
      ∃ e, e ≠ .osOK ∧ svcTimerDelete pt s = (e, s) ∧ (s.cb pt).state = .osTimerInvalid := by
  have invalid : (OsTimerState.osTimerInvalid) ≠ .osTimerRunning := by decide
  cases state : (s.cb pt).state with
  | osTimerInvalid =>
    refine .inr ⟨.osErrorResource, by decide, ?_, rfl⟩
    simp only [svcTimerDelete, state]
  | osTimerStopped =>
    have idle : (s.cb pt).state ≠ .osTimerRunning := by rw [state]; decide
    have absent : pt ∉ s.osTimerHead.map Prod.fst := mt (inv.running pt).1 idle
    refine .inl ⟨s.setState pt .osTimerInvalid, by simp only [svcTimerDelete, state],
      .erase inv inv.ahead (List.erase_of_not_mem absent).symm
        (fun now i u => ⟨fun h => ⟨?_, h⟩, And.right⟩) invalid, by simp [setState]⟩
    rintro rfl
    exact inv.not_mem idle h
  | osTimerRunning =>
    obtain ⟨rest, removed, ahead, keys, deadlines⟩ := inv.remove state
    refine .inl ⟨_, ?_, .erase inv ahead keys deadlines invalid, by simp [setState]⟩
    simp only [svcTimerDelete, state, removed, Option.getD_some]
    rfl

theorem svcTimerCreate_inv (inv : s.Inv) {type : OsTimerType}
    (made : svcTimerCreate pt type s = some t) : t.Inv := by
  unfold svcTimerCreate at made
  split_ifs at made with invalid
  obtain rfl := Option.some.inj made
  refine ⟨inv.distinct, fun i => ?_, inv.ahead, inv.fits, fun i hi => ?_, inv.waiting⟩
  · by_cases same : i = pt
    · have idle : (s.cb pt).state ≠ .osTimerRunning := by rw [invalid]; nofun
      simp [same, mt (inv.running pt).1 idle]
    · simp [same, inv.running]
  · by_cases same : i = pt
    · simp [same] at hi
    · simp only [Function.update_of_ne same] at hi ⊢
      exact inv.period i hi

/-! ## Messages -/

omit [DecidableEq I] in
theorem osMessageGet_timers (s : TimerService I) :
    (osMessageGet s).cb = s.cb ∧ (osMessageGet s).osTimerHead = s.osTimerHead := by
  unfold osMessageGet
  split <;> exact ⟨rfl, rfl⟩

omit [DecidableEq I] in
theorem osMessageGet_messages (calling : s.thread = .calling) :
    (osMessageGet s).messages = s.messages := by
  unfold osMessageGet
  cases queue : s.queue <;> simp [messages, queue, calling]

omit [DecidableEq I] in
theorem messages_of_got (got : s.thread = .got pt) : s.messages = pt :: s.queue := by
  simp [messages, got]

omit [DecidableEq I] in
theorem TimerService.Inv.congr (inv : s.Inv) (cb : t.cb = s.cb)
    (head : t.osTimerHead = s.osTimerHead) (waiting : t.thread = .waiting → t.queue = []) : t.Inv := by
  refine ⟨?_, ?_, ?_, ?_, ?_, waiting⟩
  · rw [head]
    exact inv.distinct
  · rw [head, cb]
    exact inv.running
  · rw [head]
    exact inv.ahead
  · rw [head]
    exact inv.fits
  · rw [cb]
    exact inv.period

omit [DecidableEq I] in
theorem TimerService.Inv.get (inv : s.Inv) : (osMessageGet s).Inv := by
  obtain ⟨cb, head⟩ := osMessageGet_timers s
  refine inv.congr cb head ?_
  unfold osMessageGet
  split <;> simp_all

omit [DecidableEq I] in
/-- After the callback. -/
theorem TimerService.Inv.call (inv : s.Inv) : TimerService.Inv { s with thread := .calling } :=
  inv.congr rfl rfl nofun

/-! ## Histories -/

def TimerAction.isTick : TimerAction I → Bool
  | tick => true
  | _ => false

/-- The ticks of a run. -/
def ticks (ts : List (Transition (TimerService I) (TimerAction I))) : ℕ :=
  ts.countP fun τ => τ.label.isTick

/-- The steps with the ticks before them. -/
def stamped (n : ℕ) : List (Transition (TimerService I) (TimerAction I)) →
    List (ℕ × Transition (TimerService I) (TimerAction I))
  | [] => []
  | τ :: ts => (n, τ) :: stamped (n + if τ.label.isTick then 1 else 0) ts

structure TimerStart where
  instant : ℕ
  delay : ℕ
  /-- between the expiries of a periodic timer -/
  interval : ℕ

def TimerStart.ExpiresAt (type : OsTimerType) (start : TimerStart) (u : ℕ) : Prop :=
  match type with
  | .osTimerOnce => u = start.instant + start.delay
  | .osTimerPeriodic => ∃ k, u = start.instant + start.delay + k * start.interval

/-- What the commands to a timer ask for: its latest start, unless it has been stopped or deleted
since. -/
structure Schedule where
  /-- that of the creation -/
  type : Option OsTimerType
  started : Option TimerStart

namespace Schedule

def ExpiresAt (sched : Schedule) (u : ℕ) : Prop :=
  ∃ type start, sched.type = some type ∧ sched.started = some start ∧ start.ExpiresAt type u

/-- There is an expiry after `now`. -/
def running (now : ℕ) (sched : Schedule) : Bool :=
  match sched.type, sched.started with
  | some .osTimerOnce, some start => now < start.instant + start.delay
  | some .osTimerPeriodic, some _ => true
  | _, _ => false

/-- A start of a timer that is not running sets the interval; a restart keeps it. -/
def interval (now millisec : ℕ) (sched : Schedule) : ℕ :=
  match sched.started with
  | some start => if sched.running now then start.interval else millisec
  | none => millisec

/-- A command to the timer `i`. -/
def command (i : I) (now : ℕ) (sched : Schedule) : TimerAction I → Schedule
  | .create pt type => if pt = i then ⟨some type, none⟩ else sched
  | .start pt millisec =>
    if pt = i ∧ millisec ≠ 0 ∧ sched.type ≠ none then
      { sched with
        started := some ⟨now, millisec.toNat, sched.interval now millisec.toNat⟩ }
    else sched
  | .stop pt => if pt = i then { sched with started := none } else sched
  | .delete pt => if pt = i then ⟨none, none⟩ else sched
  | _ => sched

end Schedule

/-- The schedule of the timer `i` after a run. -/
def schedule (i : I) (ts : List (Transition (TimerService I) (TimerAction I))) : Schedule :=
  (stamped 0 ts).foldl (fun sched e => sched.command i e.1 e.2.label) ⟨none, none⟩

/-- The timers posted by a step. -/
def posted (τ : Transition (TimerService I) (TimerAction I)) : List I :=
  if τ.label.isTick then τ.dst.messages.drop τ.src.messages.length else []

def TimerAction.callback : TimerAction I → Option I
  | call pt => some pt
  | _ => none

/-- The timers whose callbacks have been called. -/
def called (ts : List (Transition (TimerService I) (TimerAction I))) : List I :=
  ts.filterMap fun τ => τ.label.callback

section Histories

variable {ts : List (Transition (TimerService I) (TimerAction I))}
  {τ : Transition (TimerService I) (TimerAction I)}

omit [DecidableEq I] in
theorem ticks_snoc : ticks (ts ++ [τ]) = ticks ts + if τ.label.isTick then 1 else 0 := by
  simp [ticks, List.countP_append, List.countP_singleton]

omit [DecidableEq I] in
theorem stamped_snoc (n : ℕ) : stamped n (ts ++ [τ]) = stamped n ts ++ [(n + ticks ts, τ)] := by
  induction ts generalizing n with
  | nil => rfl
  | cons σ ts ih =>
    simp only [List.cons_append, stamped, ih, ticks, List.countP_cons]
    simp only [List.cons.injEq, List.append_cancel_left_eq, Prod.mk.injEq, and_true, true_and]
    omega

theorem schedule_snoc :
    schedule i (ts ++ [τ]) = (schedule i ts).command i (ticks ts) τ.label := by
  simp [schedule, stamped_snoc]

/-! ## Schedules -/

section Schedules

variable {sched : Schedule} {type : OsTimerType} {start : TimerStart}

theorem Schedule.running_iff : sched.running now = true ↔ ∃ type start, sched.type = some type ∧
    sched.started = some start ∧ (type = .osTimerOnce → now < start.instant + start.delay) := by
  obtain ⟨type, started⟩ := sched
  cases type with
  | none => simp [running]
  | some type => cases started <;> cases type <;> simp [running]

theorem Schedule.running_of_started (created : sched.type ≠ none)
    (started : sched.started = some start) (pos : now < start.instant + start.delay) :
    sched.running now = true := by
  obtain ⟨type, created⟩ := Option.ne_none_iff_exists'.1 created
  exact running_iff.2 ⟨type, start, created, started, fun _ => pos⟩

theorem Schedule.not_running (none : sched.started = none) : sched.running now = false := by
  refine Bool.eq_false_iff.2 fun running => ?_
  obtain ⟨-, start, -, started, -⟩ := running_iff.1 running
  rw [none] at started
  cases started

theorem Schedule.running_anti {later : ℕ} (le : now ≤ later) (running : sched.running later = true) :
    sched.running now = true := by
  obtain ⟨type, start, created, started, once⟩ := running_iff.1 running
  exact running_iff.2 ⟨type, start, created, started, fun h => lt_of_le_of_lt le (once h)⟩

theorem Schedule.ExpiresAt.running (expires : sched.ExpiresAt u) (later : now < u) :
    sched.running now = true := by
  obtain ⟨type, start, created, started, at_u⟩ := expires
  refine running_iff.2 ⟨type, start, created, started, ?_⟩
  rintro rfl
  exact lt_of_lt_of_eq later at_u

/-- A new start expires first after its delay, whatever the type of the timer. -/
theorem TimerStart.isLeast (type : OsTimerType) (start : TimerStart) (pos : 0 < start.delay) :
    IsLeast {v | start.ExpiresAt type v ∧ start.instant < v} (start.instant + start.delay) := by
  refine ⟨⟨?_, by omega⟩, fun v ⟨expires, _⟩ => ?_⟩
  · cases type with
    | osTimerOnce => rfl
    | osTimerPeriodic => exact ⟨0, by simp⟩
  · cases type with
    | osTimerOnce => exact expires.ge
    | osTimerPeriodic =>
      obtain ⟨k, rfl⟩ := expires
      exact Nat.le_add_right _ _

/-- The next expiry of a periodic timer. -/
theorem TimerStart.isLeast_next {n : ℕ} (pos : 0 < start.interval)
    (expires : start.ExpiresAt .osTimerPeriodic n) :
    IsLeast {v | start.ExpiresAt .osTimerPeriodic v ∧ n < v} (n + start.interval) := by
  obtain ⟨k, rfl⟩ := expires
  refine ⟨⟨⟨k + 1, by rw [Nat.succ_mul]; omega⟩, by omega⟩, fun v ⟨expires', later⟩ => ?_⟩
  obtain ⟨l, rfl⟩ := expires'
  have more : k < l := by
    by_contra le
    have := Nat.mul_le_mul_right start.interval (not_lt.1 le)
    omega
  have := Nat.mul_le_mul_right start.interval more
  rw [Nat.succ_mul] at this
  omega

end Schedules

/-! ## The invariant of runs -/

/-- Each running timer expires next when its schedule asks for it, a timer runs as long as its
schedule asks for a later expiry, and the interval is in the control block. -/
structure Clocked (ts : List (Transition (TimerService I) (TimerAction I))) (s : TimerService I) :
    Prop where
  inv : s.Inv
  type : ∀ i, (schedule i ts).type =
    if (s.cb i).state = .osTimerInvalid then none else some (s.cb i).type
  running : ∀ i, (schedule i ts).running (ticks ts) = true ↔ (s.cb i).state = .osTimerRunning
  armed : ∀ i u, (i, u) ∈ s.deadlines (ticks ts) → ∃ start, (schedule i ts).started = some start ∧
    start.interval = (s.cb i).icnt.toNat ∧
      IsLeast {v | start.ExpiresAt (s.cb i).type v ∧ ticks ts < v} u

variable {us : List (Transition (TimerService I) (TimerAction I))}

omit [DecidableEq I] in
theorem Rearmed.running_iff {alarm : Option ℕ} (rearmed : Rearmed pt alarm s t) :
    (t.cb pt).state = .osTimerRunning ↔ alarm ≠ none := by
  refine ⟨fun running none => ?_, fun some => ?_⟩
  · obtain ⟨u, mem⟩ := rearmed.inv.exists_deadline 0 running
    rcases (rearmed.deadlines 0 pt u).1 mem with ⟨-, d, hd, -⟩ | ⟨ne, -⟩
    · rw [none] at hd
      cases hd
    · exact ne rfl
  · obtain ⟨d, hd⟩ := Option.ne_none_iff_exists'.1 some
    exact rearmed.inv.running_of_mem ((rearmed.deadlines 0 pt _).2 (.inl ⟨rfl, d, hd, rfl⟩))

/-- A command to the timer `pt`. -/
theorem Clocked.rearm {alarm : Option ℕ} (clocked : Clocked ts s) (rearmed : Rearmed pt alarm s t)
    (same : ticks us = ticks ts) (others : ∀ i, i ≠ pt → schedule i us = schedule i ts)
    (type : (schedule pt us).type =
      if (t.cb pt).state = .osTimerInvalid then none else some (t.cb pt).type)
    (started : (schedule pt us).started =
      alarm.map fun delay => ⟨ticks ts, delay, (t.cb pt).icnt.toNat⟩)
    (pos : ∀ d ∈ alarm, 0 < d) : Clocked us t where
  inv := rearmed.inv
  type i := by
    by_cases h : i = pt
    · exact h ▸ type
    · rw [others i h, rearmed.others i h]
      exact clocked.type i
  running i := by
    by_cases h : i = pt
    · subst h
      rw [rearmed.running_iff]
      cases alarm with
      | none => simp [Schedule.not_running started]
      | some d =>
        have created : (schedule i us).type ≠ none := by
          rw [type, if_neg]
          · exact nofun
          · rw [rearmed.running_iff.2 nofun]
            exact nofun
        refine iff_of_true (Schedule.running_of_started created started ?_) nofun
        have := pos d rfl
        rw [same]
        exact Nat.lt_add_of_pos_right this
    · rw [others i h, rearmed.others i h, same]
      exact clocked.running i
  armed i u hu := by
    rw [same] at hu ⊢
    rcases (rearmed.deadlines _ i u).1 hu with ⟨rfl, d, hd, rfl⟩ | ⟨ne, hu⟩
    · rw [Option.mem_def.1 hd] at started
      exact ⟨_, started, rfl, TimerStart.isLeast _ ⟨_, d, _⟩ (pos d hd)⟩
    · rw [others i ne, rearmed.others i ne]
      exact clocked.armed i u hu

/-- Steps that leave the timers alone. -/
theorem Clocked.congr (clocked : Clocked ts s) (inv : t.Inv) (cb : t.cb = s.cb)
    (head : t.osTimerHead = s.osTimerHead) (same : ticks us = ticks ts)
    (history : ∀ i, schedule i us = schedule i ts) : Clocked us t where
  inv := inv
  type i := by
    rw [history, cb]
    exact clocked.type i
  running i := by
    rw [history, cb, same]
    exact clocked.running i
  armed i u hu := by
    rw [TimerService.deadlines, head, same] at hu
    rw [history, cb, same]
    exact clocked.armed i u hu

/-- The type that the schedule knows is that of the control block. -/
theorem Clocked.of_created {type : OsTimerType} (clocked : Clocked ts s)
    (created : (schedule i ts).type = some type) :
    (s.cb i).state ≠ .osTimerInvalid ∧ (s.cb i).type = type := by
  rw [clocked.type] at created
  split_ifs at created with invalid
  exact ⟨invalid, Option.some.inj created⟩

theorem Clocked.interval (clocked : Clocked ts s) (i : I) (millisec : ℕ) :
    (schedule i ts).interval (ticks ts) millisec =
      if (s.cb i).state = .osTimerRunning then (s.cb i).icnt.toNat else millisec := by
  unfold Schedule.interval
  by_cases running : (s.cb i).state = .osTimerRunning
  · obtain ⟨u, mem⟩ := clocked.inv.exists_deadline (ticks ts) running
    obtain ⟨start, started, interval, -⟩ := clocked.armed i u mem
    simp only [started, if_pos ((clocked.running i).2 running), if_pos running, interval]
  · rw [if_neg running]
    cases (schedule i ts).started with
    | none => rfl
    | some start => exact if_neg (mt (clocked.running i).1 running)

theorem Clocked.create {type : OsTimerType} (clocked : Clocked ts s)
    (made : svcTimerCreate pt type s = some t) (same : ticks us = ticks ts)
    (self : schedule pt us = ⟨some type, none⟩)
    (others : ∀ i, i ≠ pt → schedule i us = schedule i ts) : Clocked us t := by
  have inv := svcTimerCreate_inv clocked.inv made
  unfold svcTimerCreate at made
  split_ifs at made with invalid
  obtain rfl := Option.some.inj made
  have idle : (s.cb pt).state ≠ .osTimerRunning := by rw [invalid]; nofun
  refine ⟨inv, fun i => ?_, fun i => ?_, fun i u hu => ?_⟩
  · by_cases h : i = pt
    · subst h
      simp [self]
    · simpa [others i h, h] using clocked.type i
  · by_cases h : i = pt
    · subst h
      rw [Schedule.not_running (congrArg Schedule.started self)]
      simp
    · simpa [others i h, h, same] using clocked.running i
  · rw [same] at hu ⊢
    have mem : (i, u) ∈ s.deadlines (ticks ts) := hu
    have ne : i ≠ pt := by
      rintro rfl
      exact clocked.inv.not_mem idle mem
    simpa [others i ne, ne] using clocked.armed i u mem

theorem Ticked.kept {n : ℕ} {ps : List I} (tick : Ticked n ps s t) (i : I) :
    (t.cb i).type = (s.cb i).type ∧ (t.cb i).icnt = (s.cb i).icnt := by
  rw [tick.cb]
  split_ifs <;> exact ⟨rfl, rfl⟩

/-- A timer runs on unless it was a one-shot timer that has expired. -/
theorem Clocked.running_tick {ps : List I} (clocked : Clocked ts s)
    (tick : Ticked (ticks ts) ps s t) (i : I) :
    (schedule i ts).running (ticks ts + 1) = true ↔ (t.cb i).state = .osTimerRunning := by
  rw [tick.cb]
  by_cases expired : i ∈ ps ∧ (s.cb i).type ≠ .osTimerPeriodic
  · rw [if_pos expired]
    refine iff_of_false (fun running => ?_) nofun
    obtain ⟨start, started, -, ⟨expires, -⟩, -⟩ := clocked.armed i _ ((tick.due i).1 expired.1)
    obtain ⟨type, start', created, started', once⟩ := Schedule.running_iff.1 running
    obtain rfl : start = start' := Option.some.inj (started.symm.trans started')
    obtain ⟨-, rfl⟩ := clocked.of_created created
    cases type : (s.cb i).type with
    | osTimerOnce =>
      rw [type] at expires
      exact absurd (once type) expires.not_lt
    | osTimerPeriodic => exact expired.2 type
  · rw [if_neg expired, ← clocked.running i]
    refine ⟨Schedule.running_anti (Nat.le_succ _), fun running => ?_⟩
    obtain ⟨u, mem⟩ := clocked.inv.exists_deadline (ticks ts) ((clocked.running i).1 running)
    obtain ⟨start, started, -, ⟨expires, later⟩, -⟩ := clocked.armed i u mem
    obtain ⟨type, start', created, started', -⟩ := Schedule.running_iff.1 running
    obtain rfl : start = start' := Option.some.inj (started.symm.trans started')
    obtain ⟨-, rfl⟩ := clocked.of_created created
    refine Schedule.running_iff.2 ⟨_, start, created, started, fun once => ?_⟩
    rw [once] at expires
    have undue : u ≠ ticks ts + 1 := by
      rintro rfl
      exact expired ⟨(tick.due i).2 mem, by rw [once]; nofun⟩
    exact expires ▸ lt_of_le_of_ne later undue.symm

theorem Clocked.tick {ps : List I} (clocked : Clocked ts s) (tick : Ticked (ticks ts) ps s t)
    (next : ticks us = ticks ts + 1) (history : ∀ i, schedule i us = schedule i ts) :
    Clocked us t where
  inv := tick.inv
  type i := by
    rw [history, clocked.type, tick.cb]
    by_cases expired : i ∈ ps ∧ (s.cb i).type ≠ .osTimerPeriodic
    · have running := clocked.inv.running_of_mem ((tick.due i).1 expired.1)
      rw [if_pos expired, running]
      rfl
    · rw [if_neg expired]
  running i := by
    rw [history, next]
    exact clocked.running_tick tick i
  armed i u hu := by
    obtain ⟨type, icnt⟩ := tick.kept i
    rw [next] at hu ⊢
    rw [history, type, icnt]
    rcases (tick.deadlines i u).1 hu with ⟨mem, ne⟩ | ⟨mem, periodic, rfl⟩
    · obtain ⟨start, started, interval, ⟨expires, later⟩, least⟩ := clocked.armed i u mem
      refine ⟨start, started, interval, ⟨expires, by omega⟩, fun v ⟨expires', later'⟩ => ?_⟩
      exact least ⟨expires', by omega⟩
    · have due := (tick.due i).1 mem
      obtain ⟨start, started, interval, ⟨expires, -⟩, -⟩ := clocked.armed i _ due
      have pos := clocked.inv.period i (clocked.inv.running_of_mem due)
      rw [periodic] at expires ⊢
      rw [← interval] at pos ⊢
      exact ⟨start, started, rfl, TimerStart.isLeast_next pos expires⟩

/-! ## Steps -/

omit [DecidableEq I] in
theorem ticks_snoc_of_not (other : τ.label.isTick = false) : ticks (ts ++ [τ]) = ticks ts := by
  rw [ticks_snoc, other]
  rfl

omit [DecidableEq I] in
/-- Nothing is to be taken away from a timer that does not run. -/
theorem Rearmed.refl (inv : s.Inv) (idle : (s.cb pt).state ≠ .osTimerRunning) :
    Rearmed pt none s s := by
  refine ⟨fun now i u => ⟨fun mem => .inr ⟨?_, mem⟩, ?_⟩, fun _ _ => rfl, rfl, rfl, inv⟩
  · rintro rfl
    exact inv.not_mem idle mem
  · rintro (⟨-, d, hd, -⟩ | ⟨-, mem⟩)
    · cases hd
    · exact mem

/-- A stop or a deletion. -/
theorem Clocked.withdraw {l : TimerAction I} (clocked : Clocked ts s) (rearmed : Rearmed pt none s t)
    (other : l.isTick = false)
    (others : ∀ i, i ≠ pt → ∀ now (sched : Schedule), sched.command i now l = sched)
    (started : ∀ now (sched : Schedule), (sched.command pt now l).started = none)
    (type : ((schedule pt ts).command pt (ticks ts) l).type =
      if (t.cb pt).state = .osTimerInvalid then none else some (t.cb pt).type) :
    Clocked (ts ++ [⟨s, l, t⟩]) t := by
  refine clocked.rearm rearmed (ticks_snoc_of_not other) (fun i ne => ?_) ?_ ?_ (by simp)
  · rw [schedule_snoc, others i ne]
  · rw [schedule_snoc]
    exact type
  · rw [schedule_snoc]
    exact started _ _

theorem Clocked.start (clocked : Clocked ts s) (pt : I) (millisec : UInt32) :
    Clocked (ts ++ [⟨s, .start pt millisec, (svcTimerStart pt millisec s).2⟩])
      (svcTimerStart pt millisec s).2 := by
  rcases svcTimerStart_cases clocked.inv pt millisec with
    ⟨t, eq, rearmed, running, ne, created, icnt⟩ | ⟨e, -, eq, failed⟩
  · rw [eq]
    have known : (schedule pt ts).type = some (s.cb pt).type := by
      rw [clocked.type, if_neg created]
    refine clocked.rearm rearmed (ticks_snoc_of_not rfl) (fun i h => ?_) ?_ ?_ ?_
    · rw [schedule_snoc]
      exact if_neg fun asked => h asked.1.symm
    · rw [schedule_snoc, Schedule.command, if_pos ⟨rfl, ne, by rw [known]; nofun⟩, running,
        rearmed.type]
      exact known
    · rw [schedule_snoc, Schedule.command, if_pos ⟨rfl, ne, by rw [known]; nofun⟩,
        clocked.interval, icnt, apply_ite UInt32.toNat]
      rfl
    · intro d hd
      cases hd
      exact toNat_pos_of_ne_zero ne
  · rw [eq]
    refine clocked.congr clocked.inv rfl rfl (ticks_snoc_of_not rfl) fun i => ?_
    rw [schedule_snoc]
    refine if_neg ?_
    rintro ⟨rfl, ne, created⟩
    rcases failed with zero | invalid
    · exact ne zero
    · rw [clocked.type, if_pos invalid] at created
      exact created rfl

theorem TimerStep.clocked {l : TimerAction I} (made : TimerStep s l t) (clocked : Clocked ts s) :
    Clocked (ts ++ [⟨s, l, t⟩]) t := by
  have inv := clocked.inv
  cases made with
  | create pt type made =>
    refine clocked.create made (ticks_snoc_of_not rfl) ?_ fun i ne => ?_
    · rw [schedule_snoc]
      exact if_pos rfl
    · rw [schedule_snoc]
      exact if_neg ne.symm
  | start pt millisec => exact clocked.start pt millisec
  | stop pt =>
    obtain ⟨rearmed, state⟩ : Rearmed pt none s (svcTimerStop pt s).2 ∧
        (((svcTimerStop pt s).2.cb pt).state = .osTimerInvalid ↔
          (s.cb pt).state = .osTimerInvalid) := by
      rcases svcTimerStop_cases inv pt with ⟨t, eq, rearmed, stopped, running⟩ | ⟨e, -, eq, idle⟩
      · rw [eq]
        exact ⟨rearmed, iff_of_false (by rw [stopped]; nofun) (by rw [running]; nofun)⟩
      · rw [eq]
        exact ⟨.refl inv idle, .rfl⟩
    refine clocked.withdraw rearmed rfl (fun i ne _ _ => if_neg ne.symm)
      (fun _ _ => by simp [Schedule.command]) ?_
    have type := clocked.type pt
    simp only [Schedule.command, if_pos, type, state, rearmed.type]
  | delete pt =>
    obtain ⟨rearmed, state⟩ : Rearmed pt none s (svcTimerDelete pt s).2 ∧
        ((svcTimerDelete pt s).2.cb pt).state = .osTimerInvalid := by
      rcases svcTimerDelete_cases inv pt with ⟨t, eq, rearmed, invalid⟩ | ⟨e, -, eq, invalid⟩
      · rw [eq]
        exact ⟨rearmed, invalid⟩
      · rw [eq]
        exact ⟨.refl inv (by rw [invalid]; nofun), invalid⟩
    refine clocked.withdraw rearmed rfl (fun i ne _ _ => if_neg ne.symm)
      (fun _ _ => by simp [Schedule.command]) ?_
    simp [Schedule.command, state]
  | tick made =>
    obtain ⟨ps, tick⟩ := ticked inv made (ticks ts)
    exact clocked.tick tick ticks_snoc fun i => schedule_snoc
  | get calling =>
    obtain ⟨cb, head⟩ := osMessageGet_timers s
    exact clocked.congr inv.get cb head (ticks_snoc_of_not rfl) fun i => schedule_snoc
  | call got =>
    exact clocked.congr inv.call rfl rfl (ticks_snoc_of_not rfl) fun i => schedule_snoc

theorem clocked (exec : timerService.Execution ts s) : Clocked ts s := by
  refine exec.history (I := Clocked) ?_ fun _ _ _ _ _ clocked made => TimerStep.clocked made clocked
  rintro s ⟨zeroed, head, queue, thread⟩
  have stopped (i : I) : (s.cb i).state ≠ .osTimerRunning := by rw [zeroed i]; nofun
  refine ⟨⟨?_, fun i => ?_, ?_, ?_, fun i hi => ?_, fun _ => queue⟩, fun i => ?_, fun i => ?_,
    fun i u hu => ?_⟩
  · simp [head]
  · simp [head, stopped]
  · simp [head, DeltaList.Ahead]
  · simp [head, Fits]
  · exact absurd hi (stopped i)
  · rw [zeroed i]
    rfl
  · exact iff_of_false nofun (stopped i)
  · simp [TimerService.deadlines, head] at hu

/-! ## Callbacks -/

theorem TimerStep.messages {l : TimerAction I} (made : TimerStep s l t) (inv : s.Inv)
    (other : l ≠ .tick) :
    l.callback.toList ++ t.messages = s.messages := by
  cases made with
  | create pt type made =>
    unfold svcTimerCreate at made
    split_ifs at made
    obtain rfl := Option.some.inj made
    rfl
  | start pt millisec =>
    rcases svcTimerStart_cases inv pt millisec with ⟨t, eq, rearmed, -⟩ | ⟨e, -, eq, -⟩
    · rw [eq]
      exact rearmed.messages
    · rw [eq]
      rfl
  | stop pt =>
    rcases svcTimerStop_cases inv pt with ⟨t, eq, rearmed, -⟩ | ⟨e, -, eq, -⟩
    · rw [eq]
      exact rearmed.messages
    · rw [eq]
      rfl
  | delete pt =>
    rcases svcTimerDelete_cases inv pt with ⟨t, eq, rearmed, -⟩ | ⟨e, -, eq, -⟩
    · rw [eq]
      exact rearmed.messages
    · rw [eq]
      rfl
  | tick => exact absurd rfl other
  | get calling => exact osMessageGet_messages calling
  | call got => exact (messages_of_got got).symm

omit [DecidableEq I] in
theorem posted_eq {ps : List I} (tick : τ.label = .tick)
    (messages : τ.dst.messages = τ.src.messages ++ ps) : posted τ = ps := by
  simp [posted, tick, TimerAction.isTick, messages]

/-- The callbacks are called in the order in which the timers have been posted, none is lost and none
called twice. -/
theorem called_append_messages (exec : timerService.Execution ts s) :
    called ts ++ s.messages = ts.flatMap posted := by
  refine exec.history (I := fun ts s => called ts ++ s.messages = ts.flatMap posted) ?_ ?_
  · rintro s ⟨-, -, queue, thread⟩
    simp [called, TimerService.messages, queue, thread]
  · rintro ts s l t ⟨us, src⟩ same made
    have inv := (clocked src).inv
    rw [List.flatMap_append, ← same]
    by_cases tick : l = .tick
    · subst tick
      cases made with
      | tick made =>
        obtain ⟨ps, ticked⟩ := ticked inv made 0
        simp [called, TimerAction.callback, posted_eq (τ := ⟨s, .tick, t⟩) rfl ticked.messages,
          ticked.messages]
    · have moved := TimerStep.messages made inv tick
      have none : posted ⟨s, l, t⟩ = [] := by
        cases l <;> first | rfl | exact absurd rfl tick
      rw [← moved]
      cases l <;> simp [called, TimerAction.callback, none]

/-- At any tick of any run, the timers posted are those, once each, whose commands ask for an expiry at
this tick. -/
theorem posted_iff_expires (exec : timerService.Execution ts s) :
    called ts ++ s.messages = ts.flatMap posted ∧
      ∀ pre τ post, ts = pre ++ τ :: post → τ.label = .tick → (posted τ).Nodup ∧
        ∀ i, i ∈ posted τ ↔ (schedule i pre).ExpiresAt (ticks pre + 1) := by
  refine ⟨called_append_messages exec, ?_⟩
  rintro pre ⟨src, l, dst⟩ post rfl rfl
  obtain ⟨before, made, -⟩ := exec.cut
  have clocked := clocked before
  cases made with
  | tick made =>
    obtain ⟨ps, ticked⟩ := ticked clocked.inv made (ticks pre)
    rw [posted_eq (τ := ⟨src, .tick, dst⟩) rfl ticked.messages]
    refine ⟨ticked.nodup, fun i => ⟨fun mem => ?_, fun expires => ?_⟩⟩
    · have due := (ticked.due i).1 mem
      obtain ⟨start, started, -, ⟨expires, -⟩, -⟩ := clocked.armed i _ due
      refine ⟨(src.cb i).type, start, ?_, started, expires⟩
      rw [clocked.type, clocked.inv.running_of_mem due]
      rfl
    · have running := (clocked.running i).1 (expires.running (Nat.lt_succ_self _))
      obtain ⟨type, start, created, started, expires⟩ := expires
      obtain ⟨u, mem⟩ := clocked.inv.exists_deadline (ticks pre) running
      obtain ⟨start', started', -, ⟨-, later⟩, least⟩ := clocked.armed i u mem
      obtain rfl : start' = start := Option.some.inj (started'.symm.trans started)
      obtain ⟨-, rfl⟩ := clocked.of_created created
      have first : u ≤ ticks pre + 1 := least ⟨expires, Nat.lt_succ_self _⟩
      obtain rfl : u = ticks pre + 1 := le_antisymm first later
      exact (ticked.due i).2 mem

/-- A kernel without timers. -/
def TimerService.unused (I : Type*) : TimerService I where
  cb _ := .zeroed
  osTimerHead := []
  queue := []
  thread := .calling

/-- A one-shot timer of two ticks, and a periodic timer of three that is started again with two after
the first tick: it expires at the third tick and at the sixth. -/
theorem posted_iff_expires_restarted : ∃ ts τ s, (timerService (I := Bool)).Execution (ts ++ [τ]) s ∧
    called (ts ++ [τ]) ++ s.messages = [false, true, true] ∧ ticks ts = 5 ∧ true ∈ posted τ := by
  have start : (timerService (I := Bool)).Execution [] (.unused Bool) :=
    .init ⟨fun _ => rfl, rfl, rfl, rfl⟩
  have once := start.snoc (TimerStep.create false .osTimerOnce rfl)
  have both := once.snoc (TimerStep.create true .osTimerPeriodic rfl)
  have started := (both.snoc (TimerStep.start false 2)).snoc (TimerStep.start true 3)
  have first := (started.snoc (TimerStep.get rfl)).snoc (TimerStep.tick rfl)
  have second := (first.snoc (TimerStep.start true 2)).snoc (TimerStep.tick rfl)
  have third := (second.snoc (TimerStep.call rfl)).snoc (TimerStep.tick rfl)
  have served := (third.snoc (TimerStep.get rfl)).snoc (TimerStep.call rfl)
  have fifth := (served.snoc (TimerStep.tick rfl)).snoc (TimerStep.tick rfl)
  have sixth := fifth.snoc (TimerStep.tick rfl)
  obtain ⟨order, expires⟩ := posted_iff_expires sixth
  have due := ((expires _ _ [] rfl rfl).2 true).2 ⟨.osTimerPeriodic, ⟨1, 2, 3⟩, rfl, rfl, 1, rfl⟩
  exact ⟨_, _, _, sixth, order.trans rfl, rfl, due⟩

/-! ## The message queue -/

/-- The messages that the queue still takes. -/
def TimerService.room (s : TimerService I) : ℕ :=
  match s.thread with
  | .waiting => osTimerCbqs + 1
  | _ => osTimerCbqs - s.queue.length

omit [DecidableEq I] in
theorem isrMessagePut_of_room (pt : I) (waiting : s.thread = .waiting → s.queue = []) (room : 0 < s.room) :
    ∃ t, isrMessagePut pt s = some t ∧ t.room = s.room - 1 := by
  unfold isrMessagePut
  split
  · rename_i thread
    exact ⟨_, rfl, by simp [TimerService.room, thread, waiting thread]⟩
  · rename_i busy
    have left : s.room = osTimerCbqs - s.queue.length := by
      unfold TimerService.room
      split
      · exact absurd ‹_› busy
      · rfl
    rw [left] at room ⊢
    refine ⟨_, if_pos (Nat.lt_of_sub_pos room), ?_⟩
    unfold TimerService.room
    split
    · exact absurd ‹_› busy
    · simp only [List.length_append, List.length_singleton]
      omega

theorem expire_of_room {ps : List I} (waiting : s.thread = .waiting → s.queue = [])
    (room : ps.length ≤ s.room) : (ps.foldlM expireOne s).isSome = true := by
  induction ps generalizing s with
  | nil => rfl
  | cons p ps ih =>
    have pos : 0 < s.room := lt_of_lt_of_le (by simp) room
    obtain ⟨v, put, less⟩ := isrMessagePut_of_room p waiting pos
    have waits := (isrMessagePut_messages waiting put).2
    rw [List.foldlM_cons, expireOne, put, Option.map_some, Option.bind_eq_bind, Option.bind_some]
    have shorter : ps.length ≤ v.room := by
      rw [less]
      exact Nat.le_sub_one_of_lt room
    split_ifs
    · exact ih waits shorter
    · exact ih waits shorter

omit [DecidableEq I] in
theorem le_room_add_messages (waiting : s.thread = .waiting → s.queue = []) :
    osTimerCbqs ≤ s.room + s.messages.length := by
  cases thread : s.thread with
  | waiting => simp [TimerService.room, TimerService.messages, thread, waiting thread]
  | calling | got =>
    simp only [TimerService.room, TimerService.messages, thread, List.length_cons]
    omega

/-- A one-shot timer whose callback is still to be called does not run, and has no other callback to
come. -/
structure TimerService.Settled (pt : I) (s : TimerService I) : Prop where
  once : (s.cb pt).type = .osTimerOnce
  single : s.messages.count pt ≤ 1
  stopped : pt ∈ s.messages → (s.cb pt).state ≠ .osTimerRunning

/-- The timer is not created as a periodic one, and not started while its callback is still to be
called. -/
def TimerAction.Patient (pt : I) (s : TimerService I) : TimerAction I → Prop
  | create pt' type => pt' = pt → type = .osTimerOnce
  | start pt' _ => pt' = pt → pt ∉ s.messages
  | _ => True

theorem Rearmed.settled {alarm : Option ℕ} (rearmed : Rearmed pt alarm s t) (settled : s.Settled i)
    (fresh : alarm ≠ none → pt = i → i ∉ s.messages) : t.Settled i where
  once := by
    by_cases same : i = pt
    · rw [same, rearmed.type, ← same, settled.once]
    · rw [rearmed.others i same, settled.once]
  single := rearmed.messages ▸ settled.single
  stopped mem running := by
    rw [rearmed.messages] at mem
    by_cases same : i = pt
    · obtain ⟨u, at_u⟩ := rearmed.inv.exists_deadline 0 running
      rcases (rearmed.deadlines 0 i u).1 at_u with ⟨-, d, hd, -⟩ | ⟨ne, -⟩
      · exact fresh (by rw [Option.mem_def.1 hd]; nofun) same.symm mem
      · exact ne same
    · rw [rearmed.others i same] at running
      exact settled.stopped mem running

theorem Ticked.settled {n : ℕ} {ps : List I} (tick : Ticked n ps s t) (inv : s.Inv)
    (settled : s.Settled i) : t.Settled i where
  once := by
    rw [tick.cb]
    split_ifs <;> exact settled.once
  single := by
    rw [tick.messages, List.count_append]
    by_cases due : i ∈ ps
    · have running := inv.running_of_mem ((tick.due i).1 due)
      have absent : s.messages.count i = 0 :=
        List.count_eq_zero.2 fun mem => settled.stopped mem running
      rw [absent, zero_add]
      exact List.nodup_iff_count_le_one.1 tick.nodup i
    · rw [List.count_eq_zero.2 due]
      exact settled.single
  stopped mem := by
    rw [tick.cb]
    split_ifs with expired
    · nofun
    · rw [tick.messages, List.mem_append] at mem
      rcases mem with mem | posted
      · exact settled.stopped mem
      · exact absurd ⟨posted, by rw [settled.once]; nofun⟩ expired

theorem TimerStep.settled {l : TimerAction I} (made : TimerStep s l t) (inv : s.Inv)
    (settled : s.Settled i) (patient : l.Patient i s) : t.Settled i := by
  cases made with
  | create pt type made =>
    unfold svcTimerCreate at made
    split_ifs at made with invalid
    obtain rfl := Option.some.inj made
    by_cases same : i = pt
    · have once : type = .osTimerOnce := patient same.symm
      exact ⟨by simp [same, once], settled.single, fun _ => by simp [same]⟩
    · exact ⟨by simpa [same] using settled.once, settled.single, fun mem => by
        simpa [same] using settled.stopped mem⟩
  | start pt millisec =>
    rcases svcTimerStart_cases inv pt millisec with ⟨t, eq, rearmed, -⟩ | ⟨e, -, eq, -⟩ <;> rw [eq]
    · exact rearmed.settled settled fun _ => patient
    · exact settled
  | stop pt =>
    rcases svcTimerStop_cases inv pt with ⟨t, eq, rearmed, -⟩ | ⟨e, -, eq, -⟩ <;> rw [eq]
    · exact rearmed.settled settled (absurd rfl)
    · exact settled
  | delete pt =>
    rcases svcTimerDelete_cases inv pt with ⟨t, eq, rearmed, -⟩ | ⟨e, -, eq, -⟩ <;> rw [eq]
    · exact rearmed.settled settled (absurd rfl)
    · exact settled
  | tick made =>
    obtain ⟨ps, ticked⟩ := ticked inv made 0
    exact ticked.settled inv settled
  | get calling =>
    obtain ⟨cb, -⟩ := osMessageGet_timers s
    have messages := osMessageGet_messages calling
    exact ⟨cb ▸ settled.once, messages ▸ settled.single, cb ▸ messages ▸ settled.stopped⟩
  | @call pt got =>
    have same := messages_of_got got
    have fewer : s.queue.count i ≤ s.messages.count i := by
      rw [same]
      exact List.count_le_count_cons
    exact ⟨settled.once, fewer.trans settled.single, fun mem =>
      settled.stopped (same ▸ List.mem_cons_of_mem _ mem)⟩

/-- With no more timers than the message queue takes, all of them one-shot ones and none started while
its callback is still to be called, the kernel never halts for a full message queue. -/
theorem sysTimerTick_isSome [Fintype I] (few : Fintype.card I ≤ osTimerCbqs)
    (exec : timerService.Execution ts s) (patient : ∀ τ ∈ ts, ∀ pt, τ.label.Patient pt τ.src) :
    (sysTimerTick s).isSome = true := by
  have inv := (clocked exec).inv
  have settled (pt : I) : s.Settled pt := by
    refine exec.history (I := fun ts s => (∀ τ ∈ ts, ∀ pt, τ.label.Patient pt τ.src) →
      s.Settled pt) ?_ ?_ patient
    · rintro s ⟨zeroed, -, queue, thread⟩ -
      have none : s.messages = [] := by simp [TimerService.messages, queue, thread]
      exact ⟨by rw [zeroed pt]; rfl, by simp [none], by simp [none]⟩
    · rintro ts s l t ⟨us, src⟩ settled made patient
      have before := settled fun τ hτ => patient τ (List.mem_append_left _ hτ)
      exact TimerStep.settled made (clocked src).inv before (patient ⟨s, l, t⟩ (by simp) pt)
  obtain ⟨zs, rest, counted, eq⟩ := sysTimerTick_eq inv
  rw [eq]
  refine expire_of_room inv.waiting ?_
  have distinct : (s.messages ++ zs.map Prod.fst).Nodup := by
    refine (List.nodup_iff_count_le_one.2 fun pt => (settled pt).single).append ?_ fun i mem due => ?_
    · have keys := inv.distinct
      rw [counted.keys] at keys
      exact keys.of_append_left
    · refine (settled i).stopped mem ((inv.running i).1 ?_)
      rw [counted.keys]
      exact List.mem_append_left _ due
  have total := distinct.length_le_card
  have room : osTimerCbqs ≤ TimerService.room { s with osTimerHead := rest } + s.messages.length :=
    le_room_add_messages inv.waiting
  rw [List.length_append] at total
  omega

/-- Two timers fall due at once while the callback of a third one is still to be called. -/
theorem sysTimerTick_isSome_busy : ∃ s, (timerService (I := Fin 3)).Reachable s ∧
    s.messages = [0] ∧ s.osTimerHead = [(1, 1), (2, 0)] ∧ (sysTimerTick s).isSome = true := by
  have start : (timerService (I := Fin 3)).Execution [] (.unused (Fin 3)) :=
    .init ⟨fun _ => rfl, rfl, rfl, rfl⟩
  have zero := (start.snoc (TimerStep.create 0 .osTimerOnce rfl)).snoc (TimerStep.start 0 1)
  have one := (zero.snoc (TimerStep.create 1 .osTimerOnce rfl)).snoc (TimerStep.start 1 2)
  have two := (one.snoc (TimerStep.create 2 .osTimerOnce rfl)).snoc (TimerStep.start 2 2)
  have busy := (two.snoc (TimerStep.get rfl)).snoc (TimerStep.tick rfl)
  refine ⟨_, busy.reachable, rfl, rfl, sysTimerTick_isSome (by decide) busy ?_⟩
  simp [TimerAction.Patient, TimerService.messages, TimerService.unused, svcTimerStart]

end Histories

end Ams
