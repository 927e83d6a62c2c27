import Ams.Lib.DeltaList
import Ams.Rtx.Sleep
import Mathlib.Data.BitVec

/-!
# Delays and signals of the kernel

A task that waits with a time-out is in a delta list, which every tick counts down at the head
(`Rtx.systick`).  A task that waits for signals is made ready by the ones that complete what it waits for,
and is taken out of the list then (`Rtx.post`).  The list holds the instants at which the waits end
(`Rtx.alarms`), and these are neither changed by what happens meanwhile nor missed by the tick.
-/

namespace Ams

open Function Reactive

/-- The wait states but that for a mutex, and that of a task that is not created yet. -/
inductive WaitState where
  | inactive
  | waitDly
  | waitOr
  | waitAnd
  | waitMbx
  deriving DecidableEq, Repr

/-- The kernel with what `Scheduler` leaves out. -/
structure Rtx (T M : Type*) where
  sched : Scheduler T M
  /-- the ticks so far; the kernel counts them modulo a power of two, for the round robin -/
  osTime : ℕ
  osDly : DeltaList T
  /-- which of the wait states it is where `sched.state` is `waiting` -/
  waitState : T → WaitState
  events : T → BitVec 16
  waits : T → BitVec 16

/-- What an interrupt leaves in the post-service queue. -/
inductive PostRequest (T : Type*) where
  | signal (t : T) (flags : BitVec 16)
  /-- a message for the mailbox of the task -/
  | message (t : T)

def osWaitForever : ℕ := 0xFFFFFFFF

/-- A tick is a millisecond. -/
def rtMs2tick (millisec : ℕ) : ℕ :=
  if millisec = 0 then 0
  else if millisec = osWaitForever then 0xFFFF
  else if 4000000 < millisec then 0xFFFE
  else
    let tick := (1000 * millisec + 1000 - 1) / 1000
    if 0xFFFE < tick then 0xFFFE else tick

theorem rtMs2tick_pos {millisec : ℕ} (pos : millisec ≠ 0) : rtMs2tick millisec ≠ 0 := by
  unfold rtMs2tick
  rw [if_neg pos]
  dsimp only
  split_ifs <;> omega

/-- The new task comes before those with the same deadline. -/
def rtPutDly {T : Type*} (t : T) (delay : ℕ) (dly : DeltaList T) : DeltaList T :=
  dly.insert (· ≤ ·) t delay

def rtRmvDly {T : Type*} [DecidableEq T] (t : T) (dly : DeltaList T) : DeltaList T := dly.remove t

/-- The tasks whose time is over, in the order in which they become ready, and the rest. -/
def rtDecDly {T : Type*} : DeltaList T → List T × DeltaList T
  | [] => ([], [])
  | (t, deltaTime) :: es => DeltaList.due ((t, deltaTime - 1) :: es)

namespace Rtx

section States

variable {T M : Type*}

/-- The task is created. -/
def Created (t : T) (s : Rtx T M) : Prop := s.sched.state t ≠ .waiting ∨ s.waitState t ≠ .inactive

/-- The task waits in the given way. -/
def WaitsIn (w : WaitState) (t : T) (s : Rtx T M) : Prop :=
  s.sched.state t = .waiting ∧ s.waitState t = w

instance (t : T) (s : Rtx T M) : Decidable (s.Created t) :=
  inferInstanceAs (Decidable (_ ∨ _))

instance (w : WaitState) (t : T) (s : Rtx T M) : Decidable (s.WaitsIn w t) :=
  inferInstanceAs (Decidable (_ ∧ _))

end States

section Services

variable {T M : Type*} [DecidableEq T]

/-- `rt_block` -/
def block (timeout : ℕ) (blockState : WaitState) (s : Rtx T M) : Option (Rtx T M) :=
  if timeout = 0 then some s
  else
    (rtBlock .waiting s.sched).map fun k =>
      { s with
        sched := k
        osDly := if timeout < 0xFFFF then rtPutDly s.sched.run timeout s.osDly else s.osDly
        waitState := update s.waitState s.sched.run blockState }

def rtDlyWait (delayTime : ℕ) (s : Rtx T M) : Option (Rtx T M) := s.block delayTime .waitDly

def svcDelay (millisec : ℕ) (s : Rtx T M) : Option (Rtx T M) :=
  if millisec = 0 then some s else s.rtDlyWait (rtMs2tick millisec)

/-- `true` if the running task has got the flags, `false` if it has to wait. -/
def rtEvtWait (waitFlags : BitVec 16) (timeout : ℕ) (andWait : Bool) (s : Rtx T M) :
    Option (Rtx T M × Bool) :=
  let t := s.sched.run
  let got := { s with events := update s.events t (s.events t &&& ~~~waitFlags) }
  let waiting := { s with waits := update s.waits t waitFlags }
  if andWait then
    if s.events t &&& waitFlags = waitFlags then some (got, true)
    else (waiting.block timeout .waitAnd).map (·, false)
  else
    if s.events t &&& waitFlags ≠ 0 then
      some ({ got with waits := update s.waits t (s.events t &&& waitFlags) }, true)
    else (waiting.block timeout .waitOr).map (·, false)

def svcSignalWait (signals : BitVec 16) (millisec : ℕ) (s : Rtx T M) : Option (Rtx T M × Bool) :=
  if signals ≠ 0 then s.rtEvtWait signals (rtMs2tick millisec) true
  else s.rtEvtWait 0xFFFF (rtMs2tick millisec) false

/-- The flags are set, and the task is made `ready` if they complete those that it waits for. -/
def post (ready : T → Scheduler T M → Scheduler T M) (flags : BitVec 16) (t : T) (s : Rtx T M) :
    Rtx T M :=
  let s := { s with events := update s.events t (s.events t ||| flags) }
  let eventFlags := s.waits t
  let woken := { s with
    sched := ready t s.sched
    events := update s.events t (s.events t &&& ~~~eventFlags)
    osDly := rtRmvDly t s.osDly }
  if s.WaitsIn .waitAnd t ∧ s.events t &&& eventFlags = eventFlags then woken
  else if s.WaitsIn .waitOr t ∧ s.events t &&& eventFlags ≠ 0 then
    { woken with waits := update s.waits t (s.waits t &&& s.events t) }
  else s

def rtEvtSet (flags : BitVec 16) (t : T) (s : Rtx T M) : Rtx T M :=
  if s.Created t then s.post rtDispatch flags t else s

def rtEvtPsh (flags : BitVec 16) (t : T) (s : Rtx T M) : Rtx T M := s.post putReady flags t

/-- If the task waits for the message; its mailbox keeps it otherwise. -/
def rtMbxPsh (t : T) (s : Rtx T M) : Rtx T M :=
  if s.WaitsIn .waitMbx t then { s with sched := putReady t s.sched } else s

/-- The requests of tasks that are not created yet are not made. -/
def serve (s : Rtx T M) : PostRequest T → Rtx T M
  | .signal t flags => if s.Created t then s.rtEvtPsh flags t else s
  | .message t => s.rtMbxPsh t

/-- `rt_pop_req` -/
def popReq (requests : List (PostRequest T)) (s : Rtx T M) : Option (Rtx T M) :=
  let s := requests.foldl serve { s with sched := rtPutRdyFirst s.sched.run s.sched }
  (rtDispatchFirst s.sched).map fun k => { s with sched := k }

/-- `rt_systick` -/
def systick (robin : Bool) (s : Rtx T M) : Option (Rtx T M) :=
  let (woken, dly) := rtDecDly s.osDly
  (rtSystick robin woken s.sched).map fun k =>
    { s with sched := k, osTime := s.osTime + 1, osDly := dly }

/-- Before the first time-out is over, a tick only takes its share of it. -/
theorem systick_of_later {s : Rtx T M} {t : T} {d : ℕ} {rest : DeltaList T}
    (running : s.sched.state s.sched.run = .running) (first : s.osDly = (t, d) :: rest)
    (later : 1 < d) :
    s.systick false = some { s with osTime := s.osTime + 1, osDly := (t, d - 1) :: rest } := by
  obtain ⟨d, rfl⟩ : ∃ n, d = n + 2 := ⟨d - 2, by omega⟩
  have state : update (update s.sched.state s.sched.run .ready) s.sched.run .running =
      s.sched.state := by
    rw [update_idem, ← running, update_eq_self]
  simp [systick, rtDecDly, first, DeltaList.due, rtSystick, rtPutRdyFirst, rtDispatchFirst,
    rtSwitchReq, state]

end Services

end Rtx

/-! ## Alarms -/

namespace Rtx

section Alarms

variable {T M : Type*} {s s' s'' : Rtx T M} {t idle : T} {C : WaitState → Prop}

/-- The instants at which the waits with a time-out end. -/
def alarms (s : Rtx T M) : List (T × ℕ) := s.osDly.deadlines s.osTime

/-- The flags are those that `svcSignalWait` waits for. -/
def Completes (signals flags : BitVec 16) : Prop :=
  if signals ≠ 0 then flags &&& signals = signals else flags ≠ 0

/-- The task is asleep in `svcSignalWait`. -/
def AwaitsSignals (signals : BitVec 16) (t : T) (s : Rtx T M) : Prop :=
  if signals ≠ 0 then s.WaitsIn .waitAnd t ∧ s.waits t = signals
  else s.WaitsIn .waitOr t ∧ s.waits t = 0xFFFF

/-- The list holds tasks that wait in states with time-outs, and every time-out fits into 16 bits. -/
structure Queued (s : Rtx T M) : Prop where
  nodup : (s.osDly.map Prod.fst).Nodup
  ahead : s.osDly.Ahead
  asleep : ∀ t ∈ s.osDly.map Prod.fst, s.sched.state t = .waiting
  timed : ∀ t ∈ s.osDly.map Prod.fst, s.waitState t ≠ .inactive ∧ s.waitState t ≠ .waitMbx
  within : ∀ e ∈ s.alarms, e.2 ≤ s.osTime + 0xFFFE

/-- The times in the list fit into the 16 bits of `delta_time`. -/
theorem Queued.delta_lt (h : s.Queued) : ∀ e ∈ s.osDly, e.2 < 2 ^ 16 := by
  rintro ⟨t, d⟩ mem
  obtain ⟨u, alarm, le⟩ := DeltaList.exists_deadline_le s.osTime mem
  have := h.within _ alarm
  dsimp only at this ⊢
  omega

/-- What a step does to a task that neither falls asleep in it nor is woken but from the states `C`. -/
structure Goes (C : WaitState → Prop) (t : T) (s s' : Rtx T M) : Prop where
  awake : s.sched.state t ≠ .waiting → s'.sched.state t ≠ .waiting ∧
    ∀ w, Completes w (s.events t) → Completes w (s'.events t)
  asleep : s'.sched.state t = .waiting → s'.waitState t = s.waitState t ∧ s'.waits t = s.waits t ∧
    ∀ d, (t, d) ∈ s'.alarms ↔ (t, d) ∈ s.alarms
  woken : s.sched.state t = .waiting → s'.sched.state t ≠ .waiting → C (s.waitState t)

theorem Goes.trans (first : Goes C t s s') (second : Goes C t s' s'') : Goes C t s s'' where
  awake up := by
    obtain ⟨up', kept⟩ := first.awake up
    obtain ⟨up'', kept'⟩ := second.awake up'
    exact ⟨up'', fun w full => kept' w (kept w full)⟩
  asleep down'' := by
    have down' : s'.sched.state t = .waiting := not_not.1 fun up => (second.awake up).1 down''
    obtain ⟨waitState, waits, alarms⟩ := first.asleep down'
    obtain ⟨waitState', waits', alarms'⟩ := second.asleep down''
    exact ⟨waitState'.trans waitState, waits'.trans waits, fun d => (alarms' d).trans (alarms d)⟩
  woken down up'' := by
    by_cases down' : s'.sched.state t = .waiting
    · obtain ⟨waitState, -, -⟩ := first.asleep down'
      exact waitState ▸ second.woken down' up''
    · exact first.woken down down'

theorem Goes.mono {D : WaitState → Prop} (h : Goes C t s s') (le : ∀ w, C w → D w) :
    Goes D t s s' where
  awake := h.awake
  asleep := h.asleep
  woken down up := le _ (h.woken down up)

theorem Goes.created (h : Goes C t s s') (created : s.Created t) : s'.Created t := by
  by_cases down' : s'.sched.state t = .waiting
  · have down : s.sched.state t = .waiting := not_not.1 fun up => (h.awake up).1 down'
    refine .inr ?_
    rw [(h.asleep down').1]
    exact created.resolve_left (not_not.2 down)
  · exact .inl down'

theorem Goes.awaitsSignals {w : BitVec 16} (h : Goes C t s s') (waits : s.AwaitsSignals w t) :
    s'.sched.state t ≠ .waiting ∨ s'.AwaitsSignals w t := by
  by_cases down' : s'.sched.state t = .waiting
  · obtain ⟨waitState, same, -⟩ := h.asleep down'
    refine .inr ?_
    unfold AwaitsSignals WaitsIn at waits ⊢
    rw [waitState, same]
    split_ifs at waits ⊢
    · exact ⟨⟨down', waits.1.2⟩, waits.2⟩
    · exact ⟨⟨down', waits.1.2⟩, waits.2⟩
  · exact .inl down'

/-- Who is asleep does not change, and nothing else does. -/
theorem Goes.sched {k : Scheduler T M} (same : k.state t = .waiting ↔ s.sched.state t = .waiting) :
    Goes C t s { s with sched := k } where
  awake up := ⟨mt same.1 up, fun _ full => full⟩
  asleep _ := ⟨rfl, rfl, fun _ => .rfl⟩
  woken down up := absurd (same.2 down) up

theorem Queued.sched {k : Scheduler T M} (h : s.Queued)
    (kept : ∀ t, s.sched.state t = .waiting → k.state t = .waiting) :
    Queued { s with sched := k } where
  nodup := h.nodup
  ahead := h.ahead
  asleep t mem := kept t (h.asleep t mem)
  timed := h.timed
  within := h.within

/-- A task that waits without a time-out is woken. -/
theorem Queued.wake {k : Scheduler T M} (h : s.Queued) (out : t ∉ s.osDly.map Prod.fst)
    (kept : ∀ u, u ≠ t → s.sched.state u = .waiting → k.state u = .waiting) :
    Queued { s with sched := k } where
  nodup := h.nodup
  ahead := h.ahead
  asleep u mem := kept u (fun same => out (same ▸ mem)) (h.asleep u mem)
  timed := h.timed
  within := h.within

theorem Queued.run_not_mem (h : s.Queued) (inv : s.sched.Inv idle) :
    s.sched.run ∉ s.osDly.map Prod.fst :=
  fun mem => inv.runs.ne_of_asleep (h.asleep _ mem) rfl

end Alarms

/-! ### The running task waits -/

section Waits

variable {T M : Type*} [DecidableEq T] {s s' : Rtx T M} {t u idle : T} {timeout : ℕ} {w : WaitState}

/-- What `rt_block` does if the time-out is not zero. -/
structure Blocks (timeout : ℕ) (w : WaitState) (s s' : Rtx T M) : Prop where
  sched : rtBlock .waiting s.sched = some s'.sched
  osTime : s'.osTime = s.osTime
  asleep : s'.sched.state s.sched.run = .waiting
  waitState : s'.waitState s.sched.run = w
  waits : s'.waits = s.waits
  alarm : timeout < 0xFFFF → (s.sched.run, s'.osTime + timeout) ∈ s'.alarms
  others : ∀ C u, u ≠ s.sched.run → Goes C u s s'

/-- The list with the running task in it. -/
theorem Queued.putDly {k : Scheduler T M} (h : s.Queued) (inv : s.sched.Inv idle)
    (pos : timeout ≠ 0) (fits : timeout < 0xFFFF) (timed : w ≠ .inactive ∧ w ≠ .waitMbx)
    (asleep : ∀ u, k.state u = .waiting ↔ u = s.sched.run ∨ s.sched.state u = .waiting) :
    Queued { s with
      sched := k
      osDly := rtPutDly s.sched.run timeout s.osDly
      waitState := update s.waitState s.sched.run w } := by
  have perm : ((rtPutDly s.sched.run timeout s.osDly).map Prod.fst).Perm
      (s.sched.run :: s.osDly.map Prod.fst) := DeltaList.map_fst_insert_perm DeltaList.earlier_le
  have mem (u : T) (hu : u ∈ (rtPutDly s.sched.run timeout s.osDly).map Prod.fst) :
      u = s.sched.run ∨ u ∈ s.osDly.map Prod.fst := List.mem_cons.1 (perm.mem_iff.1 hu)
  refine ⟨perm.nodup_iff.2 (h.nodup.cons (h.run_not_mem inv)),
    h.ahead.insert (Nat.pos_of_ne_zero pos), fun u hu => ?_, fun u hu => ?_, ?_⟩
  · exact (asleep u).2 ((mem u hu).imp_right (h.asleep u))
  · by_cases same : u = s.sched.run
    · simpa [same] using timed
    · simpa [same] using h.timed u ((mem u hu).resolve_left same)
  · rintro ⟨u, d⟩ hu
    rcases (DeltaList.mem_deadlines_insert DeltaList.earlier_le).1 hu with ⟨-, rfl⟩ | hu
    · dsimp only
      omega
    · exact h.within _ hu

theorem Queued.block (h : s.Queued) (inv : s.sched.Inv idle) (pos : timeout ≠ 0)
    (timed : timeout < 0xFFFF → w ≠ .inactive ∧ w ≠ .waitMbx) (made : s.block timeout w = some s') :
    s'.Queued ∧ Blocks timeout w s s' := by
  unfold Rtx.block at made
  rw [if_neg pos] at made
  obtain ⟨k, blocked, rfl⟩ := Option.map_eq_some_iff.1 made
  have asleep (u : T) := inv.block_asleep (u := u) blocked
  have others (C : WaitState → Prop) (dly : DeltaList T) (u : T) (ne : u ≠ s.sched.run)
      (kept : ∀ d, (u, d) ∈ dly.deadlines s.osTime ↔ (u, d) ∈ s.alarms) :
      Goes C u s { s with
        sched := k, osDly := dly, waitState := update s.waitState s.sched.run w } := by
    refine ⟨fun up => ⟨?_, fun _ full => full⟩, fun _ => ⟨update_of_ne ne _ _, rfl, kept⟩,
      fun down up => ?_⟩
    · simpa [asleep, ne] using up
    · exact absurd ((asleep u).2 (.inr down)) up
  by_cases fits : timeout < 0xFFFF
  · rw [if_pos fits]
    refine ⟨h.putDly inv pos fits (timed fits) asleep, blocked, rfl, (asleep _).2 (.inl rfl),
      update_self _ _ _, rfl, fun _ => ?_, fun C u ne => others C _ u ne fun d => ?_⟩
    · exact (DeltaList.mem_deadlines_insert DeltaList.earlier_le).2 (.inl ⟨rfl, rfl⟩)
    · refine (DeltaList.mem_deadlines_insert DeltaList.earlier_le).trans (or_iff_right ?_)
      exact fun same => ne same.1
  · rw [if_neg fits]
    refine ⟨⟨h.nodup, h.ahead, fun u hu => (asleep u).2 (.inr (h.asleep u hu)), fun u hu => ?_,
      h.within⟩, blocked, rfl, (asleep _).2 (.inl rfl), update_self _ _ _, rfl,
      fun fits' => absurd fits' fits, fun C u ne => others C _ u ne fun _ => .rfl⟩
    have ne : u ≠ s.sched.run := by
      rintro rfl
      exact h.run_not_mem inv hu
    simpa [ne] using h.timed u hu

end Waits

/-! ### Signals and messages -/

section Signals

theorem Completes.or_left {w flags : BitVec 16} (h : Completes w flags) (more : BitVec 16) :
    Completes w (flags ||| more) := by
  unfold Completes at h ⊢
  split_ifs at h ⊢
  · ext i hi
    have bit := congrArg (fun v : BitVec 16 => v[i]) h
    simp only [BitVec.getElem_and, BitVec.getElem_or] at bit ⊢
    grind
  · exact fun none => h (BitVec.or_eq_zero_iff.1 none).1

theorem Completes.or_right {w flags : BitVec 16} (h : Completes w flags) (more : BitVec 16) :
    Completes w (more ||| flags) := BitVec.or_comm flags more ▸ h.or_left more

/-- From these states the requests wake the task. -/
def Rouses {T : Type*} (requests : List (PostRequest T)) (u : T) (w : WaitState) : Prop :=
  w = .waitMbx ∨ (∃ flags, .signal u flags ∈ requests) ∧ (w = .waitAnd ∨ w = .waitOr)

theorem Rouses.mono {T : Type*} {u : T} {requests requests' : List (PostRequest T)} {w : WaitState}
    (h : Rouses requests u w) (sub : requests ⊆ requests') : Rouses requests' u w :=
  h.imp_right <| And.imp_left fun ⟨flags, mem⟩ => ⟨flags, sub mem⟩

variable {T M : Type*} [DecidableEq T] {s s' : Rtx T M} {t u idle : T} {flags : BitVec 16}
  {ready : T → Scheduler T M → Scheduler T M}

/-- What flags do that are set for a task. -/
structure Posts (ready : T → Scheduler T M → Scheduler T M) (flags : BitVec 16) (t : T)
    (s s' : Rtx T M) : Prop where
  osTime : s'.osTime = s.osTime
  sched : s'.sched = s.sched ∨ s.sched.state t = .waiting ∧ s'.sched = ready t s.sched
  others : ∀ C u, u ≠ t → Goes C u s s'
  self : Goes (fun w => w = .waitAnd ∨ w = .waitOr) t s s'
  kept : s.sched.state t ≠ .waiting → ∀ w, Completes w flags → Completes w (s'.events t)
  completes : ∀ w, s.AwaitsSignals w t → Completes w flags → s'.sched.state t ≠ .waiting

/-- The flags complete what the task waits for. -/
theorem Queued.woken (h : s.Queued) (flags : BitVec 16)
    (made : ∀ u, (ready t s.sched).state u = .waiting ↔ u ≠ t ∧ s.sched.state u = .waiting)
    (down : s.sched.state t = .waiting) (waits : s.waitState t = .waitAnd ∨ s.waitState t = .waitOr)
    (e f : BitVec 16) :
    let s' := { s with
      sched := ready t s.sched
      osDly := rtRmvDly t s.osDly
      events := update s.events t e
      waits := update s.waits t f }
    s'.Queued ∧ Posts ready flags t s s' := by
  intro s'
  have up : s'.sched.state t ≠ .waiting := fun down' => ((made t).1 down').1 rfl
  have kept (u : T) (ne : u ≠ t) : s'.sched.state u = .waiting ↔ s.sched.state u = .waiting :=
    (made u).trans (and_iff_right ne)
  have mem (u : T) (hu : u ∈ (rtRmvDly t s.osDly).map Prod.fst) :
      u ≠ t ∧ u ∈ s.osDly.map Prod.fst := by
    unfold rtRmvDly at hu
    rwa [DeltaList.map_fst_remove, h.nodup.mem_erase_iff] at hu
  refine ⟨⟨?_, h.ahead.remove, fun u hu => ?_, fun u hu => h.timed u (mem u hu).2, fun x hx => ?_⟩,
    rfl, .inr ⟨down, rfl⟩, fun C u ne => ⟨fun up => ⟨mt (kept u ne).1 up, fun w full => ?_⟩,
      fun _ => ⟨rfl, update_of_ne ne _ _, fun d => ?_⟩, fun down up => absurd ((kept u ne).2 down) up⟩,
    ⟨fun up => absurd down up, fun down' => absurd down' up, fun _ _ => waits⟩,
    fun up => absurd down up, fun _ _ _ => up⟩
  · have keys : (rtRmvDly t s.osDly).map Prod.fst = (s.osDly.map Prod.fst).erase t :=
      DeltaList.map_fst_remove
    exact keys ▸ h.nodup.erase t
  · obtain ⟨ne, queued⟩ := mem u hu
    exact (kept u ne).2 (h.asleep u queued)
  · exact h.within x ((DeltaList.mem_deadlines_remove h.nodup).1 hx).2
  · simpa [s', ne] using full
  · exact (DeltaList.mem_deadlines_remove h.nodup).trans (and_iff_right ne)

/-- The flags are kept for the task. -/
theorem Queued.kept (h : s.Queued)
    (unwoken : ∀ w, s.AwaitsSignals w t → ¬ Completes w (s.events t ||| flags)) :
    let s' := { s with events := update s.events t (s.events t ||| flags) }
    s'.Queued ∧ Posts ready flags t s s' := by
  intro s'
  refine ⟨{ h with }, rfl, .inl rfl, fun C u ne => ⟨fun up => ⟨up, fun w full => ?_⟩,
    fun _ => ⟨rfl, rfl, fun _ => .rfl⟩, fun down up => absurd down up⟩,
    ⟨fun up => ⟨up, fun w full => ?_⟩, fun _ => ⟨rfl, rfl, fun _ => .rfl⟩,
      fun down up => absurd down up⟩, fun _ w full => ?_, fun w waits full => ?_⟩
  · simpa [s', ne] using full
  · simpa [s'] using full.or_left flags
  · simpa [s'] using full.or_right (s.events t)
  · exact absurd (full.or_right _) (unwoken w waits)

theorem Queued.post (h : s.Queued) (ready : T → Scheduler T M → Scheduler T M) (flags : BitVec 16)
    (made : ∀ u, (ready t s.sched).state u = .waiting ↔ u ≠ t ∧ s.sched.state u = .waiting) :
    (s.post ready flags t).Queued ∧ Posts ready flags t s (s.post ready flags t) := by
  unfold Rtx.post
  simp only [update_self, update_idem]
  split_ifs with all one
  · obtain ⟨⟨down, waits⟩, -⟩ := all
    have woken := h.woken flags made down (.inl waits)
      ((s.events t ||| flags) &&& ~~~s.waits t) (s.waits t)
    rwa [update_eq_self] at woken
  · obtain ⟨⟨down, waits⟩, -⟩ := one
    exact h.woken flags made down (.inr waits) _ _
  · refine h.kept fun w waits full => ?_
    unfold AwaitsSignals at waits
    unfold Completes at full
    split_ifs at waits full with zero
    · rw [← waits.2] at full
      exact all ⟨waits.1, full⟩
    · rw [← BitVec.and_allOnes (x := s.events t ||| flags)] at full
      exact one ⟨waits.1, waits.2 ▸ full⟩

/-- What the requests of the interrupts do to the tasks. -/
structure Answers (requests : List (PostRequest T)) (s s' : Rtx T M) : Prop where
  osTime : s'.osTime = s.osTime
  goes : ∀ u, Goes (Rouses requests u) u s s'
  delivers : ∀ u flags, .signal u flags ∈ requests → s.Created u → ∀ w, Completes w flags →
    (s.sched.state u ≠ .waiting → Completes w (s'.events u)) ∧
      (s.AwaitsSignals w u → s'.sched.state u ≠ .waiting)

/-- The requests are served one by one. -/
structure Serves (requests : List (PostRequest T)) (s s' : Rtx T M) : Prop
    extends Answers requests s s' where
  sched : ∃ woken : List T, woken.Nodup ∧ (∀ t ∈ woken, s.sched.state t = .waiting) ∧
    s'.sched = woken.foldl (fun k t => putReady t k) s.sched

theorem Serves.trans {s'' : Rtx T M} {r : PostRequest T} {rs : List (PostRequest T)}
    (first : Serves [r] s s') (second : Serves rs s' s'') : Serves (r :: rs) s s'' where
  osTime := second.osTime.trans first.osTime
  sched := by
    obtain ⟨woken, distinct, asleep, made⟩ := first.sched
    obtain ⟨woken', distinct', asleep', made'⟩ := second.sched
    rw [made] at made' asleep'
    refine ⟨woken ++ woken', ?_, fun t mem => ?_, by rw [made', List.foldl_append]⟩
    · refine distinct.append distinct' fun t mem mem' => ?_
      exact (foldl_putReady_asleep.1 (asleep' t mem')).1 mem
    · rcases List.mem_append.1 mem with mem | mem
      · exact asleep t mem
      · exact (foldl_putReady_asleep.1 (asleep' t mem)).2
  goes u := by
    refine ((first.goes u).mono fun w wakes => wakes.mono ?_).trans
      ((second.goes u).mono fun w wakes => wakes.mono (List.subset_cons_self r rs))
    simp
  delivers u flags mem created w full := by
    rcases List.mem_cons.1 mem with rfl | mem
    · obtain ⟨kept, completes⟩ := first.delivers u flags List.mem_cons_self created w full
      refine ⟨fun up => ?_, fun waits => ((second.goes u).awake (completes waits)).1⟩
      exact ((second.goes u).awake ((first.goes u).awake up).1).2 w (kept up)
    · obtain ⟨kept, completes⟩ := second.delivers u flags mem ((first.goes u).created created) w full
      refine ⟨fun up => kept ((first.goes u).awake up).1, fun waits => ?_⟩
      rcases (first.goes u).awaitsSignals waits with up | waits
      · exact ((second.goes u).awake up).1
      · exact completes waits

/-- Nothing happens. -/
theorem Serves.none {requests : List (PostRequest T)}
    (quiet : ∀ u flags, .signal u flags ∈ requests → ¬ s.Created u) : Serves requests s s where
  osTime := rfl
  sched := ⟨[], .nil, by simp, rfl⟩
  goes _ := .sched .rfl
  delivers u flags mem created := absurd created (quiet u flags mem)

theorem Queued.serve (h : s.Queued) (r : PostRequest T) :
    (s.serve r).Queued ∧ Serves [r] s (s.serve r) := by
  cases r with
  | signal t flags =>
    unfold Rtx.serve
    dsimp only
    split_ifs with created
    · obtain ⟨queued, posts⟩ := h.post putReady flags fun u => putReady_asleep
      refine ⟨queued, ⟨posts.osTime, fun u => ?_, fun u flags' mem _ w full => ?_⟩, ?_⟩
      · by_cases same : u = t
        · subst same
          exact posts.self.mono fun w waits => .inr ⟨⟨flags, List.mem_cons_self⟩, waits⟩
        · exact posts.others _ u same
      · obtain ⟨rfl, rfl⟩ := PostRequest.signal.inj (List.mem_singleton.1 mem)
        exact ⟨fun up => posts.kept up w full, fun waits => posts.completes w waits full⟩
      · rcases posts.sched with same | ⟨down, woken⟩
        · exact ⟨[], .nil, by simp, same⟩
        · exact ⟨[t], List.nodup_singleton t, by simpa using down, woken⟩
    · refine ⟨h, .none fun u flags' mem => ?_⟩
      obtain ⟨rfl, -⟩ := PostRequest.signal.inj (List.mem_singleton.1 mem)
      exact created
  | message t =>
    unfold Rtx.serve Rtx.rtMbxPsh
    dsimp only
    split_ifs with waits
    · have out : t ∉ s.osDly.map Prod.fst := fun mem => (h.timed t mem).2 waits.2
      refine ⟨h.wake out fun u ne down => putReady_asleep.2 ⟨ne, down⟩,
        ⟨rfl, fun u => ?_, by simp⟩, ⟨[t], List.nodup_singleton t, by simpa using waits.1, rfl⟩⟩
      by_cases same : u = t
      · subst same
        refine ⟨fun up => absurd waits.1 up, fun down => ?_, fun _ _ => .inl waits.2⟩
        exact absurd rfl (putReady_asleep.1 down).1
      · exact .sched (putReady_asleep.trans (and_iff_right same))
    · exact ⟨h, .none fun u flags mem => by simp at mem⟩

theorem Queued.foldl_serve (h : s.Queued) (requests : List (PostRequest T)) :
    Queued (requests.foldl Rtx.serve s) ∧ Serves requests s (requests.foldl Rtx.serve s) := by
  induction requests generalizing s with
  | nil => exact ⟨h, .none fun u flags mem => by simp at mem⟩
  | cons r rs ih =>
    obtain ⟨queued, first⟩ := h.serve r
    obtain ⟨queued', second⟩ := ih queued
    exact ⟨queued', first.trans second⟩

theorem Queued.popReq {requests : List (PostRequest T)} (h : s.Queued) (inv : s.sched.Inv idle)
    (made : s.popReq requests = some s') : s'.Queued ∧ Answers requests s s' ∧
      ∃ woken : List T, woken.Nodup ∧ (∀ t ∈ woken, s.sched.state t = .waiting) ∧
        rtSystick false woken s.sched = some s'.sched := by
  let rested : Rtx T M := { s with sched := rtPutRdyFirst s.sched.run s.sched }
  have live (u : T) (down : s.sched.state u = .waiting) : u ≠ s.sched.run := inv.runs.ne_of_asleep down
  have down (u : T) : rested.sched.state u = .waiting ↔ s.sched.state u = .waiting :=
    rtPutRdyFirst_asleep.trans (and_iff_right_of_imp (live u))
  obtain ⟨queued, serves⟩ := (h.sched fun u => (down u).2 : rested.Queued).foldl_serve requests
  obtain ⟨k, switched, rfl⟩ := Option.map_eq_some_iff.1 made
  obtain ⟨woken, distinct, asleep, eq⟩ := serves.sched
  change (requests.foldl Rtx.serve rested).sched = _ at eq
  have awake : Scheduler.Awake (requests.foldl Rtx.serve rested).sched :=
    eq ▸ (inv.placed.awake.putRdyFirst _).foldl_putReady woken
  have same (u : T) := awake.dispatchFirst (u := u) switched
  have before (C : WaitState → Prop) (u : T) : Goes C u s rested := .sched (down u)
  refine ⟨queued.sched fun u => (same u).2, ⟨serves.osTime, fun u => ?_, fun u flags mem created w full => ?_⟩,
    woken, distinct, fun t mem => (down t).1 (asleep t mem), ?_⟩
  · exact ((before _ u).trans (serves.goes u)).trans (.sched (same u))
  · obtain ⟨kept, completes⟩ := serves.delivers u flags mem ((before (fun _ => True) u).created created) w full
    refine ⟨fun up => kept (mt (down u).1 up), fun waits => mt (same u).1 ?_⟩
    exact ((before (fun _ => True) u).awaitsSignals waits).elim (fun up => ((serves.goes u).awake up).1) completes
  · rw [← switched]
    exact congrArg rtDispatchFirst eq.symm

end Signals

/-! ### Ticks -/

section Ticks

variable {T M : Type*} [DecidableEq T] {s s' : Rtx T M} {t u idle : T} {robin : Bool}

/-- The tick wakes the tasks whose alarm it is. -/
structure Ticks (robin : Bool) (s s' : Rtx T M) : Prop where
  osTime : s'.osTime = s.osTime + 1
  sched : ∃ woken : List T, woken.Nodup ∧ (∀ t ∈ woken, s.sched.state t = .waiting) ∧
    rtSystick robin woken s.sched = some s'.sched
  goes : ∀ u, Goes (fun w => w ≠ .inactive ∧ w ≠ .waitMbx) u s s'
  wakes : ∀ u, s'.sched.state u = .waiting ↔
    s.sched.state u = .waiting ∧ (u, s.osTime + 1) ∉ s.alarms

theorem Queued.systick (h : s.Queued) (inv : s.sched.Inv idle) (made : s.systick robin = some s') :
    s'.Queued ∧ Ticks robin s s' := by
  have decDly : rtDecDly s.osDly = s.osDly.tick.due := by cases s.osDly <;> rfl
  unfold Rtx.systick at made
  rw [decDly] at made
  obtain ⟨k, switched, rfl⟩ := Option.map_eq_some_iff.1 made
  set woken := s.osDly.tick.due.1
  set rest := s.osDly.tick.due.2
  have alarms : s.osDly.tick.deadlines (s.osTime + 1) = s.alarms := DeltaList.deadlines_tick h.ahead
  have keys : s.osDly.map Prod.fst = woken ++ rest.map Prod.fst :=
    (DeltaList.map_fst_tick s.osDly).symm.trans (DeltaList.map_fst_due _)
  have distinct := h.nodup
  rw [keys] at distinct
  obtain ⟨distinct, distinct', disjoint⟩ := List.nodup_append.1 distinct
  have mem (u : T) : u ∈ woken ↔ (u, s.osTime + 1) ∈ s.alarms := alarms ▸ DeltaList.mem_due
  have asleep (u : T) := inv.systick_asleep (u := u) switched
  have queued (u : T) (hu : u ∈ rest.map Prod.fst) : u ∈ s.osDly.map Prod.fst :=
    keys ▸ List.mem_append_right woken hu
  have kept (u : T) (out : u ∉ woken) (d : ℕ) :
      (u, d) ∈ rest.deadlines (s.osTime + 1) ↔ (u, d) ∈ s.alarms := by
    rw [← alarms, DeltaList.deadlines_due s.osDly.tick, List.mem_append]
    refine (or_iff_right fun due => out ?_).symm
    obtain ⟨v, hv, same⟩ := List.mem_map.1 due
    exact (Prod.mk.inj same).1 ▸ hv
  refine ⟨⟨distinct', DeltaList.ahead_due, fun u hu => (asleep u).2 ⟨?_, h.asleep u (queued u hu)⟩,
      fun u hu => h.timed u (queued u hu), fun e he => ?_⟩,
    rfl, ⟨woken, distinct, fun u hu => h.asleep u ?_, switched⟩, fun u => ⟨fun up => ⟨?_, ?_⟩, fun down =>
      ⟨rfl, rfl, kept u ((asleep u).1 down).1⟩, fun down up => h.timed u ?_⟩, fun u => ?_⟩
  · exact fun due => disjoint u due u hu rfl
  · have before : e ∈ s.alarms := alarms ▸ DeltaList.deadlines_due s.osDly.tick ▸
      List.mem_append_right _ he
    have le := h.within e before
    dsimp only
    omega
  · exact keys ▸ List.mem_append_left _ hu
  · exact fun down => up ((asleep u).1 down).2
  · exact fun w full => full
  · have due : u ∈ woken := not_not.1 fun out => up ((asleep u).2 ⟨out, down⟩)
    exact keys ▸ List.mem_append_left _ due
  · rw [asleep, mem, and_comm]

end Ticks

end Rtx

end Ams
