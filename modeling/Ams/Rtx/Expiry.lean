import Ams.Rtx.Timer
import Mathlib.Data.List.Basic

/-!
# Expiry of timers

A tick posts the timers whose time has come, in the order of the list (`sysTimerTick_eq`), and every
other operation on the timers moves the instant of one of them.  Over a run, what is posted at a tick
is decided by the commands given so far.
-/

namespace Ams

open Reactive

variable {I : Type*} [DecidableEq I] {s t : TimerService I} {pt i : I} {head rest : TimerList I}
  {now u : ℕ}

namespace TimerService

omit [DecidableEq I]

/-- The instants at which the running timers expire, when `now` ticks have passed. -/
def deadlines (now : ℕ) (s : TimerService I) : List (I × ℕ) :=
  DeltaList.deadlines now (deltas s.osTimerHead)

/-- The timers whose callbacks are still to be called, oldest first. -/
def messages (s : TimerService I) : List I :=
  match s.thread with
  | .got pt => pt :: s.queue
  | _ => s.queue

structure Inv (s : TimerService I) : Prop where
  distinct : (s.osTimerHead.map Prod.fst).Nodup
  running : ∀ i, i ∈ s.osTimerHead.map Prod.fst ↔ (s.cb i).state = .osTimerRunning
  ahead : (deltas s.osTimerHead).Ahead
  fits : Fits s.osTimerHead
  period : ∀ i, (s.cb i).state = .osTimerRunning → 0 < (s.cb i).icnt.toNat
  waiting : s.thread = .waiting → s.queue = []

theorem Inv.nodup_deltas (inv : s.Inv) : ((deltas s.osTimerHead).map Prod.fst).Nodup := by
  rw [map_fst_deltas]
  exact inv.distinct

theorem Inv.running_of_mem (inv : s.Inv) (h : (i, u) ∈ s.deadlines now) :
    (s.cb i).state = .osTimerRunning := by
  refine (inv.running i).1 ?_
  rw [← map_fst_deltas]
  exact DeltaList.mem_of_mem_deadlines h

theorem Inv.exists_deadline (inv : s.Inv) (now : ℕ) (h : (s.cb i).state = .osTimerRunning) :
    ∃ u, (i, u) ∈ s.deadlines now := by
  refine DeltaList.exists_deadline ?_
  rw [map_fst_deltas]
  exact (inv.running i).2 h

end TimerService

open TimerService

/-! ## Messages -/

omit [DecidableEq I] in
/-- A message reaches the waiting thread, or the end of the queue. -/
theorem isrMessagePut_cases (put : isrMessagePut pt s = some t) :
    s.thread = .waiting ∧ t = { s with thread := .got pt } ∨
      s.thread ≠ .waiting ∧ t = { s with queue := s.queue ++ [pt] } := by
  unfold isrMessagePut at put
  split at put
  · exact .inl ⟨‹_›, (Option.some.inj put).symm⟩
  · split_ifs at put
    exact .inr ⟨‹_›, (Option.some.inj put).symm⟩

omit [DecidableEq I] in
theorem isrMessagePut_messages (waiting : s.thread = .waiting → s.queue = [])
    (put : isrMessagePut pt s = some t) :
    t.messages = s.messages ++ [pt] ∧ (t.thread = .waiting → t.queue = []) := by
  rcases isrMessagePut_cases put with ⟨idle, rfl⟩ | ⟨busy, rfl⟩
  · simp [messages, idle, waiting idle]
  · cases thread : s.thread with
    | waiting => exact absurd thread busy
    | calling | got => simp [messages, thread]

omit [DecidableEq I] in
theorem isrMessagePut_timers (put : isrMessagePut pt s = some t) :
    t.cb = s.cb ∧ t.osTimerHead = s.osTimerHead := by
  rcases isrMessagePut_cases put with ⟨-, rfl⟩ | ⟨-, rfl⟩ <;> exact ⟨rfl, rfl⟩

/-! ## The loop of a tick -/

/-- One round of the loop: the timer has been taken from the list. -/
def expireOne (s : TimerService I) (pt : I) : Option (TimerService I) :=
  (isrMessagePut pt s).map fun s =>
    if (s.cb pt).type = .osTimerPeriodic then
      { s with osTimerHead := rtTimerInsert pt (s.cb pt).icnt s.osTimerHead }
    else s.setState pt .osTimerStopped

omit [DecidableEq I] in
theorem isrMessagePut_head (s : TimerService I) (pt : I) (head : TimerList I) :
    isrMessagePut pt { s with osTimerHead := head } =
      (isrMessagePut pt s).map fun s => { s with osTimerHead := head } := by
  unfold isrMessagePut
  cases s.thread with
  | waiting => rfl
  | calling | got =>
    dsimp only
    split_ifs <;> rfl

omit [DecidableEq I] in
theorem rtTimerInsert_append_zeros {zs : TimerList I} (zeros : ∀ e ∈ zs, e.2 = 0) (pt : I)
    (tcnt : UInt32) (rest : TimerList I) :
    rtTimerInsert pt tcnt (zs ++ rest) = zs ++ rtTimerInsert pt tcnt rest := by
  induction zs with
  | nil => rfl
  | cons e zs ih =>
    obtain ⟨p, t⟩ := e
    obtain rfl : t = 0 := zeros (p, t) (by simp)
    have behind : ¬ tcnt < 0 := by simp
    simp [rtTimerInsert, behind, ih fun x hx => zeros x (.tail _ hx)]

/-- The loop ends at the timer `p`. -/
def Stops (p : Option I) (head : TimerList I) : Prop := ∀ e ∈ (listFrom p head).head?, e.2 ≠ 0

theorem expireLoop_of_stops {p : Option I} (stops : Stops p s.osTimerHead) (fuel : ℕ) :
    expireLoop fuel p s = some s := by
  cases fuel with
  | zero => rfl
  | succ fuel =>
    simp only [expireLoop]
    cases h : listFrom p s.osTimerHead with
    | nil => rfl
    | cons e next => simp [show e.2 ≠ 0 from stops e (by simp [h])]

omit [DecidableEq I] in
theorem ahead_rtTimerInsert (ahead : (deltas rest).Ahead) {tcnt : UInt32} (pos : 0 < tcnt.toNat) :
    (deltas (rtTimerInsert pt tcnt rest)).Ahead := by
  rw [deltas_rtTimerInsert]
  exact ahead.insert pos

omit [DecidableEq I] in
theorem ne_zero_of_ahead (ahead : (deltas rest).Ahead) {e : I × UInt32} (he : e ∈ rest.head?) :
    e.2 ≠ 0 := by
  intro zero
  have pos : 0 < e.2.toNat := ahead (e.1, e.2.toNat) (by cases rest <;> simp_all)
  simp [zero] at pos

theorem stops_head (ahead : (deltas rest).Ahead) : Stops (rest.head?.map Prod.fst) rest := by
  cases rest with
  | nil => exact fun e he => by cases he
  | cons e rest =>
    intro x hx
    obtain rfl : e = x := by simpa [listFrom] using hx
    exact ne_zero_of_ahead ahead rfl

/-- A timer that is put back does not come before its time, wherever it has been put. -/
theorem stops_rtTimerInsert (ahead : (deltas rest).Ahead) {tcnt : UInt32} (pos : 0 < tcnt.toNat) :
    Stops (rest.head?.map Prod.fst) (rtTimerInsert pt tcnt rest) := by
  cases rest with
  | nil => exact fun e he => by cases he
  | cons e rest =>
    obtain ⟨q, u⟩ := e
    have inserted : (deltas (rtTimerInsert pt tcnt ((q, u) :: rest))).Ahead :=
      ahead_rtTimerInsert ahead pos
    by_cases first : tcnt < u
    · by_cases same : pt = q
      · have all : listFrom (some q) (rtTimerInsert pt tcnt ((q, u) :: rest)) =
            rtTimerInsert pt tcnt ((q, u) :: rest) := by
          simp [listFrom, rtTimerInsert, first, same]
        intro x hx
        rw [List.head?_cons, Option.map_some, all] at hx
        exact ne_zero_of_ahead inserted hx
      · intro x hx
        obtain rfl : (q, u - tcnt) = x := by
          simpa [listFrom, rtTimerInsert, first, same] using hx
        intro zero
        have le := UInt32.le_iff_toNat_le.2 (UInt32.lt_iff_toNat_lt.1 first).le
        have diff := congrArg UInt32.toNat zero
        have lt := UInt32.lt_iff_toNat_lt.1 first
        rw [UInt32.toNat_sub_of_le _ _ le] at diff
        simp at diff
        omega
    · intro x hx
      obtain rfl : (q, u) = x := by simpa [listFrom, rtTimerInsert, first] using hx
      exact ne_zero_of_ahead ahead rfl

/-- The loop takes the timers without time left from the head of the list, one after another. -/
theorem expireLoop_append {p : Option I} {zs : TimerList I} (zeros : ∀ e ∈ zs, e.2 = 0)
    (first : ∀ e ∈ zs.head?, p = some e.1) (stops : zs = [] → Stops p rest)
    (ahead : (deltas rest).Ahead) (periods : ∀ i, i ∈ zs.map Prod.fst → 0 < (s.cb i).icnt.toNat)
    {fuel : ℕ} (enough : zs.length ≤ fuel) :
    expireLoop fuel p { s with osTimerHead := zs ++ rest } =
      (zs.map Prod.fst).foldlM expireOne { s with osTimerHead := rest } := by
  induction zs generalizing s p rest fuel with
  | nil => exact expireLoop_of_stops (stops rfl) fuel
  | cons e zs ih =>
    obtain ⟨pt, t⟩ := e
    obtain rfl : t = 0 := zeros (pt, t) (by simp)
    obtain rfl : p = some pt := first (pt, 0) rfl
    obtain ⟨fuel, rfl⟩ : ∃ n, fuel = n + 1 := ⟨fuel - 1, by simp at enough; omega⟩
    have reached : listFrom (some pt) ((pt, 0) :: (zs ++ rest)) = (pt, 0) :: (zs ++ rest) := by
      simp [listFrom]
    have later : ∀ e ∈ zs, e.2 = 0 := fun x hx => zeros x (.tail _ hx)
    have next : ∀ e ∈ zs.head?, (zs ++ rest).head?.map Prod.fst = some e.1 := by
      intro e he
      cases zs <;> simp_all
    have shorter : zs.length ≤ fuel := by simpa using enough
    simp only [List.cons_append, expireLoop, reached, if_pos, List.map_cons, List.foldlM_cons,
      isrMessagePut_head s pt (zs ++ rest), expireOne, isrMessagePut_head s pt rest,
      Option.map_map, Option.bind_map, Option.bind_eq_bind]
    cases put : isrMessagePut pt s with
    | none => rfl
    | some v =>
      obtain ⟨cb, -⟩ := isrMessagePut_timers put
      have pos : 0 < (v.cb pt).icnt.toNat := by
        rw [cb]
        exact periods pt (by simp)
      have others : ∀ i, i ∈ zs.map Prod.fst → 0 < (v.cb i).icnt.toNat := by
        rw [cb]
        exact fun i hi => periods i (.tail _ hi)
      simp only [Option.bind_some, Function.comp_def]
      split_ifs
      · rw [rtTimerInsert_append_zeros later]
        refine ih later next (fun none => ?_) (ahead_rtTimerInsert ahead pos) others shorter
        rw [none, List.nil_append]
        exact stops_rtTimerInsert ahead pos
      · refine ih (s := v.setState pt .osTimerStopped) later next (fun none => ?_) ahead ?_ shorter
        · rw [none, List.nil_append]
          exact stops_head ahead
        · intro i hi
          have pos := others i hi
          by_cases same : i = pt
          · subst same
            simpa [setState] using pos
          · simpa [setState, same] using pos

/-! ## A tick -/

/-- Before the first timer falls due, a tick only takes its share of the time left. -/
theorem sysTimerTick_of_later {tcnt : UInt32} (first : s.osTimerHead = (pt, tcnt) :: rest)
    (later : 1 < tcnt.toNat) :
    sysTimerTick s = some { s with osTimerHead := (pt, tcnt - 1) :: rest } := by
  have le : (1 : UInt32) ≤ tcnt := UInt32.le_iff_toNat_le.2 later.le
  have left : tcnt - 1 ≠ 0 := by
    intro zero
    have count := congrArg UInt32.toNat zero
    rw [UInt32.toNat_sub_of_le _ _ le] at count
    exact Nat.sub_ne_zero_of_lt later count
  unfold sysTimerTick
  rw [first]
  refine expireLoop_of_stops (fun e he => ?_) _
  obtain rfl : (pt, tcnt - 1) = e := by simpa [listFrom] using he
  exact left

omit [DecidableEq I] in
/-- The timers without time left come first. -/
theorem exists_due (head : TimerList I) :
    ∃ zs rest, head = zs ++ rest ∧ (∀ e ∈ zs, e.2 = 0) ∧ (deltas rest).Ahead := by
  induction head with
  | nil => exact ⟨[], [], rfl, by simp, fun e he => by cases he⟩
  | cons e head ih =>
    by_cases zero : e.2 = 0
    · obtain ⟨zs, rest, rfl, zeros, ahead⟩ := ih
      exact ⟨e :: zs, rest, rfl, List.forall_mem_cons.2 ⟨zero, zeros⟩, ahead⟩
    · refine ⟨[], e :: head, rfl, by simp, fun x hx => ?_⟩
      obtain rfl : (e.1, e.2.toNat) = x := by simpa using hx
      exact Nat.pos_of_ne_zero fun h => zero (UInt32.toNat_inj.1 h)

/-- What the expiry of the timers `ps`, which have been taken from the list, does. -/
structure Expired (ps : List I) (s t : TimerService I) : Prop where
  messages : t.messages = s.messages ++ ps
  waiting : t.thread = .waiting → t.queue = []
  cb : ∀ i, t.cb i = if i ∈ ps ∧ (s.cb i).type ≠ .osTimerPeriodic then
    { s.cb i with state := .osTimerStopped } else s.cb i
  deadlines : ∀ now i u, (i, u) ∈ t.deadlines now ↔ (i, u) ∈ s.deadlines now ∨
    i ∈ ps ∧ (s.cb i).type = .osTimerPeriodic ∧ u = now + (s.cb i).icnt.toNat
  ahead : (deltas t.osTimerHead).Ahead
  keys : (t.osTimerHead.map Prod.fst).Perm
    (ps.filter (fun i => (s.cb i).type = .osTimerPeriodic) ++ s.osTimerHead.map Prod.fst)

omit [DecidableEq I] in
theorem mem_deadlines_rtTimerInsert {tcnt : UInt32} :
    (i, u) ∈ DeltaList.deadlines now (deltas (rtTimerInsert pt tcnt head)) ↔
      i = pt ∧ u = now + tcnt.toNat ∨ (i, u) ∈ DeltaList.deadlines now (deltas head) := by
  rw [deltas_rtTimerInsert, DeltaList.mem_deadlines_insert DeltaList.earlier_lt]

omit [DecidableEq I] in
theorem map_fst_rtTimerInsert_perm (pt : I) (tcnt : UInt32) (head : TimerList I) :
    ((rtTimerInsert pt tcnt head).map Prod.fst).Perm (pt :: head.map Prod.fst) := by
  rw [← map_fst_deltas, deltas_rtTimerInsert, ← map_fst_deltas head]
  exact DeltaList.map_fst_insert_perm DeltaList.earlier_lt

theorem expired_one (waiting : s.thread = .waiting → s.queue = [])
    (ahead : (deltas s.osTimerHead).Ahead) (pos : 0 < (s.cb pt).icnt.toNat)
    (made : expireOne s pt = some t) : Expired [pt] s t := by
  obtain ⟨v, put, rfl⟩ := Option.map_eq_some_iff.1 made
  obtain ⟨messages, waits⟩ := isrMessagePut_messages waiting put
  obtain ⟨cb, head⟩ := isrMessagePut_timers put
  split_ifs with periodic <;> rw [cb] at periodic
  · refine ⟨messages, waits, fun i => ?_, fun now i u => ?_, ?_, ?_⟩
    · rw [if_neg (by rintro ⟨h, other⟩; rw [List.mem_singleton.1 h] at other; exact other periodic)]
      exact congrFun cb i
    · dsimp only [TimerService.deadlines]
      rw [mem_deadlines_rtTimerInsert, cb, head, List.mem_singleton]
      grind
    · rw [cb, head]
      exact ahead_rtTimerInsert ahead pos
    · dsimp only
      rw [head, List.filter_cons_of_pos (by simpa using periodic)]
      exact map_fst_rtTimerInsert_perm _ _ _
  · refine ⟨messages, waits, fun i => ?_, fun now i u => ?_, ?_, ?_⟩
    · by_cases same : i = pt
      · subst same
        simp [setState, cb, periodic]
      · simp [setState, cb, same]
    · dsimp only [TimerService.deadlines, setState]
      rw [head, List.mem_singleton]
      grind
    · dsimp only [setState]
      rwa [head]
    · dsimp only [setState]
      rw [head, List.filter_cons_of_neg (by simpa using periodic)]
      rfl

theorem Expired.cons {ps : List I} {v : TimerService I} (first : Expired [pt] s v)
    (later : Expired ps v t) (fresh : pt ∉ ps) : Expired (pt :: ps) s t := by
  have same (i : I) (hi : i ∈ ps) : v.cb i = s.cb i := by
    have ne : i ≠ pt := fun h => fresh (h ▸ hi)
    simp [first.cb, ne]
  have type (i : I) : (v.cb i).type = (s.cb i).type := by
    rw [first.cb]
    split_ifs <;> rfl
  refine ⟨?_, later.waiting, fun i => ?_, fun now i u => ?_, later.ahead, ?_⟩
  · rw [later.messages, first.messages, List.append_assoc, List.singleton_append]
  · rw [later.cb, type]
    simp only [List.mem_cons]
    by_cases hi : i ∈ ps
    · simp [hi, same i hi]
    · simp [hi, first.cb]
  · have icnt : (v.cb i).icnt = (s.cb i).icnt := by
      rw [first.cb]
      split_ifs <;> rfl
    rw [later.deadlines, first.deadlines, type, icnt]
    grind
  · have periodic : ps.filter (fun i => (v.cb i).type = .osTimerPeriodic) =
        ps.filter fun i => (s.cb i).type = .osTimerPeriodic :=
      List.filter_congr fun i hi => by rw [same i hi]
    refine later.keys.trans ?_
    rw [periodic]
    refine (first.keys.append_left _).trans ?_
    rw [← List.append_assoc, ← List.singleton_append (l := ps), List.filter_append]
    exact List.perm_append_comm.append_right _

theorem expired_of_foldlM {ps : List I} (distinct : ps.Nodup)
    (waiting : s.thread = .waiting → s.queue = []) (ahead : (deltas s.osTimerHead).Ahead)
    (periods : ∀ i ∈ ps, 0 < (s.cb i).icnt.toNat) (made : ps.foldlM expireOne s = some t) :
    Expired ps s t := by
  induction ps generalizing s with
  | nil =>
    obtain rfl := Option.some.inj made
    exact ⟨by simp, waiting, by simp, by simp, ahead, by simp⟩
  | cons p ps ih =>
    rw [List.foldlM_cons, Option.bind_eq_bind] at made
    obtain ⟨v, one, made⟩ := Option.bind_eq_some_iff.1 made
    obtain ⟨fresh, distinct⟩ := List.nodup_cons.1 distinct
    have first := expired_one waiting ahead (periods p (by simp)) one
    refine first.cons (ih distinct first.waiting first.ahead (fun i hi => ?_) made) fresh
    rw [first.cb]
    split_ifs <;> exact periods i (.tail _ hi)

/-- What a tick does, when `now` ticks have passed before it. -/
structure Ticked (now : ℕ) (posted : List I) (s t : TimerService I) : Prop where
  messages : t.messages = s.messages ++ posted
  nodup : posted.Nodup
  due : ∀ i, i ∈ posted ↔ (i, now + 1) ∈ s.deadlines now
  cb : ∀ i, t.cb i = if i ∈ posted ∧ (s.cb i).type ≠ .osTimerPeriodic then
    { s.cb i with state := .osTimerStopped } else s.cb i
  deadlines : ∀ i u, (i, u) ∈ t.deadlines (now + 1) ↔ (i, u) ∈ s.deadlines now ∧ u ≠ now + 1 ∨
    i ∈ posted ∧ (s.cb i).type = .osTimerPeriodic ∧ u = now + 1 + (s.cb i).icnt.toNat
  inv : t.Inv

section Split

variable {zs : TimerList I}

/-- The list after the count of the first timer, split at the first one with time left. -/
structure Counted (s : TimerService I) (zs rest : TimerList I) : Prop where
  delayed : DeltaList.delay 1 (deltas (zs ++ rest)) = deltas s.osTimerHead
  zeros : ∀ e ∈ zs, e.2 = 0
  ahead : (deltas rest).Ahead

omit [DecidableEq I] in
theorem Counted.keys (counted : Counted s zs rest) :
    s.osTimerHead.map Prod.fst = zs.map Prod.fst ++ rest.map Prod.fst := by
  rw [← map_fst_deltas, ← counted.delayed, ← DeltaList.map_fst_deadlines 0,
    DeltaList.deadlines_delay, DeltaList.map_fst_deadlines, map_fst_deltas, List.map_append]

omit [DecidableEq I] in
/-- The timers that are due, and the others. -/
theorem Counted.mem_deadlines (counted : Counted s zs rest) :
    (i, u) ∈ s.deadlines now ↔ i ∈ zs.map Prod.fst ∧ u = now + 1 ∨
      (i, u) ∈ DeltaList.deadlines (now + 1) (deltas rest) := by
  have zeros : ∀ e ∈ deltas zs, e.2 = 0 := by
    intro e he
    obtain ⟨x, hx, rfl⟩ := List.mem_map.1 he
    simp [counted.zeros x hx]
  have split : deltas (zs ++ rest) = deltas zs ++ deltas rest := List.map_append
  rw [TimerService.deadlines, ← counted.delayed, DeltaList.deadlines_delay, split,
    DeltaList.deadlines_append_zeros zeros, List.mem_append]
  refine or_congr_left ?_
  simp only [deltas, List.map_map, List.mem_map, Function.comp_apply, Prod.mk.injEq]
  grind

theorem sysTimerTick_eq (inv : s.Inv) : ∃ zs rest, Counted s zs rest ∧
    sysTimerTick s = (zs.map Prod.fst).foldlM expireOne { s with osTimerHead := rest } := by
  cases head : s.osTimerHead with
  | nil =>
    refine ⟨[], [], ⟨by simp [head, DeltaList.delay], by simp, fun e he => by cases he⟩, ?_⟩
    simp only [sysTimerTick, head, List.map_nil, List.foldlM_nil]
    rw [← head]
    rfl
  | cons e next =>
    obtain ⟨p, tcnt⟩ := e
    obtain ⟨zs, rest, split, zeros, ahead⟩ := exists_due ((p, tcnt - 1) :: next)
    have pos : 0 < tcnt.toNat := inv.ahead (p, tcnt.toNat) (by simp [head])
    have one : (tcnt - 1).toNat + 1 = tcnt.toNat := by
      have le : (1 : UInt32) ≤ tcnt := UInt32.le_iff_toNat_le.2 pos
      rw [UInt32.toNat_sub_of_le _ _ le]
      exact Nat.sub_add_cancel pos
    have counted : Counted s zs rest := by
      refine ⟨?_, zeros, ahead⟩
      rw [← split, head]
      simp [DeltaList.delay, one]
    refine ⟨zs, rest, counted, ?_⟩
    simp only [sysTimerTick, head, split]
    refine expireLoop_append zeros (fun e he => ?_) (fun none => ?_) ahead (fun i hi => ?_) ?_
    · cases zs with
      | nil => cases he
      | cons x zs =>
        obtain rfl : x = e := by simpa using he
        rw [← (List.cons.inj split).1]
    · rw [none, List.nil_append] at split
      have stops := stops_head ahead
      rwa [← split] at stops ⊢
    · refine inv.period i ((inv.running i).1 ?_)
      rw [counted.keys]
      exact List.mem_append_left _ hi
    · have length := congrArg List.length split
      simp only [List.length_cons, List.length_append] at length
      omega

/-- The invariant after the expiry of the timers that are due. -/
theorem Counted.inv (counted : Counted s zs rest) (inv : s.Inv)
    (expired : Expired (zs.map Prod.fst) { s with osTimerHead := rest } t) : t.Inv := by
  have distinct := inv.distinct
  rw [counted.keys] at distinct
  have keys (i : I) : i ∈ t.osTimerHead.map Prod.fst ↔
      i ∈ zs.map Prod.fst ∧ (s.cb i).type = .osTimerPeriodic ∨ i ∈ rest.map Prod.fst := by
    rw [expired.keys.mem_iff, List.mem_append, List.mem_filter, decide_eq_true_iff]
  have running (i : I) := inv.running i
  simp only [counted.keys, List.mem_append] at running
  have cb := expired.cb
  have apart {i : I} (expired : i ∈ zs.map Prod.fst) (kept : i ∈ rest.map Prod.fst) : False :=
    List.disjoint_of_nodup_append distinct expired kept
  refine ⟨?_, fun i => ?_, expired.ahead, fun e he => ?_, fun i => ?_, expired.waiting⟩
  · refine expired.keys.nodup_iff.2 (distinct.sublist ?_)
    exact List.filter_sublist.append_right _
  · rw [keys, cb]
    have := running i
    split_ifs <;> grind
  · rcases (expired.deadlines 0 e.1 e.2).1 he with kept | ⟨-, -, back⟩
    · have old : (e.1, 1 + e.2) ∈ s.deadlines 0 := by
        refine counted.mem_deadlines.2 (.inr ?_)
        rw [zero_add, ← add_zero 1, DeltaList.deadlines_add]
        exact List.mem_map.2 ⟨e, kept, rfl⟩
      have fits := inv.fits _ old
      omega
    · rw [back, zero_add]
      exact (s.cb e.1).icnt.toNat_lt
  · rw [cb]
    split_ifs
    · nofun
    · exact inv.period i

theorem Counted.ticked (counted : Counted s zs rest) (inv : s.Inv)
    (expired : Expired (zs.map Prod.fst) { s with osTimerHead := rest } t) (now : ℕ) :
    Ticked now (zs.map Prod.fst) s t := by
  have distinct := inv.distinct
  rw [counted.keys] at distinct
  have later {i : I} {u : ℕ} (h : (i, u) ∈ DeltaList.deadlines (now + 1) (deltas rest)) :
      now + 1 < u := counted.ahead.lt_of_mem h
  refine ⟨expired.messages, distinct.of_append_left, fun i => ?_, expired.cb, fun i u => ?_,
    counted.inv inv expired⟩
  · rw [counted.mem_deadlines]
    grind
  · rw [expired.deadlines, counted.mem_deadlines]
    grind [TimerService.deadlines]

end Split

theorem ticked (inv : s.Inv) (made : sysTimerTick s = some t) (now : ℕ) :
    ∃ posted, Ticked now posted s t := by
  obtain ⟨zs, rest, counted, eq⟩ := sysTimerTick_eq inv
  have distinct := inv.distinct
  rw [counted.keys] at distinct
  rw [eq] at made
  refine ⟨_, counted.ticked inv (expired_of_foldlM distinct.of_append_left inv.waiting
    counted.ahead (fun i hi => ?_) made) now⟩
  refine inv.period i ((inv.running i).1 ?_)
  rw [counted.keys]
  exact List.mem_append_left _ hi

end Ams
