import Ams.Rtx.Mutex
import Mathlib.Tactic.ByCases

/-!
# The places and the order of the tasks

A task is in at most one list, and its state tells which one; a task that is being moved between two
lists is out of place (`Scheduler.Placed`).  The lists are queues by priority (`Scheduler.Ordered`), and
the running task comes before the ready ones.
-/

namespace Ams

open Function Reactive

section Places

variable {T M : Type*} {k : Scheduler T M} {hole : Option T} {t : T}

/-- Every task but `hole` is in the list that its state tells. -/
structure Scheduler.Placed (hole : Option T) (k : Scheduler T M) : Prop where
  running : ∀ t, k.state t = .running → hole ≠ some t → t = k.run
  ready : ∀ t, t ∈ k.rdy ↔ k.state t = .ready ∧ hole ≠ some t
  chained : ∀ t m, t ∈ k.lnk m ↔ k.rlnk t = some m
  waits : ∀ t, hole ≠ some t → (k.state t = .waitMut ↔ k.rlnk t ≠ none)
  free : ∀ t, hole = some t → k.rlnk t = none
  rdyNodup : k.rdy.Nodup
  lnkNodup : ∀ m, (k.lnk m).Nodup

structure Scheduler.Ordered (k : Scheduler T M) : Prop where
  rdy : Descending k.prio k.rdy
  lnk : ∀ m, Descending k.prio (k.lnk m)

/-- The running task comes before the ready ones. -/
structure Scheduler.Runs (k : Scheduler T M) : Prop where
  live : k.state k.run = .running
  top : ∀ t ∈ k.rdy, k.prio t ≤ k.prio k.run

/-- A task that runs is not asleep. -/
theorem Scheduler.Runs.awake (h : k.Runs) : k.state k.run ≠ .waiting := by
  rw [h.live]
  exact nofun

theorem Scheduler.Runs.ne_of_asleep (h : k.Runs) (asleep : k.state t = .waiting) : t ≠ k.run := by
  rintro rfl
  exact h.awake asleep

theorem Scheduler.Placed.rlnk_eq_none (h : k.Placed none) (ne : k.state t ≠ .waitMut) :
    k.rlnk t = none := by
  by_contra some
  exact ne ((h.waits t nofun).2 some)

/-- A task that is not ready and waits for no mutex may be moved. -/
theorem Scheduler.Placed.out (h : k.Placed none) (unready : k.state t ≠ .ready)
    (unchained : k.state t ≠ .waitMut) : k.Placed (some t) where
  running u running _ := h.running u running nofun
  ready u := by
    rw [h.ready u]
    refine and_congr_right fun ready => iff_of_true nofun ?_
    rintro ⟨rfl⟩
    exact unready ready
  chained := h.chained
  waits u _ := h.waits u nofun
  free u out := by
    obtain rfl := Option.some.inj out
    exact h.rlnk_eq_none unchained
  rdyNodup := h.rdyNodup
  lnkNodup := h.lnkNodup

/-- The running task goes on if no ready task comes before it now. -/
theorem Scheduler.Ordered.top {ready : T} {rest : List T} (ordered : k.Ordered) (first : k.rdy = ready :: rest)
    (le : k.prio ready ≤ k.prio k.run) : ∀ u ∈ k.rdy, k.prio u ≤ k.prio k.run := by
  intro u hu
  have sorted := ordered.rdy
  rw [first] at sorted hu
  rcases List.mem_cons.1 hu with rfl | hu
  · exact le
  · exact Nat.le_trans (sorted.head u hu) le

/-- What a change of the priority of a task does to the lists. -/
structure Resorted (k : Scheduler T M) (prio : T → ℕ) (rdy : List T) (lnk : M → List T) : Prop where
  rdy_perm : rdy.Perm k.rdy
  lnk_perm : ∀ m, (lnk m).Perm (k.lnk m)
  rdy_sorted : Descending prio rdy
  lnk_sorted : ∀ m, Descending prio (lnk m)

namespace Resorted

variable {prio : T → ℕ} {rdy : List T} {lnk : M → List T}

theorem placed (h : Resorted k prio rdy lnk) (placed : k.Placed none) :
    Scheduler.Placed none { k with prio := prio, rdy := rdy, lnk := lnk } where
  running := placed.running
  ready u := h.rdy_perm.mem_iff.trans (placed.ready u)
  chained u m := (h.lnk_perm m).mem_iff.trans (placed.chained u m)
  waits := placed.waits
  free := placed.free
  rdyNodup := h.rdy_perm.nodup_iff.2 placed.rdyNodup
  lnkNodup m := (h.lnk_perm m).nodup_iff.2 (placed.lnkNodup m)

theorem ordered (h : Resorted k prio rdy lnk) :
    Scheduler.Ordered { k with prio := prio, rdy := rdy, lnk := lnk } := ⟨h.rdy_sorted, h.lnk_sorted⟩

end Resorted

end Places

/-! ## The ready list -/

section Ready

variable {T M : Type*} [DecidableEq T] {k k' : Scheduler T M} {t : T} {rdy : List T}

theorem rtDispatchFirst_eq_some : rtDispatchFirst k = some k' ↔
    ∃ next rdy, k.rdy = next :: rdy ∧ k' = rtSwitchReq next { k with rdy := rdy } := by
  unfold rtDispatchFirst
  cases k.rdy with
  | nil => simp
  | cons next rdy => simp [eq_comm]

namespace Scheduler.Placed

theorem putReady (h : k.Placed (some t)) : (putReady t k).Placed none where
  running u running _ := by
    by_cases same : u = t
    · simp [Ams.putReady, same] at running
    · refine h.running u ?_ (by simpa [eq_comm] using same)
      simpa [Ams.putReady, same] using running
  ready u := by
    by_cases same : u = t
    · simp [Ams.putReady, same]
    · have ne : t ≠ u := Ne.symm same
      simp [Ams.putReady, same, h.ready, ne]
  chained := h.chained
  waits u _ := by
    by_cases same : u = t
    · simp [Ams.putReady, same, h.free t rfl]
    · have ne : t ≠ u := Ne.symm same
      simpa [Ams.putReady, same] using h.waits u (by simpa using ne)
  free u := nofun
  rdyNodup := nodup_putPrio h.rdyNodup fun mem => ((h.ready t).1 mem).2 rfl
  lnkNodup := h.lnkNodup

/-- The first ready task begins to run when no other runs. -/
theorem dispatchFirst (h : k.Placed none) (left : k.state k.run ≠ .running)
    (made : rtDispatchFirst k = some k') : k'.Placed none ∧ k'.state k'.run = .running := by
  obtain ⟨next, rdy, split, rfl⟩ := rtDispatchFirst_eq_some.1 made
  have distinct := h.rdyNodup
  rw [split] at distinct
  obtain ⟨fresh, nodup⟩ := List.nodup_cons.1 distinct
  have nextReady : k.state next = .ready := ((h.ready next).1 (split ▸ List.mem_cons_self)).1
  refine ⟨?_, by simp [rtSwitchReq]⟩
  refine ⟨fun u running _ => ?_, fun u => ?_, h.chained, fun u _ => ?_, nofun, nodup, h.lnkNodup⟩
  · by_contra ne
    have other : u ≠ next := ne
    have running' : k.state u = .running := by simpa [rtSwitchReq, other] using running
    exact left (h.running u running' nofun ▸ running')
  · have before := h.ready u
    rw [split] at before
    by_cases same : u = next
    · simp [rtSwitchReq, same, fresh]
    · simpa [rtSwitchReq, same] using before
  · by_cases same : u = next
    · simp [rtSwitchReq, same, h.rlnk_eq_none (t := next) (by simp [nextReady])]
    · simpa [rtSwitchReq, same] using h.waits u nofun

/-- A task that is out of place is dispatched. -/
theorem dispatch (h : k.Placed (some t)) (ne : t ≠ k.run) (live : k.state k.run = .running) :
    (rtDispatch t k).Placed none ∧ (rtDispatch t k).state (rtDispatch t k).run = .running := by
  unfold rtDispatch
  split_ifs with preempts
  · have unready : k.run ∉ k.rdy := fun mem => by simp [((h.ready _).1 mem).1] at live
    have ne' : k.run ≠ t := ne.symm
    refine ⟨?_, by simp [rtSwitchReq]⟩
    refine ⟨fun u running _ => ?_, fun u => ?_, h.chained, fun u _ => ?_, nofun,
      h.rdyNodup.cons unready, h.lnkNodup⟩
    · by_contra other
      have other : u ≠ t := other
      by_cases same : u = k.run
      · simp [rtSwitchReq, rtPutRdyFirst, same, ne'] at running
      · refine same (h.running u ?_ (by simpa using other.symm))
        simpa [rtSwitchReq, rtPutRdyFirst, other, same] using running
    · by_cases out : u = t
      · have absent : t ∉ k.rdy := fun mem => ((h.ready t).1 mem).2 rfl
        simp [rtSwitchReq, rtPutRdyFirst, out, ne, absent]
      · have out' : t ≠ u := Ne.symm out
        by_cases same : u = k.run
        · simp [rtSwitchReq, rtPutRdyFirst, same, ne']
        · simp [rtSwitchReq, rtPutRdyFirst, out, out', same, h.ready]
    · by_cases out : u = t
      · simp [rtSwitchReq, rtPutRdyFirst, out, h.free t rfl]
      · have before := h.waits u (by simpa using Ne.symm out)
        by_cases same : u = k.run
        · rw [same, live] at before
          simpa [rtSwitchReq, rtPutRdyFirst, same, ne'] using before
        · simpa [rtSwitchReq, rtPutRdyFirst, out, same] using before
  · refine ⟨h.putReady, ?_⟩
    have ne' : k.run ≠ t := ne.symm
    simpa [Ams.putReady, ne'] using live

end Scheduler.Placed

/-! ### The order -/

namespace Scheduler.Ordered

theorem putReady (h : k.Ordered) (t : T) : (putReady t k).Ordered := ⟨h.rdy.put t, h.lnk⟩

theorem dispatchFirst (h : k.Ordered) (made : rtDispatchFirst k = some k') :
    k'.Ordered ∧ ∀ u ∈ k'.rdy, k'.prio u ≤ k'.prio k'.run := by
  obtain ⟨next, rdy, split, rfl⟩ := rtDispatchFirst_eq_some.1 made
  have sorted := h.rdy
  rw [split] at sorted
  exact ⟨⟨sorted.tail, h.lnk⟩, sorted.head⟩

theorem dispatch (h : k.Ordered) (top : ∀ u ∈ k.rdy, k.prio u ≤ k.prio k.run) (t : T) :
    (rtDispatch t k).Ordered ∧
      ∀ u ∈ (rtDispatch t k).rdy, (rtDispatch t k).prio u ≤ (rtDispatch t k).prio (rtDispatch t k).run := by
  unfold rtDispatch
  split_ifs with preempts
  · refine ⟨⟨h.rdy.cons top, h.lnk⟩, fun u hu => ?_⟩
    rcases List.mem_cons.1 hu with rfl | hu
    · exact Nat.le_of_lt preempts
    · exact Nat.le_trans (top u hu) (Nat.le_of_lt preempts)
  · refine ⟨h.putReady t, fun u hu => ?_⟩
    rcases mem_putPrio.1 hu with rfl | hu
    · exact Nat.le_of_not_lt preempts
    · exact top u hu

end Scheduler.Ordered

/-- The first ready task is taken out. -/
theorem Scheduler.Placed.take {rest : List T} (h : k.Placed none) (first : k.rdy = t :: rest) :
    Placed (some t) { k with rdy := rest } := by
  have distinct := h.rdyNodup
  rw [first] at distinct
  obtain ⟨fresh, nodup⟩ := List.nodup_cons.1 distinct
  have state : k.state t = .ready := ((h.ready t).1 (first ▸ List.mem_cons_self)).1
  refine ⟨fun u running _ => h.running u running nofun, fun u => ?_, h.chained,
    fun u _ => h.waits u nofun, fun u out => ?_, nodup, h.lnkNodup⟩
  · have before := h.ready u
    rw [first] at before
    by_cases same : u = t
    · simp [same, fresh]
    · have ne : t ≠ u := Ne.symm same
      simpa [same, ne] using before
  · obtain rfl := Option.some.inj out
    exact h.rlnk_eq_none (by simp [state])

/-- The running task waits for something else than a mutex. -/
theorem Scheduler.Placed.leave (h : k.Placed none) (live : k.state k.run = .running) :
    Placed none { k with state := update k.state k.run .waiting } := by
  have unready : k.run ∉ k.rdy := fun mem => by simp [((h.ready _).1 mem).1] at live
  refine ⟨fun u running _ => ?_, fun u => ?_, h.chained, fun u _ => ?_, nofun, h.rdyNodup,
    h.lnkNodup⟩
  · by_cases same : u = k.run
    · exact same
    · exact h.running u (by simpa [same] using running) nofun
  · by_cases same : u = k.run
    · subst same
      simp [unready]
    · simpa [same] using h.ready u
  · by_cases same : u = k.run
    · have before := h.waits k.run nofun
      rw [live] at before
      simpa [same] using before
    · simpa [same] using h.waits u nofun

/-- The running task is put into the ready list. -/
theorem Scheduler.Placed.rest {hole : Option T} (h : k.Placed hole) (ne : hole ≠ some k.run)
    (live : k.state k.run = .running) {rdy : List T} (perm : rdy.Perm (k.run :: k.rdy)) :
    Placed hole { k with rdy := rdy, state := update k.state k.run .ready } := by
  have unready : k.run ∉ k.rdy := fun mem => by simp [((h.ready _).1 mem).1] at live
  refine ⟨fun u running out => ?_, fun u => ?_, h.chained, fun u out => ?_, h.free,
    perm.nodup_iff.2 (h.rdyNodup.cons unready), h.lnkNodup⟩
  · by_cases same : u = k.run
    · exact same
    · exact h.running u (by simpa [same] using running) out
  · rw [perm.mem_iff]
    by_cases same : u = k.run
    · simpa [same] using ne
    · simpa [same] using h.ready u
  · by_cases same : u = k.run
    · have before := h.waits k.run ne
      rw [live] at before
      simpa [same] using before
    · simpa [same] using h.waits u out

/-- Tasks are woken one by one. -/
theorem Scheduler.Placed.wake {woken : List T} (distinct : woken.Nodup) (h : k.Placed none)
    (ordered : k.Ordered) (asleep : ∀ t ∈ woken, k.state t = .waiting)
    (left : k.state k.run ≠ .running) :
    ∃ rdy state, woken.foldl (fun k t => Ams.putReady t k) k = { k with rdy := rdy, state := state } ∧
      Placed none { k with rdy := rdy, state := state } ∧
      Ordered { k with rdy := rdy, state := state } ∧ state k.run ≠ .running ∧
      (∀ t ∈ k.rdy, t ∈ rdy) ∧ ∀ t, state t = .waiting → k.state t = .waiting := by
  induction woken generalizing k with
  | nil => exact ⟨k.rdy, k.state, rfl, h, ordered, left, fun _ mem => mem, fun _ asleep => asleep⟩
  | cons t woken ih =>
    obtain ⟨fresh, distinct⟩ := List.nodup_cons.1 distinct
    have sleeps := asleep t List.mem_cons_self
    have awake : (Ams.putReady t k).Placed none := (h.out (by simp [sleeps]) (by simp [sleeps])).putReady
    have others (u : T) (mem : u ∈ woken) : (Ams.putReady t k).state u = .waiting := by
      have ne : u ≠ t := fun same => fresh (same ▸ mem)
      simpa [Ams.putReady, ne] using asleep u (List.mem_cons_of_mem t mem)
    have left' : (Ams.putReady t k).state (Ams.putReady t k).run ≠ .running := by
      by_cases same : k.run = t
      · simp [Ams.putReady, same]
      · simpa [Ams.putReady, same] using left
    obtain ⟨rdy, state, made, placed, ordered, left, kept, asleep'⟩ :=
      ih distinct awake (ordered.putReady t) others left'
    refine ⟨rdy, state, made, placed, ordered, left, fun u mem => ?_, fun u waits => ?_⟩
    · exact kept u (mem_putPrio.2 (.inr mem))
    · have before := asleep' u waits
      by_cases same : u = t
      · simp [Ams.putReady, same] at before
      · simpa [Ams.putReady, same] using before

end Ready

/-! ## The lists of the mutexes -/

section Mutexes

variable {T M : Type*} [DecidableEq T] [DecidableEq M] {k k' : Scheduler T M} {t : T} {m : M}

theorem rtResortPrio_cases (placed : k.Placed none) (ordered : k.Ordered) (t : T) (p : ℕ) :
    ∃ rdy lnk, rtResortPrio t { k with prio := update k.prio t p } =
      { k with prio := update k.prio t p, rdy := rdy, lnk := lnk } ∧
      Resorted k (update k.prio t p) rdy lnk := by
  have same (u : T) (ne : u ≠ t) : update k.prio t p u = k.prio u := update_of_ne ne _ _
  -- a list without the task is left alone
  have kept {l : List T} (sorted : Descending k.prio l) (absent : t ∉ l) :
      Descending (update k.prio t p) l :=
    sorted.congr fun u hu => same u fun eq => absent (eq ▸ hu)
  unfold rtResortPrio
  dsimp only
  cases chained : k.rlnk t with
  | none =>
    have absent (m : M) : t ∉ k.lnk m := fun mem => by simp [(placed.chained t m).1 mem] at chained
    by_cases ready : k.state t = .ready
    · have mem : t ∈ k.rdy := (placed.ready t).2 ⟨ready, nofun⟩
      refine ⟨_, _, if_pos ready, ?_, fun m => .refl _, ?_, fun m => kept (ordered.lnk m) (absent m)⟩
      · exact (putPrio_perm _ t _).trans (List.perm_cons_erase mem).symm
      · exact ordered.rdy.resort placed.rdyNodup same
    · have unready : t ∉ k.rdy := fun mem => ready ((placed.ready t).1 mem).1
      exact ⟨_, _, if_neg ready, .refl _, fun m => .refl _, kept ordered.rdy unready,
        fun m => kept (ordered.lnk m) (absent m)⟩
  | some m =>
    have mem : t ∈ k.lnk m := (placed.chained t m).2 chained
    have unready : t ∉ k.rdy := fun ready => by
      have state := ((placed.ready t).1 ready).1
      have waits := (placed.waits t nofun).2 (by simp [chained])
      simp [state] at waits
    have absent (n : M) (ne : n ≠ m) : t ∉ k.lnk n := fun other => by
      have same := (placed.chained t n).1 other
      rw [chained] at same
      exact ne (Option.some.inj same).symm
    refine ⟨_, _, rfl, .refl _, fun n => ?_, kept ordered.rdy unready, fun n => ?_⟩
    · by_cases eq : n = m
      · subst eq
        rw [update_self]
        exact (putPrio_perm _ t _).trans (List.perm_cons_erase mem).symm
      · rw [update_of_ne eq]
    · by_cases eq : n = m
      · subst eq
        rw [update_self]
        exact (ordered.lnk n).resort (placed.lnkNodup n) same
      · rw [update_of_ne eq]
        exact kept (ordered.lnk n) (absent n eq)

namespace Scheduler

/-- The owner gets the priority of the running task, if that is higher. -/
theorem raise_cases (placed : k.Placed none) (ordered : k.Ordered) (owner : T) :
    ∃ rdy lnk, k.raise owner =
      { k with
        prio := update k.prio owner (max (k.prio owner) (k.prio k.run))
        rdy := rdy
        lnk := lnk } ∧
      Resorted k (update k.prio owner (max (k.prio owner) (k.prio k.run))) rdy lnk := by
  unfold raise
  split_ifs with lower
  · rw [Nat.max_eq_right (Nat.le_of_lt lower)]
    exact rtResortPrio_cases placed ordered owner _
  · rw [Nat.max_eq_left (Nat.le_of_not_lt lower), update_eq_self]
    exact ⟨k.rdy, k.lnk, rfl, .refl _, fun m => .refl _, ordered.rdy, ordered.lnk⟩

/-- The running task waits for the mutex. -/
theorem Placed.chain (h : k.Placed none) (live : k.state k.run = .running) :
    Placed none { k.chain m with state := update k.state k.run .waitMut } := by
  have unready : k.state k.run ≠ .ready := by simp [live]
  have unchained : k.rlnk k.run = none := h.rlnk_eq_none (by simp [live])
  have absent (n : M) : k.run ∉ k.lnk n := fun mem => by
    simp [(h.chained _ n).1 mem] at unchained
  refine ⟨fun u running _ => ?_, fun u => ?_, fun u n => ?_, fun u _ => ?_, nofun, h.rdyNodup,
    fun n => ?_⟩
  · by_cases same : u = k.run
    · exact same
    · exact h.running u (by simpa [same] using running) nofun
  · by_cases same : u = k.run
    · have absent : k.run ∉ k.rdy := fun mem => unready ((h.ready _).1 mem).1
      simp [Scheduler.chain, same, absent]
    · simpa [Scheduler.chain, same] using h.ready u
  · by_cases same : u = k.run
    · subst same
      by_cases eq : n = m
      · simp [Scheduler.chain, eq]
      · have ne : m ≠ n := Ne.symm eq
        simp [Scheduler.chain, eq, ne, absent]
    · by_cases eq : n = m
      · subst eq
        simpa [Scheduler.chain, same] using h.chained u n
      · simpa [Scheduler.chain, same, eq] using h.chained u n
  · by_cases same : u = k.run
    · simp [Scheduler.chain, same]
    · simpa [Scheduler.chain, same] using h.waits u nofun
  · by_cases eq : n = m
    · subst eq
      simpa [Scheduler.chain] using nodup_putPrio (h.lnkNodup n) (absent n)
    · simpa [Scheduler.chain, eq] using h.lnkNodup n

theorem Ordered.chain (h : k.Ordered) (m : M) : (k.chain m).Ordered := by
  refine ⟨h.rdy, fun n => ?_⟩
  by_cases eq : n = m
  · subst eq
    simpa [Scheduler.chain] using (h.lnk n).put k.run
  · simpa [Scheduler.chain, eq] using h.lnk n

/-- The first task that waits leaves the list. -/
theorem Placed.handOver {rest : List T} (h : k.Placed none) (first : k.lnk m = t :: rest) :
    (k.handOver m t rest).Placed (some t) := by
  have chained : k.rlnk t = some m := (h.chained t m).1 (first ▸ List.mem_cons_self)
  have waits : k.state t = .waitMut := (h.waits t nofun).2 (by simp [chained])
  have distinct := h.lnkNodup m
  rw [first] at distinct
  obtain ⟨fresh, nodup⟩ := List.nodup_cons.1 distinct
  refine ⟨fun u running _ => h.running u running nofun, fun u => ?_, fun u n => ?_, fun u other => ?_,
    fun u out => ?_, h.rdyNodup, fun n => ?_⟩
  · refine (h.ready u).trans (and_congr_right fun ready => iff_of_true nofun ?_)
    rintro ⟨rfl⟩
    simp [waits] at ready
  · by_cases same : u = t
    · subst same
      by_cases eq : n = m
      · simp [Scheduler.handOver, eq, fresh]
      · have absent : u ∉ k.lnk n := fun mem => by
          have same := (h.chained u n).1 mem
          rw [chained] at same
          exact eq (Option.some.inj same).symm
        simp [Scheduler.handOver, eq, absent]
    · by_cases eq : n = m
      · subst eq
        have before := h.chained u n
        rw [first] at before
        simpa [Scheduler.handOver, same] using before
      · simpa [Scheduler.handOver, same, eq] using h.chained u n
  · have ne : u ≠ t := by simpa [eq_comm] using other
    simpa [Scheduler.handOver, ne] using h.waits u nofun
  · obtain rfl := Option.some.inj out
    simp [Scheduler.handOver]
  · by_cases eq : n = m
    · simpa [Scheduler.handOver, eq] using nodup
    · simpa [Scheduler.handOver, eq] using h.lnkNodup n

theorem Ordered.handOver {rest : List T} (h : k.Ordered) (first : k.lnk m = t :: rest) :
    (k.handOver m t rest).Ordered := by
  refine ⟨h.rdy, fun n => ?_⟩
  by_cases eq : n = m
  · have sorted := h.lnk m
    rw [first] at sorted
    simpa [Scheduler.handOver, eq] using sorted.tail
  · simpa [Scheduler.handOver, eq] using h.lnk n

end Scheduler

end Mutexes

end Ams
