import Ams.Rtx.Scheduling

/-!
# The owners of the mutexes

A mutex that is taken has an owner, which has it in its list (`Scheduler.Owned`).  Every service of the kernel keeps this together with the places and the order of
the tasks (`Scheduler.Inv`), and finds a task to run as long as the idle task is there.
-/

namespace Ams

open Function Reactive

section Invariant

variable {T M : Type*} {k k' : Scheduler T M} {idle : T}

structure Scheduler.Owned (k : Scheduler T M) : Prop where
  owned : ∀ t m, m ∈ k.mlnk t ↔ k.level m ≠ 0 ∧ k.owner m = some t
  taken : ∀ m, k.level m ≠ 0 → k.owner m ≠ none
  mlnkNodup : ∀ t, (k.mlnk t).Nodup

/-- Only other tasks than the owner wait for a mutex, and only if it is taken. -/
def Scheduler.Waited (k : Scheduler T M) : Prop :=
  ∀ t m, t ∈ k.lnk m → k.level m ≠ 0 ∧ k.owner m ≠ some t

structure Scheduler.Inv (idle : T) (k : Scheduler T M) : Prop where
  placed : k.Placed none
  ordered : k.Ordered
  runs : k.Runs
  owned : k.Owned
  waited : k.Waited
  /-- The idle task never waits. -/
  idle : idle = k.run ∨ idle ∈ k.rdy

/-- Tasks are moved and switched, but no mutex is taken, given back or waited for, and nobody falls
asleep. -/
structure Scheduler.Moves (k k' : Scheduler T M) : Prop where
  level : k'.level = k.level
  owner : k'.owner = k.owner
  mlnk : k'.mlnk = k.mlnk
  prio : k'.prio = k.prio
  prioBase : k'.prioBase = k.prioBase
  lnk : ∀ t m, t ∈ k'.lnk m ↔ t ∈ k.lnk m
  asleep : ∀ t, k'.state t = .waiting → k.state t = .waiting

theorem Scheduler.Moves.refl (k : Scheduler T M) : k.Moves k :=
  ⟨rfl, rfl, rfl, rfl, rfl, fun _ _ => .rfl, fun _ asleep => asleep⟩

theorem Scheduler.Moves.trans {k'' : Scheduler T M} (first : k.Moves k') (second : k'.Moves k'') :
    k.Moves k'' where
  level := second.level.trans first.level
  owner := second.owner.trans first.owner
  mlnk := second.mlnk.trans first.mlnk
  prio := second.prio.trans first.prio
  prioBase := second.prioBase.trans first.prioBase
  lnk t m := (second.lnk t m).trans (first.lnk t m)
  asleep t waits := first.asleep t (second.asleep t waits)

/-- A change of the ready list alone. -/
theorem Scheduler.Moves.ready (k : Scheduler T M) (rdy : List T) : k.Moves { k with rdy := rdy } :=
  ⟨rfl, rfl, rfl, rfl, rfl, fun _ _ => .rfl, fun _ asleep => asleep⟩

theorem Scheduler.Moves.owned (moves : k.Moves k') (h : k.Owned) : k'.Owned := by
  obtain ⟨level, owner, mlnk, -, -, -, -⟩ := moves
  refine ⟨?_, ?_, ?_⟩
  · rw [level, owner, mlnk]
    exact h.owned
  · rw [level, owner]
    exact h.taken
  · rw [mlnk]
    exact h.mlnkNodup

theorem Scheduler.Moves.waited (moves : k.Moves k') (h : k.Waited) : k'.Waited := by
  intro t m waits
  rw [moves.level, moves.owner]
  exact h t m ((moves.lnk t m).1 waits)

namespace Scheduler.Inv

/-- The ready list is not empty while another task than the idle one runs. -/
theorem idle_mem (inv : k.Inv idle) (busy : k.run ≠ idle) : idle ∈ k.rdy :=
  inv.idle.resolve_left fun same => busy same.symm

theorem run_not_mem_rdy (inv : k.Inv idle) : k.run ∉ k.rdy := fun mem => by
  have state := ((inv.placed.ready _).1 mem).1
  simp [inv.runs.live] at state

theorem run_not_mem_lnk (inv : k.Inv idle) (m : M) : k.run ∉ k.lnk m := fun mem => by
  have chained := (inv.placed.chained _ m).1 mem
  have unchained := inv.placed.rlnk_eq_none (t := k.run) (by simp [inv.runs.live])
  simp [chained] at unchained

theorem idle_not_mem_lnk (inv : k.Inv idle) (m : M) : idle ∉ k.lnk m := fun mem => by
  have chained := (inv.placed.chained _ m).1 mem
  have waits := (inv.placed.waits idle nofun).2 (by simp [chained])
  rcases inv.idle with same | ready
  · have live := inv.runs.live
    simp [← same, waits] at live
  · have state := ((inv.placed.ready _).1 ready).1
    simp [state] at waits

/-- The levels change, but no mutex is taken or given back. -/
theorem level (inv : k.Inv idle) {level : M → ℕ} (same : ∀ n, level n = 0 ↔ k.level n = 0) :
    Inv idle { k with level := level } := by
  refine ⟨{ inv.placed with }, { inv.ordered with }, { inv.runs with }, ⟨fun t n => ?_, fun n => ?_,
    inv.owned.mlnkNodup⟩, fun t n waits => ?_, inv.idle⟩
  · rw [inv.owned.owned, Ne, Ne, same]
  · rw [Ne, same]
    exact inv.owned.taken n
  · rw [Ne, same]
    exact inv.waited t n waits

end Scheduler.Inv

end Invariant

/-! ## Switching between the tasks -/

section Switching

variable {T M : Type*} [DecidableEq T] {k k' : Scheduler T M} {idle t u : T}

theorem rtSwitchReq_moves (t : T) (k : Scheduler T M) : k.Moves (rtSwitchReq t k) := by
  refine ⟨rfl, rfl, rfl, rfl, rfl, fun _ _ => .rfl, fun u asleep => ?_⟩
  by_cases same : u = t
  · simp [rtSwitchReq, same] at asleep
  · simpa [rtSwitchReq, same] using asleep

theorem putReady_moves (t : T) (k : Scheduler T M) : k.Moves (putReady t k) := by
  refine ⟨rfl, rfl, rfl, rfl, rfl, fun _ _ => .rfl, fun u asleep => ?_⟩
  by_cases same : u = t
  · simp [putReady, same] at asleep
  · simpa [putReady, same] using asleep

theorem rtPutRdyFirst_moves (t : T) (k : Scheduler T M) : k.Moves (rtPutRdyFirst t k) := by
  refine ⟨rfl, rfl, rfl, rfl, rfl, fun _ _ => .rfl, fun u asleep => ?_⟩
  by_cases same : u = t
  · simp [rtPutRdyFirst, same] at asleep
  · simpa [rtPutRdyFirst, same] using asleep

theorem rtDispatchFirst_moves (made : rtDispatchFirst k = some k') : k.Moves k' := by
  obtain ⟨next, rdy, -, rfl⟩ := rtDispatchFirst_eq_some.1 made
  exact (Scheduler.Moves.ready k rdy).trans (rtSwitchReq_moves next _)

theorem rtDispatchFirst_isSome (ready : t ∈ k.rdy) : (rtDispatchFirst k).isSome = true := by
  unfold rtDispatchFirst
  split
  case h_1 empty =>
    rw [empty] at ready
    cases ready
  case h_2 => rfl

theorem rtDispatch_moves (t : T) (k : Scheduler T M) : k.Moves (rtDispatch t k) := by
  unfold rtDispatch
  split_ifs
  · exact (rtPutRdyFirst_moves k.run k).trans (rtSwitchReq_moves t _)
  · exact putReady_moves t k

/-- After the running task has left its place. -/
theorem Scheduler.Inv.dispatchFirst (placed : k.Placed none) (ordered : k.Ordered)
    (left : k.state k.run ≠ .running) (owned : k.Owned) (waited : k.Waited) (ready : idle ∈ k.rdy)
    (made : rtDispatchFirst k = some k') : k'.Inv idle := by
  obtain ⟨placed', live⟩ := placed.dispatchFirst left made
  obtain ⟨ordered', top⟩ := ordered.dispatchFirst made
  refine ⟨placed', ordered', ⟨live, top⟩, (rtDispatchFirst_moves made).owned owned,
    (rtDispatchFirst_moves made).waited waited, ?_⟩
  obtain ⟨next, rdy, split, rfl⟩ := rtDispatchFirst_eq_some.1 made
  rw [split] at ready
  exact List.mem_cons.1 ready

/-- A task that is out of place is dispatched. -/
theorem Scheduler.Inv.dispatch (placed : k.Placed (some t)) (ordered : k.Ordered) (runs : k.Runs)
    (ne : t ≠ k.run) (owned : k.Owned) (waited : k.Waited) (ready : idle = k.run ∨ idle ∈ k.rdy ∨ idle = t) :
    (rtDispatch t k).Inv idle := by
  obtain ⟨placed', live⟩ := placed.dispatch ne runs.live
  obtain ⟨ordered', top⟩ := ordered.dispatch runs.top t
  refine ⟨placed', ordered', ⟨live, top⟩, (rtDispatch_moves t k).owned owned,
    (rtDispatch_moves t k).waited waited, ?_⟩
  unfold rtDispatch
  split_ifs
  · rcases ready with rfl | mem | rfl
    · exact .inr List.mem_cons_self
    · exact .inr (List.mem_cons_of_mem _ mem)
    · exact .inl rfl
  · rcases ready with same | mem | rfl
    · exact .inl same
    · exact .inr (mem_putPrio.2 (.inr mem))
    · exact .inr (mem_putPrio.2 (.inl rfl))

/-- The running task lets the first ready task run. -/
theorem Scheduler.Inv.yield (placed : k.Placed none) (ordered : k.Ordered) (live : k.state k.run = .running)
    (owned : k.Owned) (waited : k.Waited) (ready : idle = k.run ∨ idle ∈ k.rdy)
    (made : rtDispatchFirst (putReady k.run k) = some k') : k'.Inv idle ∧ k.Moves k' := by
  have placed' := placed.rest nofun live (putPrio_perm k.prio k.run k.rdy)
  have moves := putReady_moves k.run k
  exact ⟨.dispatchFirst placed' (ordered.putReady k.run) (by simp) (moves.owned owned)
    (moves.waited waited) (mem_putPrio.2 ready) made, moves.trans (rtDispatchFirst_moves made)⟩

/-! ### The running task waits -/

theorem Scheduler.Inv.block (inv : k.Inv idle) (busy : k.run ≠ idle)
    (made : rtBlock .waiting k = some k') : k'.Inv idle := by
  have switched : rtDispatchFirst { k with state := update k.state k.run .waiting } = some k' := made
  exact .dispatchFirst (inv.placed.leave inv.runs.live) ⟨inv.ordered.rdy, inv.ordered.lnk⟩ (by simp)
    { inv.owned with } inv.waited (inv.idle_mem busy) switched

theorem rtBlock_isSome (inv : k.Inv idle) (busy : k.run ≠ idle) (s : TaskState) :
    (rtBlock s k).isSome = true := rtDispatchFirst_isSome (inv.idle_mem busy)

/-! ### A tick -/

/-- The running task and the round robin. -/
theorem rtSystick_eq (robin : Bool) (woken : List T) (k : Scheduler T M) :
    ∃ rdy, rtSystick robin woken k = rtDispatchFirst
      (woken.foldl (fun k t => putReady t k)
        { k with rdy := rdy, state := update k.state k.run .ready }) ∧
      rdy.Perm (k.run :: k.rdy) ∧ (k.Ordered → (∀ t ∈ k.rdy, k.prio t ≤ k.prio k.run) →
        Descending k.prio rdy) := by
  cases robin with
  | false => exact ⟨k.run :: k.rdy, rfl, .refl _, fun ordered top => ordered.rdy.cons top⟩
  | true =>
    exact ⟨putPrio k.prio k.run k.rdy, rfl, putPrio_perm _ _ _, fun ordered _ => ordered.rdy.put _⟩

theorem Scheduler.Inv.systick {robin : Bool} {woken : List T} (inv : k.Inv idle)
    (distinct : woken.Nodup) (asleep : ∀ t ∈ woken, k.state t = .waiting)
    (made : rtSystick robin woken k = some k') : k'.Inv idle ∧ k.Moves k' := by
  obtain ⟨rested, eq, perm, sorted⟩ := rtSystick_eq robin woken k
  rw [eq] at made
  have placed := inv.placed.rest nofun inv.runs.live perm
  have ordered : Scheduler.Ordered
      { k with rdy := rested, state := update k.state k.run .ready } :=
    ⟨sorted inv.ordered inv.runs.top, inv.ordered.lnk⟩
  have sleeps (t : T) (mem : t ∈ woken) : update k.state k.run .ready t = .waiting := by
    rw [update_of_ne (inv.runs.ne_of_asleep (asleep t mem))]
    exact asleep t mem
  obtain ⟨rdy, state, folded, placed', ordered', left, kept, asleep'⟩ :=
    placed.wake distinct ordered sleeps (by simp)
  rw [folded] at made
  have ready : idle ∈ rdy := kept idle (perm.mem_iff.2 (List.mem_cons.2 inv.idle))
  have moves : k.Moves { k with rdy := rdy, state := state } := by
    refine ⟨rfl, rfl, rfl, rfl, rfl, fun _ _ => .rfl, fun t waits => ?_⟩
    have before := asleep' t waits
    by_cases same : t = k.run
    · simp [same] at before
    · simpa [same] using before
  exact ⟨.dispatchFirst placed' ordered' left { inv.owned with } inv.waited ready made,
    moves.trans (rtDispatchFirst_moves made)⟩

end Switching

/-! ## Priorities and mutexes -/

theorem Resorted.moves {T M : Type*} {k : Scheduler T M} {prio : T → ℕ} {rdy : List T}
    {lnk : M → List T} (h : Resorted k prio rdy lnk) :
    Scheduler.Moves { k with prio := prio } { k with prio := prio, rdy := rdy, lnk := lnk } :=
  ⟨rfl, rfl, rfl, rfl, rfl, fun _ m => (h.lnk_perm m).mem_iff, fun _ asleep => asleep⟩

section Levels

variable {T M : Type*} [DecidableEq M] {k : Scheduler T M} {idle : T} {m : M}

theorem Scheduler.Inv.inc (inv : k.Inv idle) (taken : k.level m ≠ 0) : (k.inc m).Inv idle := by
  refine inv.level fun n => ?_
  by_cases eq : n = m
  · simp [eq, taken]
  · simp [eq]

theorem Scheduler.Inv.dec (inv : k.Inv idle) (nested : 1 < k.level m) : (k.dec m).Inv idle := by
  refine inv.level fun n => ?_
  by_cases eq : n = m
  · subst eq
    rw [update_self]
    omega
  · simp [eq]

end Levels

section Mutexes

variable {T M : Type*} [DecidableEq T] [DecidableEq M] {k k' : Scheduler T M} {idle t u : T} {m : M}
  {r : OsResult}

namespace Scheduler

/-- The running task gets another priority; it is in no list. -/
theorem Inv.tskPrio_run {newPrio : ℕ} (inv : k.Inv idle)
    (made : rtTskPrio k.run newPrio k = some k') : k'.Inv idle ∧ Moves { k with
      prio := update k.prio k.run newPrio
      prioBase := update k.prioBase k.run newPrio } k' := by
  have ordered : Ordered { k with
      prio := update k.prio k.run newPrio
      prioBase := update k.prioBase k.run newPrio } := by
    refine ⟨inv.ordered.rdy.congr fun u hu => update_of_ne ?_ _ _,
      fun m => (inv.ordered.lnk m).congr fun u hu => update_of_ne ?_ _ _⟩
    · rintro rfl
      exact inv.run_not_mem_rdy hu
    · rintro rfl
      exact inv.run_not_mem_lnk m hu
  simp only [rtTskPrio, if_pos] at made
  split at made
  · cases made
  case h_2 first rest split =>
    split_ifs at made with lower
    · exact Inv.yield { inv.placed with } ordered inv.runs.live { inv.owned with } inv.waited inv.idle
        made
    · obtain rfl := Option.some.inj made
      have sorted := ordered.rdy
      refine ⟨⟨{ inv.placed with }, ordered, ⟨inv.runs.live, fun u hu => ?_⟩, { inv.owned with },
        inv.waited, inv.idle⟩, .refl _⟩
      dsimp only at hu sorted ⊢
      rw [split] at hu sorted
      rw [update_self]
      rcases List.mem_cons.1 hu with rfl | hu
      · exact Nat.le_of_not_lt lower
      · exact Nat.le_trans (sorted.head u hu) (Nat.le_of_not_lt lower)

/-- Another task than the running one is sorted anew, and the first of the ready tasks is dispatched if
it is ready. -/
theorem Inv.tskPrio_cases {newPrio : ℕ} (inv : k.Inv idle) (other : t ≠ k.run)
    (made : rtTskPrio t newPrio k = some k') : ∃ rdy lnk,
      Resorted { k with prioBase := update k.prioBase t newPrio } (update k.prio t newPrio) rdy lnk ∧
      let s : Scheduler T M := { k with
        prio := update k.prio t newPrio
        prioBase := update k.prioBase t newPrio
        rdy := rdy
        lnk := lnk }
      (k.state t = .ready ∧
          (∃ first rest, rdy = first :: rest ∧ k' = rtDispatch first { s with rdy := rest }) ∨
        k.state t ≠ .ready ∧ k' = s) := by
  let base : Scheduler T M := { k with prioBase := update k.prioBase t newPrio }
  have placed : base.Placed none := { inv.placed with }
  have ordered : base.Ordered := { inv.ordered with }
  obtain ⟨rdy, lnk, eq, resorted⟩ := rtResortPrio_cases placed ordered t newPrio
  have eq' : rtResortPrio t { k with
      prio := update k.prio t newPrio
      prioBase := update k.prioBase t newPrio } =
    { k with
      prio := update k.prio t newPrio
      prioBase := update k.prioBase t newPrio
      rdy := rdy
      lnk := lnk } := eq
  refine ⟨rdy, lnk, resorted, ?_⟩
  simp only [rtTskPrio, if_neg other, eq'] at made
  split_ifs at made with ready
  · cases rdy with
    | nil => cases made
    | cons first rest => exact .inl ⟨ready, first, rest, rfl, (Option.some.inj made).symm⟩
  · exact .inr ⟨ready, (Option.some.inj made).symm⟩

/-- Another task gets another priority; it is dispatched if it comes first in the ready list then. -/
theorem Inv.tskPrio_other {newPrio : ℕ} (inv : k.Inv idle) (other : t ≠ k.run)
    (made : rtTskPrio t newPrio k = some k') : k'.Inv idle ∧ Moves { k with
      prio := update k.prio t newPrio
      prioBase := update k.prioBase t newPrio } k' := by
  obtain ⟨rdy, lnk, resorted, cases⟩ := inv.tskPrio_cases other made
  have placed : Placed none { k with prioBase := update k.prioBase t newPrio } :=
    { inv.placed with }
  have moves := resorted.moves
  have owned := moves.owned { inv.owned with }
  have waited := moves.waited inv.waited
  have idle' : idle = k.run ∨ idle ∈ rdy := inv.idle.imp_right resorted.rdy_perm.mem_iff.2
  -- all ready tasks but `t` come after the running one
  have bound (u : T) (hu : u ∈ rdy) (ne : u ≠ t) :
      update k.prio t newPrio u ≤ update k.prio t newPrio k.run := by
    rw [update_of_ne ne, update_of_ne other.symm]
    exact inv.runs.top u (resorted.rdy_perm.mem_iff.1 hu)
  obtain ⟨-, first, rest, rfl, rfl⟩ | ⟨ready, rfl⟩ := cases
  · have sorted := resorted.rdy_sorted
    have distinct := resorted.rdy_perm.nodup_iff.2 inv.placed.rdyNodup
    have ne : first ≠ k.run := by
      rintro rfl
      exact inv.run_not_mem_rdy (resorted.rdy_perm.mem_iff.1 List.mem_cons_self)
    have top (u : T) (hu : u ∈ rest) :
        update k.prio t newPrio u ≤ update k.prio t newPrio k.run := by
      by_cases same : u = t
      · have ne' : first ≠ t := by
          rintro rfl
          exact (List.nodup_cons.1 distinct).1 (same ▸ hu)
        exact Nat.le_trans (sorted.head u hu) (bound first List.mem_cons_self ne')
      · exact bound u (List.mem_cons_of_mem first hu) same
    have idle'' : idle = k.run ∨ idle ∈ rest ∨ idle = first := by
      rw [List.mem_cons] at idle'
      exact idle'.imp_right Or.symm
    exact ⟨.dispatch ((resorted.placed placed).take rfl) ⟨sorted.tail, resorted.lnk_sorted⟩
      ⟨inv.runs.live, top⟩ ne { owned with } waited idle'',
      (moves.trans (.ready _ rest)).trans (rtDispatch_moves first _)⟩
  · refine ⟨⟨resorted.placed placed, resorted.ordered, ⟨inv.runs.live, fun u hu => bound u hu ?_⟩,
      owned, waited, idle'⟩, moves⟩
    rintro rfl
    exact ready ((inv.placed.ready u).1 (resorted.rdy_perm.mem_iff.1 hu)).1

theorem Inv.tskPrio {newPrio : ℕ} (inv : k.Inv idle) (made : rtTskPrio t newPrio k = some k') :
    k'.Inv idle ∧ Moves { k with
      prio := update k.prio t newPrio
      prioBase := update k.prioBase t newPrio } k' := by
  by_cases same : t = k.run
  · subst same
    exact inv.tskPrio_run made
  · exact inv.tskPrio_other same made

/-! ### Taking a mutex -/

/-- A task takes a mutex that nobody has. -/
theorem Inv.own (inv : k.Inv idle) (free : k.level m = 0) : ((k.own m).inc m).Inv idle := by
  have unowned (t : T) : m ∉ k.mlnk t := fun mem => ((inv.owned.owned t m).1 mem).1 free
  have nobody (t : T) : t ∉ k.lnk m := fun mem => (inv.waited t m mem).1 free
  refine ⟨{ inv.placed with }, { inv.ordered with }, { inv.runs with }, ⟨fun t n => ?_, fun n => ?_,
    fun t => ?_⟩, fun t n waits => ?_, inv.idle⟩
  · by_cases eq : n = m
    · subst eq
      by_cases same : t = k.run
      · simp [Scheduler.own, Scheduler.inc, same]
      · have ne : k.run ≠ t := Ne.symm same
        simp [Scheduler.own, Scheduler.inc, same, ne, unowned t]
    · by_cases same : t = k.run
      · simpa [Scheduler.own, Scheduler.inc, same, eq] using inv.owned.owned k.run n
      · simpa [Scheduler.own, Scheduler.inc, same, eq] using inv.owned.owned t n
  · by_cases eq : n = m
    · simp [Scheduler.own, Scheduler.inc, eq]
    · simpa [Scheduler.own, Scheduler.inc, eq] using inv.owned.taken n
  · by_cases same : t = k.run
    · simpa [Scheduler.own, Scheduler.inc, same] using ⟨unowned k.run, inv.owned.mlnkNodup k.run⟩
    · simpa [Scheduler.own, Scheduler.inc, same] using inv.owned.mlnkNodup t
  · have ne : n ≠ m := by
      rintro rfl
      exact nobody t waits
    simpa [Scheduler.own, Scheduler.inc, ne] using inv.waited t n waits

/-- The running task waits for a mutex that another one has. -/
theorem Inv.chain (inv : k.Inv idle) (busy : k.run ≠ idle) (taken : k.level m ≠ 0)
    (owner : k.owner m = some t) (other : t ≠ k.run)
    (made : rtBlock .waitMut ((k.raise t).chain m) = some k') :
    k'.Inv idle ∧ Moves { k with
      prio := update k.prio t (max (k.prio t) (k.prio k.run))
      lnk := update k.lnk m (k.run :: k.lnk m)
      state := update k.state k.run .waitMut } k' := by
  obtain ⟨rdy, lnk, eq, resorted⟩ := raise_cases inv.placed inv.ordered t
  rw [eq] at made
  have placed := (resorted.placed inv.placed).chain (m := m) inv.runs.live
  have ordered := resorted.ordered.chain m
  have moves := resorted.moves
  have owned := moves.owned { inv.owned with }
  have ready : idle ∈ rdy := resorted.rdy_perm.mem_iff.2 (inv.idle_mem busy)
  have mem_lnk (u : T) (n : M) :
      u ∈ update lnk m (putPrio (update k.prio t (max (k.prio t) (k.prio k.run))) k.run (lnk m)) n ↔
        u ∈ update k.lnk m (k.run :: k.lnk m) n := by
    by_cases eq : n = m
    · subst eq
      simp [(resorted.lnk_perm n).mem_iff]
    · simp [eq, (resorted.lnk_perm n).mem_iff]
  have waited (u : T) (n : M) (waits : u ∈ update k.lnk m (k.run :: k.lnk m) n) :
      k.level n ≠ 0 ∧ k.owner n ≠ some u := by
    by_cases eq : n = m
    · subst eq
      rw [update_self, List.mem_cons] at waits
      rcases waits with rfl | waits
      · exact ⟨taken, by simpa [owner] using other⟩
      · exact inv.waited u n waits
    · rw [update_of_ne eq] at waits
      exact inv.waited u n waits
  refine ⟨.dispatchFirst placed { ordered with } (by simp [Scheduler.chain]) { owned with }
    (fun u n waits => waited u n ((mem_lnk u n).1 waits)) ready made, ?_⟩
  refine Moves.trans ?_ (rtDispatchFirst_moves made)
  exact ⟨rfl, rfl, rfl, rfl, rfl, mem_lnk, fun _ asleep => asleep⟩

/-! ### Giving a mutex back -/

/-- The state in which the mutex is nobody's. -/
structure Released (m : M) (k s : Scheduler T M) : Prop where
  placed : s.Placed none
  ordered : s.Ordered
  owned : s.Owned
  free : s.level m = 0

theorem Inv.disown (inv : k.Inv idle) (last : k.level m = 1) (owner : k.owner m = some k.run) :
    Released m k ((k.dec m).disown m) := by
  refine ⟨{ inv.placed with }, ⟨inv.ordered.rdy.congr fun u hu => update_of_ne ?_ _ _,
    fun n => (inv.ordered.lnk n).congr fun u hu => update_of_ne ?_ _ _⟩, ⟨fun t n => ?_, fun n => ?_,
    fun t => ?_⟩, ?_⟩
  · rintro rfl
    exact inv.run_not_mem_rdy hu
  · rintro rfl
    exact inv.run_not_mem_lnk n hu
  · have before := inv.owned.owned t n
    have distinct := inv.owned.mlnkNodup k.run
    by_cases eq : n = m
    · subst eq
      by_cases same : t = k.run
      · simp [Scheduler.disown, Scheduler.dec, same, last, distinct.not_mem_erase]
      · have ne : k.run ≠ t := Ne.symm same
        rw [owner] at before
        simpa [Scheduler.disown, Scheduler.dec, same, last, ne] using before
    · by_cases same : t = k.run
      · subst same
        simpa [Scheduler.disown, Scheduler.dec, eq, distinct.mem_erase_iff] using before
      · simpa [Scheduler.disown, Scheduler.dec, eq, same] using before
  · intro taken
    by_cases eq : n = m
    · simp [Scheduler.disown, Scheduler.dec, eq, last] at taken
    · exact inv.owned.taken n (by simpa [Scheduler.disown, Scheduler.dec, eq] using taken)
  · by_cases same : t = k.run
    · simpa [Scheduler.disown, Scheduler.dec, same] using (inv.owned.mlnkNodup k.run).erase m
    · simpa [Scheduler.disown, Scheduler.dec, same] using inv.owned.mlnkNodup t
  · simp [Scheduler.disown, Scheduler.dec, last]

/-- The mutexes but that one are waited for as before. -/
theorem Inv.disown_waited (inv : k.Inv idle) {n : M} (waits : u ∈ ((k.dec m).disown m).lnk n)
    (other : n ≠ m) :
    ((k.dec m).disown m).level n ≠ 0 ∧ ((k.dec m).disown m).owner n ≠ some u := by
  simpa [Scheduler.disown, Scheduler.dec, other] using inv.waited u n waits

/-- The first task that waits becomes the owner. -/
theorem Released.handOver {s : Scheduler T M} {first : T} {rest : List T} (released : Released m k s)
    (waiting : s.lnk m = first :: rest)
    (waited : ∀ u n, u ∈ s.lnk n → n ≠ m → s.level n ≠ 0 ∧ s.owner n ≠ some u) :
    (s.handOver m first rest).Owned ∧ (s.handOver m first rest).Waited := by
  have unowned (t : T) : m ∉ s.mlnk t := fun mem => ((released.owned.owned t m).1 mem).1 released.free
  have distinct := released.placed.lnkNodup m
  rw [waiting] at distinct
  obtain ⟨fresh, -⟩ := List.nodup_cons.1 distinct
  refine ⟨⟨fun t n => ?_, fun n => ?_, fun t => ?_⟩, fun t n waits => ?_⟩
  · by_cases eq : n = m
    · subst eq
      by_cases same : t = first
      · simp [Scheduler.handOver, same]
      · have ne : first ≠ t := Ne.symm same
        simp [Scheduler.handOver, same, ne, unowned t]
    · by_cases same : t = first
      · simpa [Scheduler.handOver, same, eq] using released.owned.owned first n
      · simpa [Scheduler.handOver, same, eq] using released.owned.owned t n
  · by_cases eq : n = m
    · simp [Scheduler.handOver, eq]
    · simpa [Scheduler.handOver, eq] using released.owned.taken n
  · by_cases same : t = first
    · simpa [Scheduler.handOver, same] using ⟨unowned first, released.owned.mlnkNodup first⟩
    · simpa [Scheduler.handOver, same] using released.owned.mlnkNodup t
  · by_cases eq : n = m
    · subst eq
      have behind : t ∈ rest := by simpa [Scheduler.handOver] using waits
      have ne : first ≠ t := by
        rintro rfl
        exact fresh behind
      simp [Scheduler.handOver, ne]
    · simpa [Scheduler.handOver, eq] using
        waited t n (by simpa [Scheduler.handOver, eq] using waits) eq

/-- What the release of a mutex does, and which task gets it. -/
inductive Releases (m : M) (k : Scheduler T M) : Scheduler T M → Option T → Prop where
  | refused : k.level m = 0 ∨ k.owner m ≠ some k.run → Releases m k k none
  | nested : 1 < k.level m → k.owner m = some k.run → Releases m k (k.dec m) none
  | free {k' : Scheduler T M} : k.level m = 1 → k.owner m = some k.run → k.lnk m = [] →
      Moves ((k.dec m).disown m) k' → Releases m k k' none
  | handed {k' : Scheduler T M} {first : T} {rest : List T} : k.level m = 1 →
      k.owner m = some k.run → k.lnk m = first :: rest →
      Moves (((k.dec m).disown m).handOver m first rest) k' → Releases m k k' (some first)

/-- What the request of a mutex does. -/
inductive Takes (m : M) (k : Scheduler T M) : Scheduler T M → OsResult → Prop where
  | free : k.level m = 0 → Takes m k ((k.own m).inc m) .ok
  | nested : k.level m ≠ 0 → k.owner m = some k.run → Takes m k (k.inc m) .ok
  | waits {k' : Scheduler T M} {t : T} : k.level m ≠ 0 → k.owner m = some t → t ≠ k.run →
      Moves { k with
        prio := update k.prio t (max (k.prio t) (k.prio k.run))
        lnk := update k.lnk m (k.run :: k.lnk m)
        state := update k.state k.run .waitMut } k' → Takes m k k' .tmo

/-- What `rt_mut_wait` can do. -/
theorem rtMutWait_cases (made : rtMutWait m k = some (k', r)) :
    (k.level m = 0 ∧ k' = (k.own m).inc m ∧ r = .ok) ∨
    (k.level m ≠ 0 ∧ k.owner m = some k.run ∧ k' = k.inc m ∧ r = .ok) ∨
    (k.level m ≠ 0 ∧ ∃ owner, k.owner m = some owner ∧ owner ≠ k.run ∧
      rtBlock .waitMut ((k.raise owner).chain m) = some k' ∧ r = .tmo) := by
  unfold rtMutWait at made
  split_ifs at made with free nested
  · obtain ⟨rfl, rfl⟩ := Prod.mk.inj (Option.some.inj made)
    exact .inl ⟨free, rfl, rfl⟩
  · obtain ⟨rfl, rfl⟩ := Prod.mk.inj (Option.some.inj made)
    exact .inr (.inl ⟨free, nested, rfl, rfl⟩)
  · split at made
    · cases made
    case h_2 owner owned =>
      obtain ⟨_, blocked, eq⟩ := Option.map_eq_some_iff.1 made
      obtain ⟨rfl, rfl⟩ := Prod.mk.inj eq
      have other : owner ≠ k.run := by
        rintro rfl
        exact nested owned
      exact .inr (.inr ⟨free, owner, owned, other, blocked, rfl⟩)

theorem Inv.mutWait (inv : k.Inv idle) (busy : k.run ≠ idle) (made : rtMutWait m k = some (k', r)) :
    k'.Inv idle ∧ k.Takes m k' r := by
  obtain ⟨free, rfl, rfl⟩ | ⟨taken, owner, rfl, rfl⟩ |
    ⟨taken, owner, owned, other, blocked, rfl⟩ := rtMutWait_cases made
  · exact ⟨inv.own free, .free free⟩
  · exact ⟨inv.inc taken, .nested taken owner⟩
  · obtain ⟨inv', moves⟩ := inv.chain busy taken owned other blocked
    exact ⟨inv', .waits taken owned other moves⟩

/-- The switch after the mutex is handed over. -/
theorem Inv.handed {first ready : T} {rest rdy : List T} (inv : k.Inv idle)
    (last : k.level m = 1) (owner : k.owner m = some k.run) (waiting : k.lnk m = first :: rest)
    (split : k.rdy = ready :: rdy) :
    let s := ((k.dec m).disown m).handOver m first rest
    (s.prio ready ≤ s.prio s.run → (rtDispatch first s).Inv idle) ∧
      ∀ k', rtDispatchFirst (putReady first (putReady s.run s)) = some k' →
        k'.Inv idle ∧ s.Moves k' := by
  intro s
  have released := inv.disown last owner
  have placed : s.Placed (some first) := released.placed.handOver waiting
  have ordered : s.Ordered := released.ordered.handOver waiting
  obtain ⟨owned, waited⟩ := released.handOver waiting fun u n waits other =>
    inv.disown_waited waits other
  have ne : first ≠ s.run := fun same => by
    have mem : first ∈ k.lnk m := waiting ▸ List.mem_cons_self
    rw [same] at mem
    exact inv.run_not_mem_lnk m mem
  have live : s.state s.run = .running := inv.runs.live
  refine ⟨fun le => ?_, fun k' made => ?_⟩
  · exact .dispatch placed ordered ⟨live, ordered.top split le⟩ ne owned waited
      (inv.idle.imp_right .inl)
  · have out : some first ≠ some s.run := by simpa using ne
    have placed' := (placed.rest out live (putPrio_perm s.prio s.run s.rdy)).putReady
    have left : (putReady first (putReady s.run s)).state s.run ≠ .running := by
      have ne' : s.run ≠ first := ne.symm
      simp [putReady, ne']
    have moves := (putReady_moves s.run s).trans (putReady_moves first _)
    have ready : idle ∈ (putReady first (putReady s.run s)).rdy :=
      mem_putPrio.2 (.inr (mem_putPrio.2 inv.idle))
    exact ⟨.dispatchFirst placed' ((ordered.putReady s.run).putReady first) left (moves.owned owned)
      (moves.waited waited) ready made, moves.trans (rtDispatchFirst_moves made)⟩

/-- The switch after a mutex is given back that nobody waits for. -/
theorem Inv.freed {ready : T} {rdy : List T} (inv : k.Inv idle) (last : k.level m = 1)
    (owner : k.owner m = some k.run) (nobody : k.lnk m = []) (split : k.rdy = ready :: rdy) :
    let s := (k.dec m).disown m
    (s.prio ready ≤ s.prio s.run → s.Inv idle) ∧
      ∀ k', rtDispatchFirst (putReady s.run s) = some k' → k'.Inv idle ∧ s.Moves k' := by
  intro s
  have released := inv.disown last owner
  have live : s.state s.run = .running := inv.runs.live
  have waited : s.Waited := by
    intro u n waits
    by_cases eq : n = m
    · have nobody' : s.lnk m = [] := nobody
      rw [eq, nobody'] at waits
      cases waits
    · exact inv.disown_waited waits eq
  refine ⟨fun le => ?_, fun k' made => ?_⟩
  · exact ⟨released.placed, released.ordered, ⟨live, released.ordered.top split le⟩, released.owned,
      waited, inv.idle⟩
  · exact Inv.yield released.placed released.ordered live released.owned waited inv.idle made

/-- The others wait as before, and the first no more. -/
theorem Placed.mem_of_handOver {n : M} {first : T} {rest : List T} (placed : k.Placed none)
    (waiting : k.lnk m = first :: rest)
    (waits : u ∈ (((k.dec m).disown m).handOver m first rest).lnk n) : u ∈ k.lnk n ∧ u ≠ first := by
  by_cases eq : n = m
  · subst eq
    have behind : u ∈ rest := by simpa [Scheduler.handOver] using waits
    have distinct := placed.lnkNodup n
    rw [waiting] at distinct
    refine ⟨waiting ▸ List.mem_cons_of_mem _ behind, ?_⟩
    rintro rfl
    exact (List.nodup_cons.1 distinct).1 behind
  · have mem : u ∈ k.lnk n := by
      simpa [Scheduler.handOver, disown, dec, eq] using waits
    refine ⟨mem, ?_⟩
    rintro rfl
    have chained := (placed.chained u m).1 (waiting ▸ List.mem_cons_self)
    rw [(placed.chained u n).1 mem] at chained
    exact eq (Option.some.inj chained)

/-- What `rt_mut_release` can do, with a switch at the end or without one. -/
theorem rtMutRelease_cases {granted : Option T} (made : rtMutRelease m k = some (k', r, granted)) :
    ((k.level m = 0 ∨ k.owner m ≠ some k.run) ∧ k' = k ∧ granted = none) ∨
    (1 < k.level m ∧ k.owner m = some k.run ∧ k' = k.dec m ∧ granted = none) ∨
    (k.level m = 1 ∧ k.owner m = some k.run ∧ ∃ ready rdy, k.rdy = ready :: rdy ∧
      let s := (k.dec m).disown m
      (k.lnk m = [] ∧ granted = none ∧
        (s.prio ready ≤ s.prio s.run ∧ k' = s ∨
          rtDispatchFirst (putReady s.run s) = some k')) ∨
      ∃ first rest, k.lnk m = first :: rest ∧ granted = some first ∧
        let s := s.handOver m first rest
        (s.prio ready ≤ s.prio s.run ∧ k' = rtDispatch first s ∨
          rtDispatchFirst (putReady first (putReady s.run s)) = some k')) := by
  unfold rtMutRelease at made
  by_cases refused : k.level m = 0 ∨ k.owner m ≠ some k.run
  · rw [if_pos refused] at made
    obtain ⟨rfl, -, rfl⟩ := by simpa using made
    exact .inl ⟨refused, rfl, rfl⟩
  rw [if_neg refused] at made
  obtain ⟨taken, owner⟩ : k.level m ≠ 0 ∧ k.owner m = some k.run := by simpa using refused
  have level : (k.dec m).level m = k.level m - 1 := update_self ..
  dsimp only at made
  rw [level] at made
  by_cases nested : k.level m - 1 ≠ 0
  · rw [if_pos nested] at made
    obtain ⟨rfl, -, rfl⟩ := by simpa using made
    exact .inr (.inl ⟨by omega, owner, rfl, rfl⟩)
  rw [if_neg nested] at made
  refine .inr (.inr ⟨by omega, owner, ?_⟩)
  cases split : k.rdy with
  | nil =>
    have split' : ((k.dec m).disown m).rdy = [] := split
    rw [split'] at made
    cases made
  | cons ready rdy =>
    have split' : ((k.dec m).disown m).rdy = ready :: rdy := split
    refine ⟨ready, rdy, rfl, ?_⟩
    rw [split'] at made
    cases waiting : k.lnk m with
    | nil =>
      have waiting' : ((k.dec m).disown m).lnk m = [] := waiting
      rw [waiting'] at made
      dsimp only at made
      split_ifs at made with lower
      · obtain ⟨_, switched, eq⟩ := Option.map_eq_some_iff.1 made
        obtain ⟨rfl, -, rfl⟩ := by simpa using eq
        exact .inl ⟨rfl, rfl, .inr switched⟩
      · obtain ⟨rfl, -, rfl⟩ := by simpa using made
        exact .inl ⟨rfl, rfl, .inl ⟨Nat.le_of_not_lt lower, rfl⟩⟩
    | cons first rest =>
      have waiting' : ((k.dec m).disown m).lnk m = first :: rest := waiting
      rw [waiting'] at made
      dsimp only at made
      split_ifs at made with higher
      · obtain ⟨rfl, -, rfl⟩ := by simpa using made
        exact .inr ⟨first, rest, rfl, rfl, .inl ⟨higher, rfl⟩⟩
      · obtain ⟨_, switched, eq⟩ := Option.map_eq_some_iff.1 made
        obtain ⟨rfl, -, rfl⟩ := by simpa using eq
        exact .inr ⟨first, rest, rfl, rfl, .inr switched⟩

theorem Inv.mutRelease {granted : Option T} (inv : k.Inv idle)
    (made : rtMutRelease m k = some (k', r, granted)) : k'.Inv idle ∧ k.Releases m k' granted := by
  obtain ⟨refused, rfl, rfl⟩ | ⟨deeper, owner, rfl, rfl⟩ | ⟨last, owner, ready, rdy, split, cases⟩ :=
    rtMutRelease_cases made
  · exact ⟨inv, .refused refused⟩
  · exact ⟨inv.dec deeper, .nested deeper owner⟩
  obtain ⟨nobody, rfl, result⟩ | ⟨first, rest, waiting, rfl, result⟩ := cases
  · obtain ⟨stays, switches⟩ := inv.freed last owner nobody split
    rcases result with ⟨le, rfl⟩ | switched
    · exact ⟨stays le, .free last owner nobody (.refl _)⟩
    · obtain ⟨inv', moves⟩ := switches _ switched
      exact ⟨inv', .free last owner nobody moves⟩
  · obtain ⟨stays, switches⟩ := inv.handed last owner waiting split
    rcases result with ⟨le, rfl⟩ | switched
    · exact ⟨stays le, .handed last owner waiting (rtDispatch_moves first _)⟩
    · obtain ⟨inv', moves⟩ := switches _ switched
      exact ⟨inv', .handed last owner waiting moves⟩

/-! ### There is always a task to run -/

theorem Inv.mutWait_isSome (inv : k.Inv idle) (busy : k.run ≠ idle) (m : M) :
    (rtMutWait m k).isSome = true := by
  unfold rtMutWait
  split_ifs with free
  · rfl
  · rfl
  · cases owner : k.owner m with
    | none => exact absurd owner (inv.owned.taken m free)
    | some t =>
      obtain ⟨rdy, lnk, eq, resorted⟩ := raise_cases inv.placed inv.ordered t
      dsimp only
      rw [Option.isSome_map, eq]
      exact rtDispatchFirst_isSome (t := idle)
        (resorted.rdy_perm.mem_iff.2 (inv.idle_mem busy))

theorem Inv.mutRelease_isSome (inv : k.Inv idle) (busy : k.run ≠ idle) (m : M) :
    (rtMutRelease m k).isSome = true := by
  obtain ⟨ready, rdy, split⟩ := List.exists_cons_of_ne_nil (List.ne_nil_of_mem (inv.idle_mem busy))
  have split' : ((k.dec m).disown m).rdy = ready :: rdy := split
  have switches (t : T) (s : Scheduler T M) : (rtDispatchFirst (putReady t s)).isSome = true :=
    rtDispatchFirst_isSome (t := t) (mem_putPrio.2 (.inl rfl))
  unfold rtMutRelease
  split_ifs
  · rfl
  · dsimp only
    split_ifs
    · rfl
    · rw [split']
      cases ((k.dec m).disown m).lnk m with
      | nil =>
        dsimp only
        split_ifs
        · rw [Option.isSome_map]
          exact switches _ _
        · rfl
      | cons first rest =>
        dsimp only
        split_ifs
        · rfl
        · rw [Option.isSome_map]
          exact switches _ _

end Scheduler

end Mutexes

end Ams
