import Ams.Rtx.Locking

/-!
# Who is asleep

A task that waits for something else than a mutex sleeps until it is dispatched or woken by a tick, and
only the running task falls asleep.  The mutexes and the priorities have no part in it.
-/

namespace Ams

open Function Reactive

section Awake

variable {T M : Type*} {k : Scheduler T M}

/-- No ready task is asleep. -/
def Scheduler.Awake (k : Scheduler T M) : Prop := ∀ t ∈ k.rdy, k.state t ≠ .waiting

theorem Scheduler.Placed.awake {hole : Option T} (h : k.Placed hole) : k.Awake := fun t mem => by
  simp [((h.ready t).1 mem).1]

end Awake

section Sleep

variable {T M : Type*} [DecidableEq T] {k k' : Scheduler T M} {t u : T} {idle : T}

theorem rtSwitchReq_asleep :
    (rtSwitchReq t k).state u = .waiting ↔ u ≠ t ∧ k.state u = .waiting := by
  by_cases same : u = t <;> simp [rtSwitchReq, same]

theorem putReady_asleep : (putReady t k).state u = .waiting ↔ u ≠ t ∧ k.state u = .waiting := by
  by_cases same : u = t <;> simp [putReady, same]

theorem rtPutRdyFirst_asleep :
    (rtPutRdyFirst t k).state u = .waiting ↔ u ≠ t ∧ k.state u = .waiting := by
  by_cases same : u = t <;> simp [rtPutRdyFirst, same]

theorem Scheduler.Awake.putReady (h : k.Awake) (t : T) : (putReady t k).Awake := by
  intro u mem asleep
  obtain ⟨other, asleep⟩ := putReady_asleep.1 asleep
  rcases mem_putPrio.1 mem with same | mem
  · exact other same
  · exact h u mem asleep

theorem Scheduler.Awake.putRdyFirst (h : k.Awake) (t : T) : (rtPutRdyFirst t k).Awake := by
  intro u mem asleep
  obtain ⟨other, asleep⟩ := rtPutRdyFirst_asleep.1 asleep
  rcases List.mem_cons.1 mem with same | mem
  · exact other same
  · exact h u mem asleep

/-- The task that is chosen is a ready one. -/
theorem Scheduler.Awake.dispatchFirst (h : k.Awake) (made : rtDispatchFirst k = some k') :
    k'.state u = .waiting ↔ k.state u = .waiting := by
  obtain ⟨next, rdy, split, rfl⟩ := rtDispatchFirst_eq_some.1 made
  rw [rtSwitchReq_asleep, and_iff_right_iff_imp]
  rintro asleep rfl
  exact h u (split ▸ List.mem_cons_self) asleep

theorem Scheduler.dispatch_asleep (live : k.state k.run ≠ .waiting) :
    (rtDispatch t k).state u = .waiting ↔ u ≠ t ∧ k.state u = .waiting := by
  unfold rtDispatch
  split_ifs with higher
  · rw [rtSwitchReq_asleep, rtPutRdyFirst_asleep]
    refine and_congr_right fun _ => and_iff_right_of_imp ?_
    rintro asleep rfl
    exact live asleep
  · exact putReady_asleep

/-- The running task goes to the ready list, and one of the ready tasks runs. -/
theorem Scheduler.Awake.yield (h : k.Awake) (live : k.state k.run ≠ .waiting)
    (made : rtDispatchFirst (Ams.putReady k.run k) = some k') :
    k'.state u = .waiting ↔ k.state u = .waiting := by
  rw [(h.putReady k.run).dispatchFirst made, putReady_asleep, and_iff_right_iff_imp]
  rintro asleep rfl
  exact live asleep

theorem Scheduler.Inv.block_asleep (inv : k.Inv idle) (made : rtBlock .waiting k = some k') :
    k'.state u = .waiting ↔ u = k.run ∨ k.state u = .waiting := by
  have left : Scheduler.Awake { k with state := update k.state k.run .waiting } :=
    (inv.placed.leave inv.runs.live).awake
  rw [left.dispatchFirst made]
  by_cases same : u = k.run <;> simp [same]

theorem foldl_putReady_asleep {woken : List T} :
    (woken.foldl (fun k t => putReady t k) k).state u = .waiting ↔
      u ∉ woken ∧ k.state u = .waiting := by
  induction woken generalizing k with
  | nil => simp
  | cons t woken ih =>
    rw [List.foldl_cons, ih, putReady_asleep, List.mem_cons]
    tauto

theorem Scheduler.Awake.foldl_putReady (woken : List T) (h : k.Awake) :
    Scheduler.Awake (woken.foldl (fun k t => Ams.putReady t k) k) := by
  induction woken generalizing k with
  | nil => exact h
  | cons t woken ih => exact ih (h.putReady t)

theorem Scheduler.Inv.systick_asleep {robin : Bool} {woken : List T} (inv : k.Inv idle)
    (made : rtSystick robin woken k = some k') :
    k'.state u = .waiting ↔ u ∉ woken ∧ k.state u = .waiting := by
  obtain ⟨rdy, eq, perm, -⟩ := rtSystick_eq robin woken k
  rw [eq] at made
  have rested : Scheduler.Awake { k with rdy := rdy, state := update k.state k.run .ready } :=
    (inv.placed.rest (by simp) inv.runs.live perm).awake
  rw [(rested.foldl_putReady woken).dispatchFirst made, foldl_putReady_asleep]
  refine and_congr_right fun _ => ?_
  by_cases same : u = k.run
  · simp [same, inv.runs.live]
  · simp [same]

end Sleep

/-! ### Priorities and mutexes wake nobody -/

section Mutexes

variable {T M : Type*} [DecidableEq T] [DecidableEq M] {k k' : Scheduler T M} {t u : T} {idle : T}
  {m : M} {r : OsResult}

namespace Scheduler

theorem Inv.mutWait_asleep (inv : k.Inv idle) (made : rtMutWait m k = some (k', r)) :
    k'.state u = .waiting ↔ k.state u = .waiting := by
  obtain ⟨-, rfl, -⟩ | ⟨-, -, rfl, -⟩ | ⟨-, owner, -, -, blocked, -⟩ := rtMutWait_cases made
  · exact .rfl
  · exact .rfl
  · obtain ⟨rdy, lnk, raised, resorted⟩ := raise_cases inv.placed inv.ordered owner
    rw [raised] at blocked
    have placed := (resorted.placed inv.placed).chain (m := m) inv.runs.live
    rw [placed.awake.dispatchFirst blocked]
    by_cases same : u = k.run
    · simp [same, inv.runs.live]
    · simp [same]

theorem Inv.mutRelease_asleep {granted : Option T} (inv : k.Inv idle)
    (made : rtMutRelease m k = some (k', r, granted)) :
    k'.state u = .waiting ↔ k.state u = .waiting := by
  have live : k.state k.run ≠ .waiting := inv.runs.awake
  obtain ⟨-, rfl, -⟩ | ⟨-, -, rfl, -⟩ | ⟨-, -, ready, rdy, -, cases⟩ := rtMutRelease_cases made
  · exact .rfl
  · exact .rfl
  have awake : ((k.dec m).disown m).Awake := inv.placed.awake
  obtain ⟨-, -, result⟩ | ⟨first, rest, waiting, -, result⟩ := cases
  · rcases result with ⟨-, rfl⟩ | switched
    · exact .rfl
    · exact awake.yield live switched
  · have awake' : (((k.dec m).disown m).handOver m first rest).Awake := awake
    have live' : (((k.dec m).disown m).handOver m first rest).state k.run ≠ .waiting := live
    -- the task that gets the mutex has waited for it
    have other (asleep : k.state u = .waiting) : u ≠ first := by
      rintro rfl
      have chained := (inv.placed.chained u m).1 (waiting ▸ List.mem_cons_self)
      have waits := (inv.placed.waits u (by simp)).2 (by simp [chained])
      rw [asleep] at waits
      cases waits
    rcases result with ⟨-, rfl⟩ | switched
    · exact (dispatch_asleep live').trans (and_iff_right_of_imp other)
    · rw [((awake'.putReady _).putReady first).dispatchFirst switched, putReady_asleep,
        putReady_asleep]
      refine ⟨fun asleep => asleep.2.2, fun asleep => ⟨other asleep, ?_, asleep⟩⟩
      rintro rfl
      exact live asleep

theorem Inv.tskPrio_asleep {newPrio : ℕ} (inv : k.Inv idle)
    (made : rtTskPrio t newPrio k = some k') : k'.state u = .waiting ↔ k.state u = .waiting := by
  have live : k.state k.run ≠ .waiting := inv.runs.awake
  let base : Scheduler T M := { k with prioBase := update k.prioBase t newPrio }
  have placed : base.Placed none := { inv.placed with }
  by_cases same : t = k.run
  · simp only [rtTskPrio, if_pos same] at made
    split at made
    · cases made
    · split_ifs at made
      · have awake : Awake { base with prio := update k.prio t newPrio } := inv.placed.awake
        exact awake.yield live made
      · obtain rfl := Option.some.inj made
        exact .rfl
  · obtain ⟨rdy, lnk, resorted, ⟨-, first, rest, rfl, rfl⟩ | ⟨-, rfl⟩⟩ :=
      inv.tskPrio_cases same made
    · have awake : k.state first ≠ .waiting :=
        (resorted.placed placed).awake first List.mem_cons_self
      have live' : Scheduler.state { base with
        prio := update k.prio t newPrio, rdy := rest, lnk := lnk } k.run ≠ .waiting := live
      refine (dispatch_asleep live').trans (and_iff_right_of_imp ?_)
      rintro asleep rfl
      exact awake asleep
    · exact .rfl

end Scheduler

end Mutexes

end Ams
