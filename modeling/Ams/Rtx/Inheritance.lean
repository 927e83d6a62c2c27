import Ams.Rtx.Multitasking

/-!
# Priority inheritance

The owner of a mutex has at least the priority that its waiting tasks have of their own, and a task is
above its own priority only for one of the tasks that wait for its mutexes (`Scheduler.Inherits`).  As
the kernel runs a task of the highest priority, no task of a lower one than a waiting task runs while the
owner could (`multitasking_inherits`), unless priorities are set while mutexes are in use.
-/

namespace Ams

open Function Reactive

section Inherits

variable {T M : Type*} {k k' : Scheduler T M} {idle t u : T} {m : M}

/-- Nobody is below its own priority. -/
def Scheduler.Based (k : Scheduler T M) : Prop := ∀ t, k.prioBase t ≤ k.prio t

structure Scheduler.Inherits (k : Scheduler T M) : Prop where
  raised : ∀ t u m, t ∈ k.lnk m → k.owner m = some u → k.prioBase t ≤ k.prio u
  restored : ∀ t, k.prio t = k.prioBase t ∨ ∃ m ∈ k.mlnk t, ∃ u ∈ k.lnk m, k.prio t ≤ k.prio u

/-- A task that is in use of a mutex. -/
def Scheduler.Engaged (t : T) (k : Scheduler T M) : Prop := k.mlnk t ≠ [] ∨ ∃ m, t ∈ k.lnk m

theorem Scheduler.Moves.based (moves : k.Moves k') (h : k.Based) : k'.Based := by
  intro t
  rw [moves.prio, moves.prioBase]
  exact h t

theorem Scheduler.Moves.inherits (moves : k.Moves k') (h : k.Inherits) : k'.Inherits := by
  obtain ⟨-, owner, mlnk, prio, prioBase, lnk, -⟩ := moves
  refine ⟨fun t u m waits owns => ?_, fun t => ?_⟩
  · rw [prio, prioBase]
    exact h.raised t u m ((lnk t m).1 waits) (owner ▸ owns)
  · rw [prio, prioBase, mlnk]
    refine (h.restored t).imp_right ?_
    rintro ⟨m, owned, u, waits, le⟩
    exact ⟨m, owned, u, (lnk u m).2 waits, le⟩

/-- The first of a list has the highest priority. -/
theorem Scheduler.Ordered.le_first {rest : List T} (h : k.Ordered) (first : k.lnk m = t :: rest)
    (waits : u ∈ k.lnk m) : k.prio u ≤ k.prio t := by
  have sorted := h.lnk m
  rw [first] at sorted waits
  rcases List.mem_cons.1 waits with rfl | waits
  · exact Nat.le_refl _
  · exact sorted.head u waits

/-! ## The restored priority -/

theorem Scheduler.le_highest (k : Scheduler T M) (prio : ℕ) (m : M) : prio ≤ k.highest prio m := by
  unfold highest
  split
  · exact Nat.le_refl _
  · split_ifs with lower
    · exact Nat.le_of_lt lower
    · exact Nat.le_refl _

theorem Scheduler.first_le_highest {rest : List T} (first : k.lnk m = t :: rest) (prio : ℕ) :
    k.prio t ≤ k.highest prio m := by
  unfold highest
  rw [first]
  dsimp only
  split_ifs with lower
  · exact Nat.le_refl _
  · exact Nat.le_of_not_lt lower

theorem Scheduler.highest_cases (k : Scheduler T M) (prio : ℕ) (m : M) :
    k.highest prio m = prio ∨ ∃ u ∈ k.lnk m, k.highest prio m = k.prio u := by
  unfold highest
  split
  case h_1 => exact .inl rfl
  case h_2 first rest split =>
    split_ifs
    · exact .inr ⟨first, split ▸ List.mem_cons_self, rfl⟩
    · exact .inl rfl

/-- What the loop makes of a priority, over the mutexes `ms`. -/
theorem Scheduler.foldl_highest (k : Scheduler T M) (ms : List M) (prio : ℕ) :
    prio ≤ ms.foldl k.highest prio ∧
    (∀ m ∈ ms, ∀ first rest, k.lnk m = first :: rest → k.prio first ≤ ms.foldl k.highest prio) ∧
    (ms.foldl k.highest prio = prio ∨
      ∃ m ∈ ms, ∃ u ∈ k.lnk m, ms.foldl k.highest prio = k.prio u) := by
  induction ms generalizing prio with
  | nil => exact ⟨Nat.le_refl _, nofun, .inl rfl⟩
  | cons m ms ih =>
    obtain ⟨above, firsts, cases⟩ := ih (k.highest prio m)
    rw [List.foldl_cons]
    refine ⟨Nat.le_trans (k.le_highest prio m) above, fun n mem first rest waits => ?_, ?_⟩
    · rcases List.mem_cons.1 mem with rfl | mem
      · exact Nat.le_trans (first_le_highest waits prio) above
      · exact firsts n mem first rest waits
    · rcases cases with same | ⟨n, mem, u, waits, eq⟩
      · rw [same]
        refine (k.highest_cases prio m).imp_right ?_
        rintro ⟨u, waits, eq⟩
        exact ⟨m, List.mem_cons_self, u, waits, eq⟩
      · exact .inr ⟨n, List.mem_cons_of_mem m mem, u, waits, eq⟩

end Inherits

/-! ## The services -/

section Services

variable {T M : Type*} [DecidableEq T] [DecidableEq M] {k k' : Scheduler T M} {idle t : T} {m : M}
  {r : OsResult}

/-- A request changes the priority of the owner alone, and does not lower it. -/
theorem Scheduler.Takes.prio (takes : k.Takes m k' r) : k'.prioBase = k.prioBase ∧
    ∀ t, k.prio t ≤ k'.prio t ∧ (k.owner m ≠ some t ∨ k.level m = 0 → k'.prio t = k.prio t) := by
  cases takes with
  | free free => exact ⟨rfl, fun t => ⟨Nat.le_refl _, fun _ => rfl⟩⟩
  | nested taken owner => exact ⟨rfl, fun t => ⟨Nat.le_refl _, fun _ => rfl⟩⟩
  | @waits _ o taken owner other moves =>
    refine ⟨moves.prioBase, fun t => ?_⟩
    rw [moves.prio, owner]
    by_cases same : t = o
    · simp [same, taken]
    · simp [same]

/-- A release changes the priority of the running task alone. -/
theorem Scheduler.Releases.prio {granted : Option T} (releases : k.Releases m k' granted) :
    k'.prioBase = k.prioBase ∧ (∀ t, t ≠ k.run → k'.prio t = k.prio t) ∧
      (k'.prio k.run = k.prio k.run ∨ k.prioBase k.run ≤ k'.prio k.run) := by
  have restored : k.prioBase k.run ≤ ((k.dec m).disown m).prio k.run := by
    unfold Scheduler.disown
    dsimp only
    rw [show (k.dec m).run = k.run from rfl, update_self]
    exact (foldl_highest _ _ _).1
  have others (t : T) (ne : t ≠ k.run) : ((k.dec m).disown m).prio t = k.prio t :=
    update_of_ne ne _ _
  cases releases with
  | refused refused => exact ⟨rfl, fun _ _ => rfl, .inl rfl⟩
  | nested nested owner => exact ⟨rfl, fun _ _ => rfl, .inl rfl⟩
  | free last owner nobody moves =>
    refine ⟨moves.prioBase, fun t ne => ?_, .inr ?_⟩ <;> rw [moves.prio]
    · exact others t ne
    · exact restored
  | handed last owner waiting moves =>
    refine ⟨moves.prioBase, fun t ne => ?_, .inr ?_⟩ <;> rw [moves.prio]
    · exact others t ne
    · exact restored

theorem Scheduler.Takes.based (takes : k.Takes m k' r) (h : k.Based) : k'.Based := by
  obtain ⟨prioBase, prio⟩ := takes.prio
  intro t
  rw [prioBase]
  exact Nat.le_trans (h t) (prio t).1

theorem Scheduler.Releases.based {granted : Option T} (releases : k.Releases m k' granted)
    (h : k.Based) : k'.Based := by
  obtain ⟨prioBase, others, run⟩ := releases.prio
  intro t
  rw [prioBase]
  by_cases same : t = k.run
  · subst same
    rcases run with kept | above
    · rw [kept]
      exact h _
    · exact above
  · rw [others t same]
    exact h t

/-- The running task waits for a mutex, and its owner has at least the priority of the running task. -/
theorem Scheduler.Inherits.waits {o : T} (h : k.Inherits) (based : k.Based) (inv : k.Inv idle)
    (taken : k.level m ≠ 0) (owner : k.owner m = some o) (other : o ≠ k.run) :
    Scheduler.Inherits { k with
      prio := update k.prio o (max (k.prio o) (k.prio k.run))
      lnk := update k.lnk m (k.run :: k.lnk m)
      state := update k.state k.run .waitMut } := by
  have grows (u : T) : k.prio u ≤ update k.prio o (max (k.prio o) (k.prio k.run)) u := by
    by_cases same : u = o
    · simp [same]
    · simp [same]
  have still (u : T) (n : M) (waits : u ∈ k.lnk n) : u ∈ update k.lnk m (k.run :: k.lnk m) n := by
    by_cases eq : n = m
    · subst eq
      simpa using .inr waits
    · simpa [eq] using waits
  refine ⟨fun u v n waits owns => ?_, fun u => ?_⟩
  · by_cases new : u = k.run ∧ n = m
    · obtain ⟨rfl, rfl⟩ := new
      rw [owner] at owns
      obtain rfl := Option.some.inj owns
      dsimp only
      rw [update_self]
      exact Nat.le_trans (based _) (Nat.le_max_right _ _)
    · have before : u ∈ k.lnk n := by
        by_cases eq : n = m
        · subst eq
          have other : u ≠ k.run := fun same => new ⟨same, rfl⟩
          simpa [other] using waits
        · simpa [eq] using waits
      exact Nat.le_trans (h.raised u v n before owns) (grows v)
  · -- the priority before has its reason still, and a new one comes from the running task
    have kept (same : update k.prio o (max (k.prio o) (k.prio k.run)) u = k.prio u) :
        update k.prio o (max (k.prio o) (k.prio k.run)) u = k.prioBase u ∨
          ∃ n ∈ k.mlnk u, ∃ v ∈ update k.lnk m (k.run :: k.lnk m) n,
            update k.prio o (max (k.prio o) (k.prio k.run)) u ≤
              update k.prio o (max (k.prio o) (k.prio k.run)) v := by
      rw [same]
      refine (h.restored u).imp_right ?_
      rintro ⟨n, owned, v, waits, le⟩
      exact ⟨n, owned, v, still v n waits, Nat.le_trans le (grows v)⟩
    by_cases same : u = o
    · subst same
      rcases Nat.le_total (k.prio k.run) (k.prio u) with le | le
      · exact kept (by rw [update_self, Nat.max_eq_left le])
      · have owned : m ∈ k.mlnk u := (inv.owned.owned u m).2 ⟨taken, owner⟩
        refine .inr ⟨m, owned, k.run, ?_, ?_⟩
        · simp
        · dsimp only
          rw [update_self, update_of_ne other.symm, Nat.max_eq_right le]
    · exact kept (update_of_ne same _ _)

theorem Scheduler.Inherits.takes (h : k.Inherits) (based : k.Based) (inv : k.Inv idle)
    (takes : k.Takes m k' r) : k'.Inherits := by
  cases takes with
  | free free =>
    refine ⟨fun t u n waits owns => ?_, fun t => ?_⟩
    · have ne : n ≠ m := by
        rintro rfl
        exact (inv.waited t n waits).1 free
      exact h.raised t u n waits (by simpa [own, inc, ne] using owns)
    · refine (h.restored t).imp_right ?_
      rintro ⟨n, owned, rest⟩
      refine ⟨n, ?_, rest⟩
      by_cases same : t = k.run
      · subst same
        simpa [own, inc] using .inr owned
      · simpa [own, inc, same] using owned
  | nested taken owner => exact { h with }
  | waits taken owner other moves => exact moves.inherits (h.waits based inv taken owner other)

/-- After the running task has given the mutex back. -/
theorem Scheduler.Inherits.disown (h : k.Inherits) (based : k.Based) (inv : k.Inv idle) (last : k.level m = 1)
    (owner : k.owner m = some k.run) :
    let s := (k.dec m).disown m
    (∀ t u n, n ≠ m → t ∈ s.lnk n → s.owner n = some u → s.prioBase t ≤ s.prio u) ∧
    ∀ t, s.prio t = s.prioBase t ∨ ∃ n ∈ s.mlnk t, n ≠ m ∧ ∃ u ∈ s.lnk n, s.prio t ≤ s.prio u := by
  intro s
  have distinct := inv.owned.mlnkNodup k.run
  have prio : s.prio k.run = ((k.mlnk k.run).erase m).foldl k.highest (k.prioBase k.run) := by
    have restored : s.prio k.run = (update k.mlnk k.run ((k.mlnk k.run).erase m) k.run).foldl k.highest
        (k.prioBase k.run) := update_self ..
    rwa [update_self] at restored
  obtain ⟨-, firsts, cases⟩ :=
    k.foldl_highest ((k.mlnk k.run).erase m) (k.prioBase k.run)
  have others (t : T) (ne : t ≠ k.run) : s.prio t = k.prio t := update_of_ne ne _ _
  refine ⟨fun t u n ne waits owns => ?_, fun t => ?_⟩
  · have waits' : t ∈ k.lnk n := waits
    by_cases same : u = k.run
    · have owned : n ∈ (k.mlnk k.run).erase m := by
        refine (List.mem_erase_of_ne ne).2 ((inv.owned.owned k.run n).2 ⟨(inv.waited t n waits').1, ?_⟩)
        exact same ▸ owns
      obtain ⟨first, rest, split⟩ := List.exists_cons_of_ne_nil (List.ne_nil_of_mem waits')
      rw [same, prio]
      calc k.prioBase t
          _ ≤ k.prio t := based t
          _ ≤ k.prio first := inv.ordered.le_first split waits'
          _ ≤ _ := firsts n owned first rest split
    · rw [others u same]
      exact h.raised t u n waits' owns
  · have lower (u : T) (n : M) (waits : u ∈ k.lnk n) : s.prio u = k.prio u := by
      refine others u ?_
      rintro rfl
      exact inv.run_not_mem_lnk n waits
    by_cases same : t = k.run
    · have mlnk : s.mlnk k.run = (k.mlnk k.run).erase m := update_self ..
      rw [same, prio, mlnk]
      refine cases.imp_right ?_
      rintro ⟨n, owned, u, waits, eq⟩
      exact ⟨n, owned, ((distinct.mem_erase_iff).1 owned).1, u, waits,
        Nat.le_of_eq (eq.trans (lower u n waits).symm)⟩
    · have mlnk : s.mlnk t = k.mlnk t := update_of_ne same _ _
      rw [others t same, mlnk]
      refine (h.restored t).imp_right ?_
      rintro ⟨n, owned, u, waits, le⟩
      refine ⟨n, owned, ?_, u, waits, (lower u n waits).symm ▸ le⟩
      rintro rfl
      have owns := ((inv.owned.owned t n).1 owned).2
      rw [owner] at owns
      exact same (Option.some.inj owns).symm

theorem Scheduler.Inherits.releases {granted : Option T} (h : k.Inherits) (based : k.Based)
    (inv : k.Inv idle) (releases : k.Releases m k' granted) : k'.Inherits := by
  cases releases with
  | refused refused => exact h
  | nested nested owner => exact { h with }
  | free last owner nobody moves =>
    obtain ⟨raised, restored⟩ := h.disown based inv last owner
    refine moves.inherits ⟨fun t u n waits owns => ?_, fun t => ?_⟩
    · refine raised t u n ?_ waits owns
      rintro rfl
      have waits' : t ∈ k.lnk n := waits
      rw [nobody] at waits'
      cases waits'
    · refine (restored t).imp_right ?_
      rintro ⟨n, owned, -, rest⟩
      exact ⟨n, owned, rest⟩
  | @handed _ first rest last owner waiting moves =>
    obtain ⟨raised, restored⟩ := h.disown based inv last owner
    have released := inv.disown last owner
    refine moves.inherits ⟨fun t u n waits owns => ?_, fun t => ?_⟩
    · by_cases eq : n = m
      · subst eq
        have behind : t ∈ rest := by simpa [handOver] using waits
        obtain rfl : first = u := by simpa [handOver] using owns
        have mem : t ∈ k.lnk n := waiting ▸ List.mem_cons_of_mem _ behind
        have own : ((k.dec n).disown n).prio t = k.prio t := by
          refine update_of_ne ?_ _ _
          rintro rfl
          exact inv.run_not_mem_lnk n mem
        calc k.prioBase t
            _ ≤ k.prio t := based t
            _ = ((k.dec n).disown n).prio t := own.symm
            _ ≤ ((k.dec n).disown n).prio first := released.ordered.le_first (m := n) waiting mem
      · refine raised t u n eq ?_ ?_
        · simpa [handOver, eq] using waits
        · simpa [handOver, eq] using owns
    · refine (restored t).imp_right ?_
      rintro ⟨n, owned, ne, u, waits, le⟩
      refine ⟨n, ?_, u, ?_, le⟩
      · by_cases same : t = first
        · subst same
          simpa [handOver] using .inr owned
        · simpa [handOver, same] using owned
      · simpa [handOver, ne] using waits

end Services

/-! ## Runs -/

section Runs

variable {Θ F L : Type*} [DecidableEq Θ] [DecidableEq L] {P : Program Θ F L}
  {s t : Multitasking Θ F L} {θ : Θ} {main : Θ} {base : Θ → ℕ} {a : RtxAction Θ}
  {ts : List (Transition (Multitasking Θ F L) (RtxAction Θ))}

/-- The idle task stays below the threads. -/
structure Multitasking.Floor (s : Multitasking Θ F L) : Prop where
  based : s.sched.Based
  idle : s.sched.prio none = 0
  pos : ∀ θ, 0 < s.sched.prioBase (some θ)

/-- What a step does to the scheduler. -/
inductive Scheduler.Serves (k : Scheduler (Option Θ) L) : RtxAction Θ → Scheduler (Option Θ) L → Prop
    where
  | takes {l : L} {r : OsResult} {k' : Scheduler (Option Θ) L} : k.Takes l k' r → Serves k .run k'
  | releases {l : L} {granted : Option (Option Θ)} {k' : Scheduler (Option Θ) L} : k.run ≠ none →
      k.Releases l k' granted → Serves k .run k'
  | moves {a : RtxAction Θ} {state : Option Θ → TaskState} {k' : Scheduler (Option Θ) L} :
      Moves { k with state := state } k' → Serves k a k'
  | setPriority {θ : Θ} {newPrio : ℕ} {k' : Scheduler (Option Θ) L} : 0 < newPrio →
      Moves { k with
        prio := update k.prio (some θ) newPrio
        prioBase := update k.prioBase (some θ) newPrio } k' → Serves k (.setPriority θ newPrio) k'

theorem Multitasking.Step.serves (inv : s.Inv) (made : Multitasking.Step P s a t) :
    s.sched.Serves a t.sched := by
  cases made with
  | enter run idle looped hway => exact .moves (.refl _)
  | lock run top made => exact .takes (inv.sched.mutWait (by simp [run]) made).2
  | wait run top made => exact .takes (inv.sched.mutWait (by simp [run]) made).2
  | unlock run top made =>
    exact .releases (by simp [run]) (inv.sched.mutRelease made).2
  | call run top hway => exact .moves (.refl _)
  | ret run top => exact .moves (.refl _)
  | block run idle made => exact .moves (rtDispatchFirst_moves made)
  | tick robin woken distinct asleep made =>
    exact .moves (inv.sched.systick (distinct.map (Option.some_injective Θ))
      (by simpa using asleep) made).2
  | dispatch θ asleep => exact .moves (rtDispatch_moves (some θ) s.sched)
  | setPriority θ newPrio pos made => exact .setPriority pos (inv.sched.tskPrio made).2

theorem Multitasking.Floor.step (h : s.Floor) (inv : s.Inv) (serves : s.sched.Serves a t.sched) :
    t.Floor := by
  cases serves with
  | takes takes =>
    obtain ⟨prioBase, prio⟩ := takes.prio
    refine ⟨takes.based h.based, ?_, fun θ => prioBase ▸ h.pos θ⟩
    refine ((prio none).2 ?_).trans h.idle
    by_contra owned
    push Not at owned
    have mem := (inv.sched.owned.owned none _).2 owned.symm
    rw [inv.idle] at mem
    cases mem
  | releases busy releases =>
    obtain ⟨prioBase, others, -⟩ := releases.prio
    refine ⟨releases.based h.based, ?_, fun θ => prioBase ▸ h.pos θ⟩
    rw [others none busy.symm]
    exact h.idle
  | moves moves =>
    refine ⟨moves.based h.based, ?_, fun θ => ?_⟩
    · rw [moves.prio]
      exact h.idle
    · rw [moves.prioBase]
      exact h.pos θ
  | @setPriority θ newPrio _ pos moves =>
    refine ⟨moves.based fun u => ?_, ?_, fun θ' => ?_⟩
    · by_cases same : u = some θ
      · simp [same]
      · simpa [same] using h.based u
    · rw [moves.prio]
      exact h.idle
    · rw [moves.prioBase]
      by_cases same : θ' = θ
      · simpa [same] using pos
      · simpa [same] using h.pos θ'

/-- Priorities are set for tasks only that use no mutex at the moment. -/
def SetsUnengaged (τ : Transition (Multitasking Θ F L) (RtxAction Θ)) : Prop :=
  ∀ θ newPrio, τ.label = .setPriority θ newPrio → ¬ τ.src.sched.Engaged (some θ)

omit [DecidableEq L] in
theorem Scheduler.Inherits.setPriority {k k' : Scheduler (Option Θ) L} {newPrio : ℕ}
    (h : k.Inherits) (inv : k.Inv none) (unengaged : ¬ k.Engaged (some θ))
    (moves : Moves { k with
      prio := update k.prio (some θ) newPrio
      prioBase := update k.prioBase (some θ) newPrio } k') : k'.Inherits := by
  obtain ⟨unowned, absent⟩ : k.mlnk (some θ) = [] ∧ ∀ m, some θ ∉ k.lnk m := by
    simpa [Engaged] using unengaged
  have others (u : Option Θ) (ne : u ≠ some θ) : update k.prio (some θ) newPrio u = k.prio u :=
    update_of_ne ne _ _
  have waiting {u : Option Θ} {l : L} (waits : u ∈ k.lnk l) : u ≠ some θ := by
    rintro rfl
    exact absent l waits
  refine moves.inherits ⟨fun u v l waits owns => ?_, fun u => ?_⟩
  · have other : v ≠ some θ := by
      rintro rfl
      have owned := (inv.owned.owned _ l).2 ⟨(inv.waited u l waits).1, owns⟩
      rw [unowned] at owned
      cases owned
    dsimp only
    rw [others v other, update_of_ne (waiting waits)]
    exact h.raised u v l waits owns
  · by_cases same : u = some θ
    · exact .inl (by simp [same])
    · dsimp only
      rw [others u same, update_of_ne same]
      refine (h.restored u).imp_right ?_
      rintro ⟨l, owned, v, waits, le⟩
      exact ⟨l, owned, v, waits, (others v (waiting waits)).symm ▸ le⟩

theorem Multitasking.Inherits.step (h : s.sched.Inherits) (floor : s.Floor) (inv : s.Inv)
    (serves : s.sched.Serves a t.sched) (sets : SetsUnengaged ⟨s, a, t⟩) : t.sched.Inherits := by
  cases serves with
  | takes takes => exact h.takes floor.based inv.sched takes
  | releases busy releases => exact h.releases floor.based inv.sched releases
  | moves moves => exact moves.inherits { h with }
  | setPriority pos moves => exact h.setPriority inv.sched (sets _ _ rfl) moves

theorem multitasking_floor (pos : ∀ θ, 0 < base θ) (h : (multitasking P main base).Reachable s) :
    s.Floor := by
  have both := h.invariant
    (I := fun s => (s.Inv ∧ P.threads.Reachable s.threads) ∧ s.Floor) ?_ ?_
  · exact both.2
  · intro s init
    obtain ⟨inv, start⟩ := Multitasking.Inv.init init
    obtain ⟨-, -, -, prioBase, prio, -⟩ := init
    refine ⟨⟨inv, (System.Execution.init start).reachable⟩, fun t => prio ▸ Nat.le_refl _, ?_,
      fun θ => ?_⟩
    · rw [prio, prioBase]
      rfl
    · rw [prioBase]
      exact pos θ
  · rintro s a t ⟨⟨inv, reach⟩, floor⟩ made
    exact ⟨inv.step reach made, floor.step inv (made.serves inv)⟩

/-- In every run in which priorities are set for tasks only that use no mutex at the moment, the owner of
a mutex has at least the own priority of everybody who waits for it, so that nobody below that runs
while the owner could, and a task is above its own priority only for somebody who waits for one of its
mutexes. -/
theorem multitasking_inherits (pos : ∀ θ, 0 < base θ)
    (exec : (multitasking P main base).Execution ts s) (sets : ∀ τ ∈ ts, SetsUnengaged τ) :
    (∀ l t u, t ∈ s.sched.lnk l → s.sched.owner l = some u →
      s.sched.prioBase t ≤ s.sched.prio u ∧
        (u = s.sched.run ∨ u ∈ s.sched.rdy → s.sched.prioBase t ≤ s.sched.prio s.sched.run)) ∧
    ∀ t, s.sched.prio t = s.sched.prioBase t ∨
      ∃ l u, s.sched.owner l = some t ∧ u ∈ s.sched.lnk l ∧ s.sched.prio t ≤ s.sched.prio u := by
  obtain ⟨inv, -⟩ := multitasking_inv exec.reachable
  have inherits : s.sched.Inherits := by
    refine exec.history (I := fun ts s => (∀ τ ∈ ts, SetsUnengaged τ) → s.sched.Inherits) ?_ ?_ sets
    · rintro s ⟨-, -, -, -, prio, -, -, -, lnk, -⟩ -
      refine ⟨fun t u l waits => ?_, fun t => .inl (congrFun prio t)⟩
      rw [lnk] at waits
      cases waits
    · intro ts s a t reachable inherits made sets
      obtain ⟨inv, -⟩ := multitasking_inv reachable
      have before := inherits fun τ taken => sets τ (List.mem_append_left _ taken)
      exact Multitasking.Inherits.step before (multitasking_floor pos reachable) inv (made.serves inv) (sets _ (by simp))
  refine ⟨fun l t u waits owns => ?_, fun t => ?_⟩
  · have raised := inherits.raised t u l waits owns
    refine ⟨raised, ?_⟩
    rintro (rfl | ready)
    · exact raised
    · exact Nat.le_trans raised (inv.sched.runs.top u ready)
  · refine (inherits.restored t).imp_right ?_
    rintro ⟨l, owned, u, waits, le⟩
    exact ⟨l, u, ((inv.sched.owned.owned t l).1 owned).2, waits, le⟩

/-- The running thread can go on, or wait for its next round. -/
theorem Multitasking.Inv.goes_on (D : Discipline P) (inv : s.Inv) (run : s.sched.run = some θ) :
    ∃ t, Multitasking.Step P s (if s.stack θ = [] then .block else .run) t := by
  have awake : s.sched.run ≠ none := by simp [run]
  cases top : s.stack θ with
  | nil =>
    obtain ⟨k, made⟩ := Option.isSome_iff_exists.1 (rtBlock_isSome inv.sched awake .waiting)
    exact ⟨_, .block run top made⟩
  | cons frame fs =>
    rw [if_neg (List.cons_ne_nil _ _)]
    obtain ⟨f, way⟩ := frame
    cases way with
    | nil => exact ⟨_, .ret run top⟩
    | cons stmt rest =>
      cases stmt with
      | lock l =>
        obtain ⟨⟨k, r⟩, made⟩ := Option.isSome_iff_exists.1 (inv.sched.mutWait_isSome awake l)
        cases (inv.sched.mutWait awake made).2 with
        | free free => exact ⟨_, .lock run top made⟩
        | nested taken owner => exact ⟨_, .lock run top made⟩
        | waits taken owner other moves => exact ⟨_, .wait run top made⟩
      | unlock l =>
        obtain ⟨⟨k, r, granted⟩, made⟩ :=
          Option.isSome_iff_exists.1 (inv.sched.mutRelease_isSome awake l)
        exact ⟨_, .unlock run top made⟩
      | call g =>
        obtain ⟨way, ways, hways⟩ := List.exists_cons_of_ne_nil (D.total g)
        exact ⟨_, .call run top (hways ▸ List.mem_cons_self)⟩

/-- A thread that could go on without the kernel waits for no mutex. -/
theorem Multitasking.Inv.not_waiting {l : L} {u : Threads Θ F L} (inv : s.Inv)
    (step : P.Step s.threads θ u) : some θ ∉ s.sched.lnk l := by
  intro waits
  obtain ⟨f, rest, fs, top⟩ := inv.awaits θ l waits
  obtain ⟨θ', other, owned⟩ := inv.waitsFor waits
  cases step with
  | lock top' unowned =>
    rw [top] at top'
    simp only [List.cons.injEq, Prod.mk.injEq, Stmt.lock.injEq] at top'
    obtain ⟨⟨-, rfl, -⟩, -⟩ := top'
    exact owned (unowned θ' other)
  | wake top' | unlock top' | call top' | ret top' =>
    rw [top] at top'
    simp at top'

/-- As long as some thread is busy, the kernel runs a thread, and that can go on. -/
theorem multitasking_progress [Finite Θ] (D : Discipline P) (pos : ∀ θ, 0 < base θ)
    (h : (multitasking P main base).Reachable s) (busy : ∃ θ, s.stack θ ≠ []) :
    ∃ θ, s.sched.run = some θ ∧
      ∃ t, Multitasking.Step P s (if s.stack θ = [] then .block else .run) t := by
  obtain ⟨inv, reach⟩ := multitasking_inv h
  have floor := multitasking_floor pos h
  obtain ⟨θ, busy, u, step⟩ := D.progress reach busy
  have awake : s.sched.run ≠ none := by
    intro idle
    rcases inv.place busy with run | ready | ⟨l, waits⟩
    · rw [idle] at run
      cases run
    · -- a ready thread would be above the idle task
      have top := inv.sched.runs.top _ ready
      rw [idle, floor.idle] at top
      have above := Nat.lt_of_lt_of_le (floor.pos θ) (floor.based (some θ))
      omega
    · exact inv.not_waiting step waits
  obtain ⟨θ', run⟩ := Option.ne_none_iff_exists'.1 awake
  exact ⟨θ', run, inv.goes_on D run⟩

end Runs

end Ams
