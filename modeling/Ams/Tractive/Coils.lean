import Ams.Tractive.Refinement

/-!
# When the coils close

A coil is on only in the phases that report it (`energised_of_coil`), and it goes on only in the
step whose samples allow it (`Phase.closes`, `closed_by_step`).  The step does not look at the
result of its safety check before it asks for the run coil: what keeps the coil off after a bad
sample is that the contactors have been opened by then and refuse.
-/

namespace Ams

open Reactive StackPlausibility

variable {p q : Phase} {w : World} {k : Coil} {st : Stimulus} {es : List Effect}

/-! ## The coils of a phase -/

theorem Phase.Shows.coil (h : p.Shows w) (k : Coil) : w.coil k = p.coil k := by
  cases k with
  | precharge => exact h.precharge
  | run => exact h.run

/-- No coil is on outside the states that report it. -/
theorem energised_of_coil (h : booted.Reachable w) :
    (w.runContactorCoil = true →
      w.currentState = .scsTractiveSystemRaceReady ∧ w.prechargeContactorCoil = true) ∧
    (w.prechargeContactorCoil = true → w.currentState = .scsStartedPrecharge ∨
      w.currentState = .scsPrechargeMinimumTimeExceeded ∨
      w.currentState = .scsTractiveSystemRaceReady) := by
  obtain ⟨p, hp⟩ := booted_shows h
  rw [hp.runContactorCoil, hp.prechargeContactorCoil, hp.currentState]
  cases p with
  | waiting hold => cases hold <;> decide
  | _ => decide

theorem energised_of_coil_minimumTime : World.minimumTime.prechargeContactorCoil = true ∧
    (World.minimumTime.currentState = .scsStartedPrecharge ∨
      World.minimumTime.currentState = .scsPrechargeMinimumTimeExceeded ∨
      World.minimumTime.currentState = .scsTractiveSystemRaceReady) := by
  exact ⟨rfl, (energised_of_coil execution_start.reachable).2 rfl⟩

/-! ## The writes of a stimulus -/

/-- The coil whose contactor the stimulus closes. -/
def Phase.closes : Phase → Stimulus → Option Coil
  | armed, .sample pins true => if pins.safe then some .precharge else none
  | precharged, .sample pins _ => if pins.safe && pins.precharged then some .run else none
  | _, _ => none

theorem coilWrite_mem_prechargeEffects : .coilWrite k true ∈ prechargeEffects ↔ k = .precharge := by
  cases k <;> decide

theorem coilWrite_not_mem_refusedRunEffects : .coilWrite k true ∉ refusedRunEffects := by
  cases k <;> decide

theorem Phase.effects_precharged_safe {pins : Pins} {b : Bool} (safe : pins.safe = true) :
    precharged.effects (.sample pins b) =
      if pins.precharged then runEffects else openEffects .hvcPrecharge .scsLatchingError := by
  simp [effects, sampleEffects, safe]

/-- A high write belongs to a stimulus that closes a contactor. -/
theorem Phase.Outcome.closes_of_write (o : Outcome p st q es) (h : .coilWrite k true ∈ es) :
    p.closes st = some k ∨ k = .precharge ∧ p.closes st = some .run := by
  cases o with
  | stays quiet => cases quiet _ h
  | opens _ opening => cases opening.opening _ h
  | starts safe =>
    rw [coilWrite_mem_prechargeEffects] at h
    exact .inl (by rw [closes, if_pos safe, h])
  | expires => simp at h
  | completes safe done => cases k <;> simp [closes, safe, done]
  | strands =>
    rcases List.mem_append.1 h with h | h
    · cases (opening_openEffects rfl).opening _ h
    · exact absurd h coilWrite_not_mem_refusedRunEffects

/-! ## Closing -/

theorem closes_precharge_iff : p.closes st = some .precharge ↔
    p = .armed ∧ ∃ pins, st = .sample pins true ∧ pins.safe = true := by
  unfold Phase.closes
  constructor
  · intro h
    split at h <;> simp_all
  · rintro ⟨rfl, pins, rfl, safe⟩
    simp [safe]

theorem closes_run_iff : p.closes st = some .run ↔
    p = .precharged ∧ ∃ pins b, st = .sample pins b ∧ pins.safe = true ∧ pins.precharged = true := by
  unfold Phase.closes
  constructor
  · intro h
    split at h <;> simp_all
  · rintro ⟨rfl, pins, b, rfl, safe, done⟩
    simp [safe, done]

theorem closes_of_rises (h : Rises (Effect.coilLevel k) (p.coil k) (p.effects st)) :
    p.closes st = some k := by
  have rises := h
  obtain ⟨pre, e, post, hes, write, -⟩ := h
  obtain rfl := coilLevel_eq_some.1 write
  have written : .coilWrite k true ∈ p.effects st := by simp [hes]
  rcases (p.outcome st).closes_of_write written with closes | ⟨rfl, run⟩
  · exact closes
  · -- closing the run contactor writes the precharge coil again, which is on already
    obtain ⟨rfl, pins, b, rfl, safe, done⟩ := closes_run_iff.1 run
    rw [Phase.effects_precharged_safe safe, if_pos done] at rises
    refine absurd rises (not_rises_of_held fun x hx low => ?_)
    rw [coilLevel_eq_some.1 low] at hx
    exact absurd hx (by decide)

/-- The coils end at the levels that the effects have written. -/
theorem Phase.Outcome.level (o : Outcome p st q es) (k : Coil) :
    level (Effect.coilLevel k) (p.coil k) es = q.coil k := by
  cases o with
  | stays quiet => exact level_of_unwritten fun e he => coilLevel_of_quiet (quiet e he)
  | opens open_ opening =>
    rw [opening.low, Phase.coil, contactor_of_opens open_]
    cases k <;> rfl
  | starts =>
    rw [prechargeEffects, level_append, level_syncEffects]
    rfl
  | expires => rfl
  | completes =>
    rw [runEffects, level_append, level_syncEffects]
    rfl
  | strands =>
    rw [level_append, (opening_openEffects rfl).low, refusedRunEffects, level_append, level_append,
      level_syncEffects]
    rfl

/-- In the transition the coil `k` goes from off to on, at its end or on the way. -/
def TurnsOn (k : Coil) (τ : Transition World Call) : Prop :=
  (τ.src.coil k = false ∧ τ.dst.coil k = true) ∨
    Rises (Effect.coilLevel k) (τ.src.coil k) τ.dst.trace

theorem TurnsOn.closes {τ : Transition World Call} (on : TurnsOn k τ) (hp : p.Shows τ.src)
    (advanced : Advances p τ.label τ.src τ.dst) : p.closes (τ.label.stimulus τ.src) = some k := by
  unfold TurnsOn at on
  rw [hp.coil, advanced.shows_next.coil, advanced.trace] at on
  rcases on with ⟨off, on⟩ | rises
  · rw [← (p.outcome _).level, off] at on
    have rises := rises_of_level on
    rw [← off] at rises
    exact closes_of_rises rises
  · exact closes_of_rises rises

/-- A coil goes on only in a step, which has sampled all the safety inputs good: the precharge coil
in the activation state with the enable bit high, the run coil after the minimum time with the
precharge coil on and the precharge inputs complete. -/
theorem closed_by_step {ts : List (Transition World Call)} (exec : booted.Execution ts w)
    {τ : Transition World Call} (taken : τ ∈ ts) (on : TurnsOn k τ) :
    ∃ pins, τ.label = .stateMachineProcessStep pins ∧ pins.safe = true ∧
      match k with
      | .precharge => τ.src.currentState = .scsWaitingForPrechargeActivation ∧
          τ.src.tractivePowerEnableBit = true
      | .run => τ.src.currentState = .scsPrechargeMinimumTimeExceeded ∧
          τ.src.prechargeContactorCoil = true ∧ precharge99Status pins = true ∧
          prechargeOorStatus pins = true := by
  obtain ⟨p, hp, advanced⟩ := advances_of_mem exec taken
  have closes := on.closes hp advanced
  cases k with
  | precharge =>
    obtain ⟨rfl, pins, sampled, safe⟩ := closes_precharge_iff.1 closes
    obtain ⟨step, enabled⟩ := stimulus_eq_sample.1 sampled
    exact ⟨pins, step, safe, hp.currentState, enabled⟩
  | run =>
    obtain ⟨rfl, pins, b, sampled, safe, done⟩ := closes_run_iff.1 closes
    obtain ⟨complete, inRange⟩ := Bool.and_eq_true_iff.1 done
    exact ⟨pins, (stimulus_eq_sample.1 sampled).1, safe, hp.currentState, hp.precharge, complete,
      inRange⟩

theorem closed_by_step_ready : ∃ pins,
    (finalStep .allGood).label = .stateMachineProcessStep pins ∧ pins.safe = true ∧
      (finalStep .allGood).src.currentState = .scsPrechargeMinimumTimeExceeded ∧
      (finalStep .allGood).src.prechargeContactorCoil = true ∧ precharge99Status pins = true ∧
      prechargeOorStatus pins = true := by
  have on : TurnsOn .run (finalStep .allGood) := .inl ⟨rfl, rfl⟩
  exact closed_by_step execution_ready (by simp) on

end Ams
