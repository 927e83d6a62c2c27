import Ams.Tractive.Disable

/-!
# No lock-out

A latched state machine is released by the event of a deactivation only, and the event is sent only
when the enable bit falls.  So the state machine must not be latched with the bit low: a step latches
only with the bit high or in an energised state, and a bit that has fallen has been notified
(`Tasks.Recoverable`).  From such a state the fixed sequence of the driver, `recoveryCalls`, leads to
race ready.
-/

namespace Ams

open Reactive StateControllerEvent

variable {p q : Phase} {st : Stimulus} {es : List Effect} {s t : Tasks} {a : Action} {w w' : World}

/-! ## A low bit does not find the state machine latched -/

/-- Outside the energised phases only a high bit latches. -/
theorem Phase.next_ne_latched (h : p.state.energised = false) (unlatched : p ≠ latched)
    (low : ∀ pins, st ≠ .sample pins true) : p.next st ≠ latched := by
  cases st with
  | quiet => exact unlatched
  | expiry =>
    simp only [next]
    split_ifs
    · intro same
      cases same
    · exact unlatched
  | event ev =>
    simp only [next]
    split_ifs
    · intro same
      cases same
    · exact unlatched
  | sample pins enable =>
    cases enable with
    | true => exact absurd rfl (low pins)
    | false =>
      cases p with
      | latched => exact absurd rfl unlatched
      | waiting hold | armed => cases held : pins.hold <;> simp [next, sample, held]
      | precharging | precharged | ready | stranded => cases h

theorem Phase.deactivates_ne_latched (p : Phase) :
    p.next (.event sceDriverDeactivatesTractiveSystem) ≠ latched := by
  cases p with
  | waiting hold => cases hold <;> decide
  | _ => decide

/-- The tasks in phase `p`, which is not `latched` once a low bit has been notified. -/
structure Tasks.Recoverable (p : Phase) (s : Tasks) : Prop where
  inv : s.Inv p
  unlatched : s.world.tractivePowerEnableBit = false →
    s.pending ≠ some sceDriverDeactivatesTractiveSystem → p ≠ .latched

theorem Tasks.Recoverable.step (h : s.Recoverable p) (made : TaskStep s a t) :
    t.Recoverable (p.next (a.stimulus s)) := by
  refine ⟨h.inv.step made, fun low done => ?_⟩
  have stays (low : s.world.tractivePowerEnableBit = false)
      (done : s.pending ≠ some sceDriverDeactivatesTractiveSystem) {st : Stimulus}
      (unread : ∀ pins, st ≠ .sample pins true) : p.next st ≠ .latched :=
    Phase.next_ne_latched (h.inv.disabled low done).1 (h.unlatched low done) unread
  have before := made.low_before h.inv.shows_phase low done
  cases made with
  | canWrite newVal idle made => exact stays before (by simp [idle]) fun _ same => by cases same
  | @canNotify _ ev pending free made =>
    have event := h.inv.pending ev pending
    rw [before] at event
    simp only [Action.stimulus, pending, event, Option.map_some, Option.getD_some]
    exact p.deactivates_ne_latched
  | stepRead pins free => exact h.unlatched low done
  | @stepFinish _ pins enable sampled made =>
    refine stays low done fun pins' st => ?_
    simp only [Action.stimulus, sampled, Option.map_some, Option.getD_some] at st
    cases st
    exact (h.inv.disabled low done).2 pins sampled
  | notifyEvent ev free made => exact stays before done fun _ same => by cases same
  | prechargeTimerFire free made => exact stays before done fun _ same => by cases same

theorem tasks_recoverable (h : tasks.Reachable s) : ∃ p, s.Recoverable p := by
  refine h.invariant (I := fun s => ∃ p, s.Recoverable p) ?_ ?_
  · rintro s ⟨hw, free, pending⟩
    exact ⟨_, ⟨hw.shows_phase, pending, fun _ _ => ⟨rfl, by simp [free]⟩⟩,
      fun _ _ same => by cases same⟩
  · rintro s a t ⟨p, inv⟩ made
    exact ⟨_, inv.step made⟩

/-! ## The recovery -/

/-- The driver's sequence, with the pins that its steps sample. -/
def recoveryCalls (cleared enabled charged : Pins) : List Call :=
  [.pushTractiveEnable false, .stateMachineProcessStep cleared, .pushTractiveEnable true,
    .stateMachineProcessStep enabled, .prechargeTimerFire, .stateMachineProcessStep charged]

/-- The world is in phase `p` and the enable bit is at `b`. -/
structure Phase.ShowsBit (p : Phase) (b : Bool) (w : World) : Prop where
  shows_phase : p.Shows w
  enable : w.tractivePowerEnableBit = b

/-- What a call, made with the bit at `b`, is to the state machine, and the bit afterwards. -/
theorem Phase.ShowsBit.call {b : Bool} {c : Call} {st : Stimulus} {b' : Bool} (h : p.ShowsBit b w)
    (hc : c.afterBoot = true)
    (stimulus : ∀ w : World, w.tractivePowerEnableBit = b → c.stimulus w = st ∧ c.enable w = b') :
    ∃ w', booted.step w c w' ∧ (p.next st).ShowsBit b' w' := by
  obtain ⟨w', made, advanced⟩ := h.shows_phase.called hc
  obtain ⟨rfl, rfl⟩ := stimulus w h.enable
  exact ⟨w', ⟨hc, made⟩, advanced.shows_next, advanced.enable⟩

theorem Phase.ShowsBit.step {b : Bool} (h : p.ShowsBit b w) (pins : Pins) :
    ∃ w', booted.step w (.stateMachineProcessStep pins) w' ∧ (p.sample pins b).ShowsBit b w' := by
  have stimulus (w : World) (hw : w.tractivePowerEnableBit = b) :
      (Call.stateMachineProcessStep pins).stimulus w = .sample pins b ∧
        (Call.stateMachineProcessStep pins).enable w = b := ⟨by rw [Call.stimulus, hw], hw⟩
  exact h.call rfl stimulus

/-- A change of the bit is notified. -/
theorem Phase.ShowsBit.push {b : Bool} (h : p.ShowsBit b w) (newVal : Bool) :
    ∃ w', booted.step w (.pushTractiveEnable newVal) w' ∧
      (p.next (if newVal != b then .event (StateController.driverEvent newVal) else
        .quiet)).ShowsBit newVal w' := by
  have stimulus (w : World) (hw : w.tractivePowerEnableBit = b) :
      (Call.pushTractiveEnable newVal).stimulus w = (if newVal != b then
          .event (StateController.driverEvent newVal) else .quiet) ∧
        (Call.pushTractiveEnable newVal).enable w = newVal := ⟨by rw [Call.stimulus, hw], rfl⟩
  exact h.call rfl stimulus

/-- The deactivation leaves the state machine waiting, or it was waiting with the bit low. -/
theorem Phase.ShowsBit.disable {b : Bool} (h : p.ShowsBit b w)
    (low : b = false → p.state.energised = false ∧ p ≠ latched) :
    ∃ w', booted.step w (.pushTractiveEnable false) w' ∧
      ∃ q : Phase, q.ShowsBit false w' ∧ (q = armed ∨ ∃ hold, q = waiting hold) := by
  obtain ⟨w', made, shown⟩ := h.push false
  refine ⟨w', made, _, shown, ?_⟩
  cases b with
  | true =>
    cases p with
    | waiting hold => cases hold <;> exact .inr ⟨.internalSafety, rfl⟩
    | _ => exact .inr ⟨.internalSafety, rfl⟩
  | false =>
    obtain ⟨open_, unlatched⟩ := low rfl
    cases p with
    | latched => exact absurd rfl unlatched
    | waiting hold => exact .inr ⟨hold, rfl⟩
    | armed => exact .inl rfl
    | precharging | precharged | ready | stranded => cases open_

/-- Every call of the sequence comes back, and the last one leaves race ready. -/
theorem Phase.ShowsBit.recovery {b : Bool} {cleared enabled charged : Pins} (h : p.ShowsBit b w)
    (low : b = false → p.state.energised = false ∧ p ≠ latched) (safe : cleared.safe = true)
    (safe' : enabled.safe = true) (safe'' : charged.safe = true)
    (done : charged.precharged = true) :
    ∃ us w', booted.Run w us w' ∧
      us.map Transition.label = recoveryCalls cleared enabled charged ∧ Phase.ready.Shows w' := by
  have noHold {pins : Pins} (good : pins.safe = true) : pins.hold = none :=
    (pins.hold_eq_none_iff).2 good
  obtain ⟨w₁, made₁, q, h₁, waits⟩ := h.disable low
  obtain ⟨w₂, made₂, h₂⟩ := h₁.step cleared
  have arms : q.sample cleared false = armed := by
    rcases waits with rfl | ⟨hold, rfl⟩ <;> simp [sample, noHold safe]
  rw [arms] at h₂
  obtain ⟨w₃, made₃, h₃⟩ := h₂.push true
  obtain ⟨w₄, made₄, h₄⟩ := Phase.ShowsBit.step (p := armed) h₃ enabled
  have starts : armed.sample enabled true = precharging := by simp [sample, noHold safe']
  rw [starts] at h₄
  obtain ⟨w₅, made₅, h₅⟩ := h₄.call (c := .prechargeTimerFire) rfl fun w hw => ⟨rfl, hw⟩
  obtain ⟨w₆, made₆, h₆⟩ := Phase.ShowsBit.step (p := precharged) h₅ charged
  have completes : precharged.sample charged true = ready := by simp [sample, safe'', done]
  rw [completes] at h₆
  exact ⟨_, w₆, (((((System.Run.single made₁).snoc made₂).snoc made₃).snoc made₄).snoc made₅).snoc
    made₆, rfl, h₆.shows_phase⟩

theorem booted_deterministic {c : Call} {v : World} (made : booted.step w c w')
    (made' : booted.step w c v) : w' = v := c.step_unique made.2 made'.2

/-- Where no notification is pending the state machine is not latched with the bit low, and the
driver's sequence, with good inputs, always ends in race ready with both coils on. -/
theorem recovers (h : tasks.Reachable s) (notified : s.pending = none) {cleared enabled charged : Pins}
    (safe : cleared.safe = true) (safe' : enabled.safe = true) (safe'' : charged.safe = true)
    (done : charged.precharged = true) :
    (s.world.tractivePowerEnableBit = false → s.world.currentState ≠ .scsLatchingError) ∧
    (∃ us w', booted.Run s.world us w' ∧
      us.map Transition.label = recoveryCalls cleared enabled charged) ∧
    ∀ us w', booted.Run s.world us w' →
      us.map Transition.label = recoveryCalls cleared enabled charged →
      w'.currentState = .scsTractiveSystemRaceReady ∧ w'.prechargeContactorCoil = true ∧
        w'.runContactorCoil = true := by
  obtain ⟨p, inv⟩ := tasks_recoverable h
  have shown := inv.inv.shows_phase
  have done' : s.pending ≠ some sceDriverDeactivatesTractiveSystem := by simp [notified]
  have low (bit : s.world.tractivePowerEnableBit = false) :
      p.state.energised = false ∧ p ≠ .latched :=
    ⟨(inv.inv.disabled bit done').1, inv.unlatched bit done'⟩
  obtain ⟨us, w', run, labels, ready⟩ :=
    Phase.ShowsBit.recovery ⟨shown, rfl⟩ low safe safe' safe'' done
  refine ⟨fun bit latched => ?_, ⟨us, w', run, labels⟩, fun vs v other labels' => ?_⟩
  · rw [shown.currentState] at latched
    obtain ⟨-, unlatched⟩ := low bit
    cases p with
    | latched => exact unlatched rfl
    | waiting hold => cases hold <;> cases latched
    | _ => cases latched
  · obtain ⟨-, rfl⟩ := run.unique (fun _ _ _ _ => booted_deterministic) other
      (labels.trans labels'.symm)
    exact ⟨ready.currentState, ready.prechargeContactorCoil, ready.runContactorCoil⟩

/-- After a step that has read a high bit, a disabling and its notification. -/
theorem recovers_notified :
    (Tasks.notified.world.tractivePowerEnableBit = false →
      Tasks.notified.world.currentState ≠ .scsLatchingError) ∧
    (∃ us w', booted.Run Tasks.notified.world us w' ∧
      us.map Transition.label = recoveryCalls .allGood .allGood .allGood) ∧
    ∀ us w', booted.Run Tasks.notified.world us w' →
      us.map Transition.label = recoveryCalls .allGood .allGood .allGood →
      w'.currentState = .scsTractiveSystemRaceReady ∧ w'.prechargeContactorCoil = true ∧
        w'.runContactorCoil = true :=
  recovers reachable_notified rfl (by decide) (by decide) (by decide) (by decide)

end Ams
