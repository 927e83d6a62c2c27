import Ams.Tractive.Coils

/-!
# Disabling

`push_tractive_enable` writes the enable bit under its own lock and notifies the change under the
lock of the state machine.  A step of the state machine holds only the second lock when it reads the
bit.  `tasks` is the system of these halves: a step may have read a bit that the CAN task has
changed since, and steps, events and the timer may fall between the write and its notification.  The
bit alone is no protection there; what opens the contactors is the notification, which waits for the
step to end.
-/

namespace Ams

open Reactive StateController StateControllerEvent

/-- The controllers, with the CAN task and the task of the state machine between their halves. -/
structure Tasks where
  world : World
  /-- the event that `push_tractive_enable` has still to notify -/
  pending : Option StateControllerEvent
  /-- the pins of the step in progress and the enable bit that it has read -/
  sampled : Option (Pins × Bool)

inductive Action where
  | canWrite (newVal : Bool)
  | canNotify
  | stepRead (pins : Pins)
  | stepFinish
  | notifyEvent (ev : StateControllerEvent)
  | prechargeTimerFire
  deriving DecidableEq, Repr

/-- A step in progress holds the lock of the state machine, so only `canWrite` may fall into it. -/
inductive TaskStep : Tasks → Action → Tasks → Prop where
  | canWrite {s : Tasks} {w' : World} (newVal : Bool) : s.pending = none →
      (Call.writeTractiveEnable newVal).Step s.world w' →
      TaskStep s (.canWrite newVal)
        { s with
          world := w'
          pending := if newVal != s.world.tractivePowerEnableBit then some (driverEvent newVal)
            else none }
  | canNotify {s : Tasks} {w' : World} {ev : StateControllerEvent} : s.pending = some ev →
      s.sampled = none → (Call.notifyEvent ev).Step s.world w' →
      TaskStep s .canNotify { s with world := w', pending := none }
  | stepRead {s : Tasks} (pins : Pins) : s.sampled = none →
      TaskStep s (.stepRead pins)
        { s with
          world := { s.world with trace := [] }
          sampled := some (pins, s.world.tractivePowerEnableBit) }
  | stepFinish {s : Tasks} {w' : World} {pins : Pins} {enable : Bool} :
      s.sampled = some (pins, enable) →
      -- the step runs with the bit as it has read it, and keeps the bit as it has been written since
      (Call.stateMachineProcessStep pins).Step (writeTractiveEnable enable s.world) w' →
      TaskStep s .stepFinish
        { s with
          world := writeTractiveEnable s.world.tractivePowerEnableBit w'
          sampled := none }
  | notifyEvent {s : Tasks} {w' : World} (ev : StateControllerEvent) : s.sampled = none →
      (Call.notifyEvent ev).Step s.world w' →
      TaskStep s (.notifyEvent ev) { s with world := w' }
  | prechargeTimerFire {s : Tasks} {w' : World} : s.sampled = none →
      Call.prechargeTimerFire.Step s.world w' →
      TaskStep s .prechargeTimerFire { s with world := w' }

/-- The tasks after the start-up, in any order. -/
def tasks : System Tasks Action where
  init s := Booted s.world ∧ s.sampled = none ∧
    ∀ ev, s.pending = some ev → ev = driverEvent s.world.tractivePowerEnableBit
  step := TaskStep

variable {p q : Phase} {st : Stimulus} {es : List Effect} {s t : Tasks} {a : Action}

/-! ## Phases without the enable bit -/

theorem Phase.Outcome.not_energised (o : Outcome p st q es) (h : p.state.energised = false)
    (low : ∀ pins, st ≠ .sample pins true) : q.state.energised = false := by
  cases o with
  | stays => exact h
  | opens open_ => simp [StateControllerState.energised, open_]
  | @starts pins => exact absurd rfl (low pins)
  | expires | completes | strands => cases h

theorem deactivates_next (p : Phase) :
    (p.next (.event sceDriverDeactivatesTractiveSystem)).state.energised = false := by
  cases p with
  | waiting hold => cases hold <;> rfl
  | _ => rfl

theorem coilWrite_not_mem_effects (h : p.state.energised = false)
    (low : ∀ pins, st ≠ .sample pins true) (k : Coil) : .coilWrite k true ∉ p.effects st := by
  intro write
  have notRun : p.closes st ≠ some .run := by
    intro closed
    rw [(closes_run_iff.1 closed).1] at h
    cases h
  have notPrecharge : p.closes st ≠ some .precharge := by
    intro closed
    obtain ⟨-, pins, rfl, -⟩ := closes_precharge_iff.1 closed
    exact low pins rfl
  rcases (p.outcome st).closes_of_write write with closed | ⟨-, closed⟩
  · cases k with
    | precharge => exact notPrecharge closed
    | run => exact notRun closed
  · exact notRun closed

/-! ## The invariant -/

/-- The tasks with the world in phase `p`.  With the bit low and its change notified, the phase is
not energised and no step has read the bit high. -/
structure Tasks.Inv (p : Phase) (s : Tasks) : Prop where
  shows_phase : p.Shows s.world
  pending : ∀ ev, s.pending = some ev → ev = driverEvent s.world.tractivePowerEnableBit
  disabled : s.world.tractivePowerEnableBit = false →
    s.pending ≠ some sceDriverDeactivatesTractiveSystem →
    p.state.energised = false ∧ ∀ pins, s.sampled ≠ some (pins, true)

/-- A low bit whose change has been notified leaves nothing to notify. -/
theorem Tasks.Inv.pending_eq_none (inv : s.Inv p) (low : s.world.tractivePowerEnableBit = false)
    (done : s.pending ≠ some sceDriverDeactivatesTractiveSystem) : s.pending = none := by
  cases pending : s.pending with
  | none => rfl
  | some ev =>
    have event := inv.pending ev pending
    rw [low] at event
    rw [event] at pending
    exact absurd pending done

/-- What an action is to the state machine. -/
def Action.stimulus (s : Tasks) : Action → Stimulus
  | canWrite _ | stepRead _ => .quiet
  | canNotify => (s.pending.map Stimulus.event).getD .quiet
  | stepFinish => (s.sampled.map fun x => Stimulus.sample x.1 x.2).getD .quiet
  | notifyEvent ev => .event ev
  | prechargeTimerFire => .expiry

theorem TaskStep.advances (made : TaskStep s a t) (h : p.Shows s.world) :
    (p.next (a.stimulus s)).Shows t.world ∧ t.world.trace = p.effects (a.stimulus s) := by
  cases made with
  | canWrite newVal pending made =>
    have advanced := made.advances h rfl
    exact ⟨advanced.shows_next, advanced.trace⟩
  | canNotify pending free made =>
    have advanced := made.advances h rfl
    simp only [Action.stimulus, pending, Option.map_some, Option.getD_some]
    exact ⟨advanced.shows_next, advanced.trace⟩
  | stepRead pins free => exact ⟨h.cleared, rfl⟩
  | stepFinish sampled made =>
    have advanced := made.advances (h.enable_written _) rfl
    simp only [Action.stimulus, sampled, Option.map_some, Option.getD_some]
    exact ⟨advanced.shows_next.enable_written _, advanced.trace⟩
  | notifyEvent ev free made =>
    have advanced := made.advances h rfl
    exact ⟨advanced.shows_next, advanced.trace⟩
  | prechargeTimerFire free made =>
    have advanced := made.advances h rfl
    exact ⟨advanced.shows_next, advanced.trace⟩

/-- A bit that is low with no deactivation pending was low before. -/
theorem TaskStep.low_before (made : TaskStep s a t) (h : p.Shows s.world)
    (low : t.world.tractivePowerEnableBit = false)
    (done : t.pending ≠ some sceDriverDeactivatesTractiveSystem) :
    s.world.tractivePowerEnableBit = false := by
  cases made with
  | canWrite newVal idle made =>
    obtain rfl : newVal = false := (made.advances h rfl).enable.symm.trans low
    by_contra high
    exact done (if_pos (by simpa using high))
  | canNotify pending free made => exact (made.advances h rfl).enable.symm.trans low
  | stepRead pins free => exact low
  | stepFinish sampled made => exact low
  | notifyEvent ev free made => exact (made.advances h rfl).enable.symm.trans low
  | prechargeTimerFire free made => exact (made.advances h rfl).enable.symm.trans low

theorem Tasks.Inv.step (inv : s.Inv p) (made : TaskStep s a t) :
    t.Inv (p.next (a.stimulus s)) := by
  refine ⟨(made.advances inv.shows_phase).1, ?_, ?_⟩
  · cases made with
    | canWrite newVal idle made =>
      have written := (made.advances inv.shows_phase rfl).enable
      intro ev hev
      split_ifs at hev
      rw [written]
      exact (Option.some.inj hev).symm
    | canNotify pending free made => nofun
    | stepRead pins free => exact inv.pending
    | stepFinish sampled made => exact inv.pending
    | notifyEvent ev free made =>
      rw [(made.advances inv.shows_phase rfl).enable]
      exact inv.pending
    | prechargeTimerFire free made =>
      rw [(made.advances inv.shows_phase rfl).enable]
      exact inv.pending
  · intro low done
    have before := made.low_before inv.shows_phase low done
    cases made with
    | canWrite newVal idle made => exact inv.disabled before (by rw [idle]; nofun)
    | @canNotify _ ev pending free made =>
      have event := inv.pending ev pending
      rw [before] at event
      simp only [Action.stimulus, pending, event, Option.map_some, Option.getD_some]
      exact ⟨deactivates_next p, by rw [free]; nofun⟩
    | stepRead pins free =>
      refine ⟨(inv.disabled low done).1, fun pins' read => ?_⟩
      have high := congrArg Prod.snd (Option.some.inj read)
      rw [before] at high
      cases high
    | @stepFinish _ pins enable sampled made =>
      obtain ⟨open_, read⟩ := inv.disabled low done
      refine ⟨(p.outcome _).not_energised open_ fun pins' st => ?_, nofun⟩
      simp only [Action.stimulus, sampled, Option.map_some, Option.getD_some] at st
      cases st
      exact read pins sampled
    | notifyEvent ev free made =>
      exact ⟨(p.outcome _).not_energised (inv.disabled before done).1 nofun, by rw [free]; nofun⟩
    | prechargeTimerFire free made =>
      exact ⟨(p.outcome _).not_energised (inv.disabled before done).1 nofun, by rw [free]; nofun⟩

theorem tasks_inv (h : tasks.Reachable s) : ∃ p, s.Inv p := by
  refine h.invariant (I := fun s => ∃ p, s.Inv p) ?_ ?_
  · rintro s ⟨hw, free, pending⟩
    exact ⟨_, hw.shows_phase, pending, fun _ _ => ⟨rfl, by rw [free]; nofun⟩⟩
  · rintro s a t ⟨p, inv⟩ made
    exact ⟨_, inv.step made⟩

/-! ## Nothing closes while the bit is low -/

/-- Both coils are off and the state machine is in none of the energised states. -/
structure Deenergised (w : World) : Prop where
  prechargeContactorCoil : w.prechargeContactorCoil = false
  runContactorCoil : w.runContactorCoil = false
  notStarted : w.currentState ≠ .scsStartedPrecharge
  notExceeded : w.currentState ≠ .scsPrechargeMinimumTimeExceeded
  notReady : w.currentState ≠ .scsTractiveSystemRaceReady

theorem Phase.Shows.deenergised {w : World} (h : p.Shows w) (open_ : p.state.energised = false) :
    Deenergised w := by
  constructor <;>
    first | rw [h.prechargeContactorCoil] | rw [h.runContactorCoil] | rw [h.currentState]
  all_goals
    cases p with
    | waiting hold => cases hold <;> decide
    | latched | armed => decide
    | precharging | precharged | ready | stranded => cases open_

/-- The bit is low and nothing is pending. -/
structure Tasks.Disabled (s : Tasks) : Prop where
  inv : ∃ p, s.Inv p
  low : s.world.tractivePowerEnableBit = false
  notified : s.pending = none

theorem Tasks.Disabled.stimulus_low (h : s.Disabled) (a : Action) (pins : Pins) :
    a.stimulus s ≠ .sample pins true := by
  obtain ⟨⟨p, inv⟩, low, notified⟩ := h
  have read := (inv.disabled low (by rw [notified]; nofun)).2 pins
  cases a <;> simp only [Action.stimulus, notified, Option.map_none, Option.getD_none, ne_eq,
    reduceCtorEq, not_false_eq_true]
  rcases sampled : s.sampled with _ | ⟨pins', enable⟩
  · nofun
  · rintro ⟨⟩
    exact read sampled

theorem Tasks.Disabled.step (h : s.Disabled) (made : TaskStep s a t) (keep : a ≠ .canWrite true) :
    t.Disabled := by
  obtain ⟨⟨p, inv⟩, low, notified⟩ := h
  refine ⟨⟨_, inv.step made⟩, ?_, ?_⟩
  · cases made with
    | canWrite newVal idle made =>
      rw [(made.advances inv.shows_phase rfl).enable]
      simpa [Call.enable] using keep
    | canNotify pending free made => exact (made.advances inv.shows_phase rfl).enable.trans low
    | stepRead pins free => exact low
    | stepFinish sampled made => exact low
    | notifyEvent ev free made => exact (made.advances inv.shows_phase rfl).enable.trans low
    | prechargeTimerFire free made => exact (made.advances inv.shows_phase rfl).enable.trans low
  · cases made with
    | canWrite newVal idle made =>
      have unchanged : newVal = false := by simpa using keep
      simp [unchanged, low]
    | canNotify pending free made => rfl
    | _ => exact notified

/-- Where the bit is low and no deactivation is pending the contactors are open, and until the next
write of a high bit nothing closes them. -/
theorem disabled_stays_open (h : tasks.Reachable s) (low : s.world.tractivePowerEnableBit = false)
    (done : s.pending ≠ some sceDriverDeactivatesTractiveSystem) :
    Deenergised s.world ∧ ∀ us t, tasks.Run s us t → (∀ τ ∈ us, τ.label ≠ .canWrite true) →
      ∀ τ ∈ us, Deenergised τ.dst.world ∧ ∀ k, .coilWrite k true ∉ τ.dst.world.trace := by
  obtain ⟨p, inv⟩ := tasks_inv h
  refine ⟨inv.shows_phase.deenergised (inv.disabled low done).1, ?_⟩
  intro us t run keep τ taken
  obtain ⟨pre, post, rfl⟩ := List.append_of_mem taken
  obtain ⟨before, made, -⟩ := run.cut
  have disabled : τ.src.Disabled := before.invariant_of (I := Tasks.Disabled)
    (P := fun τ => τ.label ≠ .canWrite true) (fun s a t hs made keep => hs.step made keep)
    (fun σ hσ => keep σ (List.mem_append_left _ hσ)) ⟨⟨p, inv⟩, low, inv.pending_eq_none low done⟩
  have stays := disabled.stimulus_low τ.label
  obtain ⟨⟨q, src⟩, lowSrc, notified⟩ := disabled
  have open_ := (src.disabled lowSrc (by rw [notified]; nofun)).1
  obtain ⟨shown, trace⟩ := made.advances src.shows_phase
  refine ⟨shown.deenergised ((q.outcome _).not_energised open_ stays), fun k => ?_⟩
  rw [trace]
  exact coilWrite_not_mem_effects open_ stays k

/-! ## A write within a step -/

/-- The undisturbed start, up to a step that has read the bit high. -/
def Tasks.reading : Tasks where
  world :=
    { (Call.pushTractiveEnable true).result
        ((Call.stateMachineProcessStep .allGood).result .mainDone) with trace := [] }
  pending := none
  sampled := some (.allGood, true)

/-- The driver has disabled meanwhile, and the step has closed the precharge contactor. -/
def Tasks.overtaken : Tasks where
  world := writeTractiveEnable false
    ((Call.stateMachineProcessStep .allGood).result Tasks.reading.world)
  pending := some sceDriverDeactivatesTractiveSystem
  sampled := none

/-- The deactivation has been notified. -/
def Tasks.notified : Tasks where
  world := (Call.notifyEvent sceDriverDeactivatesTractiveSystem).result Tasks.overtaken.world
  pending := none
  sampled := none

theorem reachable_reading : tasks.Reachable .reading := by
  have start : tasks.Execution [] ⟨.mainDone, none, none⟩ := .init ⟨mainDone_booted, rfl, nofun⟩
  have read := start.reachable.step (TaskStep.stepRead .allGood rfl)
  have armed := read.step (TaskStep.stepFinish rfl
    (Call.step_result (.stateMachineProcessStep .allGood) fun _ => rfl))
  have written := armed.step (TaskStep.canWrite true rfl
    (Call.step_result (.writeTractiveEnable true) fun _ => rfl))
  have enabled := written.step (TaskStep.canNotify rfl rfl
    (Call.step_result (.notifyEvent sceDriverEnablesTractiveSystem) fun _ => rfl))
  have reading := enabled.step (TaskStep.stepRead .allGood rfl)
  exact reading

theorem reachable_notified : tasks.Reachable .notified := by
  have written := reachable_reading.step (TaskStep.canWrite false rfl
    (Call.step_result (.writeTractiveEnable false) fun _ => rfl))
  have overtaken : tasks.Reachable .overtaken := written.step (TaskStep.stepFinish rfl
    (Call.step_result (.stateMachineProcessStep .allGood) fun _ => rfl))
  exact overtaken.step (TaskStep.canNotify rfl rfl
    (Call.step_result (.notifyEvent sceDriverDeactivatesTractiveSystem) fun _ => rfl))

/-- The write of the bit has not kept the step from closing the contactor, its notification opens
it. -/
theorem disabled_stays_open_notified : Tasks.overtaken.world.prechargeContactorCoil = true ∧
    Deenergised Tasks.notified.world ∧
    ∀ us t, tasks.Run .notified us t → (∀ τ ∈ us, τ.label ≠ .canWrite true) →
      ∀ τ ∈ us, Deenergised τ.dst.world ∧ ∀ k, .coilWrite k true ∉ τ.dst.world.trace :=
  ⟨rfl, disabled_stays_open reachable_notified rfl nofun⟩

end Ams
