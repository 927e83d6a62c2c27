import Ams.Controller.Checks
import Ams.Controller.Requests
import Mathlib.Logic.Relation

/-!
# The actions that operations are made of

Whatever the nesting, an operation that comes back has done a sequence of elementary actions: it has
synchronised the coils with a contactor state that follows the one before, written the state of the
state machine or the enable bit, or done something that leaves the controllers alone
(`Call.Step.acts`).  What every action keeps, every operation keeps (`Acts.invariant`).  The
induction on the nesting is made once, for predicates that the parts of a request or an event keep
(`Nested.keeps`).
-/

namespace Ams

open Reactive ContactorController StateController

/-- The effect belongs to the synchronisation of the coils. -/
def Effect.ofCoils : Effect → Bool
  | .coilWrite _ _ | .errorTimerStart _ _ => true
  | _ => false

/-- The contactor state after a request of the state machine: accepted, or settled after a refusal. -/
inductive Follows (c : ContactorState) : ContactorState → Prop where
  | accepted {newState s : ContactorState} : newState ≠ .hvcLatchingMechanicalError →
      request c newState = some s → Follows c s
  | opened : .hvcAllOpen < c → Follows c .hvcAllOpen
  | refused : ¬ .hvcAllOpen < c → Follows c c

/-- One action of an operation. -/
inductive Act : World → World → Prop where
  | emit {w : World} {e : Effect} : e.ofCoils = false → Act w (w.emit e)
  | writeState {w : World} (s : StateControllerState) : Act w (w.writeState s)
  | writeEnable {w : World} (newVal : Bool) : Act w (writeTractiveEnable newVal w)
  | sync {w : World} {c : ContactorState} : Follows w.contactorState c →
      Act w (syncCoils (w.writeContactor c))

def Acts : World → World → Prop := Relation.ReflTransGen Act

variable {w w' v : World} {n : ℕ}

theorem Acts.refl (w : World) : Acts w w := Relation.ReflTransGen.refl

theorem Act.acts (h : Act w w') : Acts w w' := .single h

theorem Acts.trans (first : Acts w v) (second : Acts v w') : Acts w w' :=
  Relation.ReflTransGen.trans first second

theorem Acts.emit (h : Acts w v) {e : Effect} (he : e.ofCoils = false) : Acts w (v.emit e) :=
  h.trans (Act.emit he).acts

theorem Acts.writeState (h : Acts w v) (s : StateControllerState) : Acts w (v.writeState s) :=
  h.trans (Act.writeState s).acts

/-- What every action keeps is kept. -/
theorem Acts.invariant {I : World → Prop} (keep : ∀ v v', I v → Act v v' → I v') (h : Acts w w')
    (start : I w) : I w' := by
  induction h with
  | refl => exact start
  | tail _ act ih => exact keep _ _ ih act

/-! ## Nested operations -/

/-- The ways in which a transition from `w` to `s` comes back. -/
inductive Transitioned (n : ℕ) (w : World) : StateControllerState → World → Prop where
  | opened {s : StateControllerState} {v : World} : s.opens = true →
      pushState n .hvcAllOpen w = some v →
      Transitioned n w s ((v.emit .prechargeTimerStop).writeState s)
  | started {v : World} : pushState n .hvcPrecharge w = some v →
      Transitioned n w .scsStartedPrecharge
        ((v.emit (.prechargeTimerStart prechargeMinimumTimeMillisec)).writeState .scsStartedPrecharge)
  | exceeded : Transitioned n w .scsPrechargeMinimumTimeExceeded
      (w.writeState .scsPrechargeMinimumTimeExceeded)
  | ready {v : World} : pushState n .hvcHighCurrentRun w = some v →
      Transitioned n w .scsTractiveSystemRaceReady (v.writeState .scsTractiveSystemRaceReady)

theorem transitioned_succ {s : StateControllerState} (h : transitionState (n + 1) s w = some w') :
    Transitioned n w s w' := by
  by_cases hs : s.opens = true
  · rw [transitionState_succ_of_opens n w hs, Option.bind_eq_bind, Option.bind_eq_some_iff] at h
    obtain ⟨v, hv, returned⟩ := h
    exact Option.some.inj returned ▸ .opened hs hv
  · cases s <;> first | exact absurd rfl hs | skip
    · rw [transitionState_succ_startedPrecharge, Option.bind_eq_bind, Option.bind_eq_some_iff] at h
      obtain ⟨v, hv, returned⟩ := h
      exact Option.some.inj returned ▸ .started hv
    · rw [transitionState_succ_minimumTimeExceeded] at h
      exact Option.some.inj h ▸ .exceeded
    · rw [transitionState_succ_raceReady, Option.bind_eq_bind, Option.bind_eq_some_iff] at h
      obtain ⟨v, hv, returned⟩ := h
      exact Option.some.inj returned ▸ .ready hv

theorem transitioned {s : StateControllerState} (h : transitionState n s w = some w') :
    ∃ m, Transitioned m w s w' := by
  cases n with
  | zero => rw [transitionState] at h; cases h
  | succ n => exact ⟨n, transitioned_succ h⟩

theorem transitionState_currentState {s : StateControllerState}
    (h : transitionState n s w = some w') : w'.currentState = s := by
  obtain ⟨m, made⟩ := transitioned h
  cases made <;> rfl

/-- A predicate that is kept by whatever a request or an event does before it comes back: nothing
but notifications, the synchronisation of the coils and transitions that open the contactors.  The
mechanical error is never requested by any of them. -/
structure Nested (P : World → Prop) : Prop where
  event {w : World} (ev : StateControllerEvent) : P w → P (w.emit (.eventNotified ev))
  signal {w : World} : P w → P (w.emit .signalSet)
  sync {w : World} {c : ContactorState} : Follows w.contactorState c → P w →
    P (syncCoils (w.writeContactor c))
  stop {w : World} {s : StateControllerState} : s.opens = true → P w →
    P ((w.emit .prechargeTimerStop).writeState s)

namespace Nested

variable {P : World → Prop} (N : Nested P)

include N

theorem settle (h : P w) : P (syncCoils w.settle) := by
  unfold World.settle
  split_ifs with high
  · exact N.sync (.opened high) h
  · exact N.sync (.refused high) h

theorem of_notifyEvent_succ {ev : StateControllerEvent}
    (transition : ∀ v v', P v → transitionState n .scsWaitingForInternalSafety v = some v' → P v')
    (hw : P w) (h : notifyEvent (n + 1) ev w = some w') : P w' := by
  have entered : P (w.emit (.eventNotified ev)) := N.event ev hw
  rw [notifyEvent_succ] at h
  by_cases hr : resets ev w.currentState = true
  · simp only [if_pos hr, Option.bind_eq_bind, Option.bind_eq_some_iff] at h
    obtain ⟨v, hv, returned⟩ := h
    exact Option.some.inj returned ▸ N.signal (transition _ _ entered hv)
  · simp only [if_neg hr, Option.bind_eq_bind, Option.bind_some] at h
    exact Option.some.inj h ▸ N.signal entered

theorem of_pushState_succ {c : ContactorState} (ne : c ≠ .hvcLatchingMechanicalError)
    (event : ∀ ev v v', P v → notifyEvent n ev v = some v' → P v')
    (hw : P w) (h : pushState (n + 1) c w = some w') : P w' := by
  cases accepted : request w.contactorState c with
  | some s =>
    rw [pushState_succ_of_some n w accepted] at h
    exact Option.some.inj h ▸ N.sync (.accepted ne accepted) hw
  | none =>
    rw [pushState_succ_of_none n w accepted, Option.bind_eq_bind, Option.bind_eq_some_iff] at h
    obtain ⟨v, hv, returned⟩ := h
    exact Option.some.inj returned ▸ N.settle (event _ _ _ hw hv)

/-- The induction on the nesting. -/
theorem keeps (n : ℕ) :
    (∀ c w w', c ≠ .hvcLatchingMechanicalError → P w → pushState n c w = some w' → P w') ∧
    (∀ ev w w', P w → notifyEvent n ev w = some w' → P w') ∧
    ∀ s w w', s.opens = true → P w → transitionState n s w = some w' → P w' := by
  induction n with
  | zero =>
    refine ⟨fun c w w' _ _ h => ?_, fun ev w w' _ h => ?_, fun s w w' _ _ h => ?_⟩
    · rw [pushState] at h; cases h
    · rw [notifyEvent] at h; cases h
    · rw [transitionState] at h; cases h
  | succ n ih =>
    obtain ⟨push, event, transition⟩ := ih
    refine ⟨fun _ _ _ ne hw h => N.of_pushState_succ ne event hw h, fun _ _ _ hw h =>
      N.of_notifyEvent_succ (fun v v' => transition _ v v' opens_internalSafety) hw h,
      fun s w w' hs hw h => ?_⟩
    cases transitioned_succ h with
    | opened _ pushed => exact N.stop hs (push _ _ _ (by decide) hw pushed)
    | started | exceeded | ready => cases hs

theorem of_pushState {c : ContactorState} (ne : c ≠ .hvcLatchingMechanicalError) (hw : P w)
    (h : pushState n c w = some w') : P w' :=
  (N.keeps n).1 c w w' ne hw h

/-- Any request, the mechanical error included. -/
theorem of_request {c : ContactorState}
    (latch : P (syncCoils (w.writeContactor .hvcLatchingMechanicalError))) (hw : P w)
    (h : pushState n c w = some w') : P w' := by
  by_cases ne : c = .hvcLatchingMechanicalError
  · subst ne
    cases n with
    | zero => rw [pushState] at h; cases h
    | succ n =>
      rw [pushState_succ_of_some n w rfl] at h
      exact Option.some.inj h ▸ latch
  · exact N.of_pushState ne hw h

theorem of_notifyEvent {ev : StateControllerEvent} (hw : P w) (h : notifyEvent n ev w = some w') :
    P w' :=
  (N.keeps n).2.1 ev w w' hw h

theorem of_transitionState {s : StateControllerState} (hs : s.opens = true) (hw : P w)
    (h : transitionState n s w = some w') : P w' :=
  (N.keeps n).2.2 s w w' hs hw h

/-- The enable bit is written before the event. -/
theorem of_pushTractiveEnable {newVal : Bool} (written : P (writeTractiveEnable newVal w))
    (h : pushTractiveEnable n newVal w = some w') : P w' := by
  by_cases changed : (newVal != w.tractivePowerEnableBit) = true
  · rw [pushTractiveEnable_of_changed changed] at h
    exact N.of_notifyEvent written h
  · rw [pushTractiveEnable_of_same changed] at h
    exact Option.some.inj h ▸ written

end Nested

/-- The callback makes a transition or does nothing. -/
theorem prechargeTimerFire_cases (h : prechargeTimerFire n w = some w') :
    (w.currentState = .scsStartedPrecharge ∧
        transitionState n .scsPrechargeMinimumTimeExceeded w = some w') ∨
      (w.currentState ≠ .scsStartedPrecharge ∧ w' = w) := by
  by_cases started : w.currentState = .scsStartedPrecharge
  · rw [prechargeTimerFire, if_pos started] at h
    exact .inl ⟨started, h⟩
  · rw [prechargeTimerFire_of_ne started] at h
    exact .inr ⟨started, (Option.some.inj h).symm⟩

theorem sync_enable (w : World) (c : ContactorState) :
    (syncCoils (w.writeContactor c)).tractivePowerEnableBit = w.tractivePowerEnableBit := by
  rw [syncCoils_enable, World.writeContactor_enable]

theorem nested_enable (b : Bool) : Nested fun w => w.tractivePowerEnableBit = b where
  event _ h := h
  signal h := h
  sync _ h := (sync_enable _ _).trans h
  stop _ h := h

theorem nested_acts (w : World) : Nested (Acts w) where
  event _ h := h.emit rfl
  signal h := h.emit rfl
  sync follows h := h.trans (Act.sync follows).acts
  stop _ h := (h.emit rfl).writeState _

theorem transitionState_acts {s : StateControllerState} (h : transitionState n s w = some w') :
    Acts w w' := by
  obtain ⟨m, made⟩ := transitioned h
  cases made with
  | opened _ pushed =>
    have first := (nested_acts w).of_pushState (by decide) (.refl w) pushed
    exact (first.emit rfl).writeState s
  | started pushed =>
    have first := (nested_acts w).of_pushState (by decide) (.refl w) pushed
    exact (first.emit rfl).writeState _
  | exceeded => exact (Acts.refl w).writeState _
  | ready pushed =>
    have first := (nested_acts w).of_pushState (by decide) (.refl w) pushed
    exact first.writeState _

/-! ## Steps -/

/-- What the transitions of a step keep, the step keeps. -/
theorem step_rule {P : World → Prop} {pins : Pins}
    (transition : ∀ s v v', StepEnters v s → P v → transitionState n s v = some v' → P v') (hw : P w)
    (h : stateMachineProcessStep n pins w = some w') : P w' := by
  have closed : StepClosed fun v f => P v → ∀ v', f n = some v' → P v' :=
    { stay := fun v hv v' same => Option.some.inj same ▸ hv
      enter := fun enters hv v' made => transition _ _ v' enters hv made
      bind := by
        intro v s g enters second hv v' made
        rw [Option.bind_eq_bind, Option.bind_eq_some_iff] at made
        obtain ⟨u, hu, after⟩ := made
        exact second u (transitionState_currentState hu) (transition _ _ u enters hv hu) v' after }
  exact closed.step pins w hw w' h

theorem transitionState_enable {s : StateControllerState} (h : transitionState n s w = some w') :
    w'.tractivePowerEnableBit = w.tractivePowerEnableBit := by
  obtain ⟨m, made⟩ := transitioned h
  cases made with
  | opened _ pushed | started pushed | ready pushed =>
    have kept := (nested_enable w.tractivePowerEnableBit).of_pushState (by decide) rfl pushed
    exact kept
  | exceeded => rfl

theorem step_enable {pins : Pins} (h : stateMachineProcessStep n pins w = some w') :
    w'.tractivePowerEnableBit = w.tractivePowerEnableBit :=
  step_rule (P := fun v => v.tractivePowerEnableBit = w.tractivePowerEnableBit)
    (fun _ _ _ _ same made => (transitionState_enable made).trans same) rfl h

/-! ## Calls -/

theorem step_acts {pins : Pins} (h : stateMachineProcessStep n pins w = some w') : Acts w w' :=
  step_rule (P := Acts w) (fun _ _ _ _ first made => first.trans (transitionState_acts made))
    (.refl w) h

/-- The calls that write the contactor state otherwise. -/
def Call.setsContactors : Call → Bool
  | contactorControllerInitialise | pushState .hvcLatchingMechanicalError => true
  | _ => false

theorem Call.setsContactors_of_afterBoot {c : Call} (h : c.afterBoot = true) :
    c.setsContactors = false := by
  cases c <;> first | rfl | cases h

/-- Every other call is a sequence of actions. -/
theorem Call.Step.acts {c : Call} (made : c.Step w w') (hc : c.setsContactors = false) :
    Acts { w with trace := [] } w' := by
  obtain ⟨N, hN⟩ := made
  have h := hN N le_rfl
  cases c with
  | stateControllerInitialise => exact transitionState_acts h
  | contactorControllerInitialise => cases hc
  | stateMachineProcessStep pins => exact step_acts h
  | pushTractiveEnable newVal =>
    have written : Acts { w with trace := [] }
        (StateController.writeTractiveEnable newVal { w with trace := [] }) :=
      (Act.writeEnable newVal).acts
    exact (nested_acts _).of_pushTractiveEnable written h
  | writeTractiveEnable newVal => exact Option.some.inj h ▸ (Act.writeEnable newVal).acts
  | notifyEvent ev => exact (nested_acts _).of_notifyEvent (.refl _) h
  | prechargeTimerFire =>
    rcases prechargeTimerFire_cases h with ⟨-, made⟩ | ⟨-, rfl⟩
    · exact transitionState_acts made
    · exact .refl _
  | pushState newState =>
    have ne : newState ≠ .hvcLatchingMechanicalError := by
      rintro rfl
      cases hc
    exact (nested_acts _).of_pushState ne (.refl _) h

end Ams
