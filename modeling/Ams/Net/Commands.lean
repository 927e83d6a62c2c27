import Ams.Controller.Actions
import Ams.Net.Dispatch
import Ams.Tractive.Disable
import Mathlib.Data.List.Chain

/-!
# Commands and driver events

The CAN task dispatches one message after another: it writes the enable bit, notifies a change of it
and sets `performConversions`, while the other tasks run between these parts.  `bus` puts the parts
around `tasks`.  The levels follow the last command, and the driver events are its edges
(`levels_of_run`), so a message that repeats the last command or is none has no effect
(`Inserts.sameOutputs`).
-/

namespace Ams

open Reactive StateController StateControllerEvent

/-- The tasks, with the CAN task within a message. -/
structure Bus where
  tasks : Tasks
  performConversions : Bool
  /-- what the message being dispatched has still to pass to `set_conversions_enable` -/
  conversions : Option Bool

inductive BusAction where
  /-- a message is passed to `dispatch_message`, which writes the enable bit -/
  | dispatch (msg : CANMessage)
  /-- the event of a change of the bit -/
  | canNotify
  | setConversions
  /-- an action of another task -/
  | other (a : Action)
  deriving DecidableEq, Repr

/-- The actions of the other tasks: their events are errors. -/
def Action.ofOthers : Action → Bool
  | canWrite _ | canNotify => false
  | notifyEvent ev => ev.isError
  | _ => true

/-- No effects yet. -/
def Tasks.quiet (s : Tasks) : Tasks := { s with world := { s.world with trace := [] } }

inductive BusStep : Bus → BusAction → Bus → Prop where
  | command {s : Bus} {t : Tasks} {msg : CANMessage} : s.conversions = none → msg.IsCommand →
      TaskStep s.tasks (.canWrite msg.enTr) t →
      BusStep s (.dispatch msg) { s with tasks := t, conversions := some (!msg.disCnv) }
  | ignored {s : Bus} {msg : CANMessage} : s.conversions = none → ¬ msg.IsCommand →
      BusStep s (.dispatch msg) { s with tasks := s.tasks.quiet }
  | canNotify {s : Bus} {t : Tasks} : TaskStep s.tasks .canNotify t →
      BusStep s .canNotify { s with tasks := t }
  | setConversions {s : Bus} {en : Bool} : s.conversions = some en → s.tasks.pending = none →
      BusStep s .setConversions ⟨s.tasks.quiet, en, none⟩
  | other {s : Bus} {t : Tasks} {a : Action} : a.ofOthers = true → TaskStep s.tasks a t →
      BusStep s (.other a) { s with tasks := t }

/-- The tasks after the start-up, with no message being dispatched. -/
def bus : System Bus BusAction where
  init s := Booted s.tasks.world ∧ s.tasks.sampled = none ∧ s.tasks.pending = none ∧
    s.conversions = none
  step := BusStep

/-! ## What has been commanded and notified -/

/-- The command among the messages of an action, if it is one. -/
def BusAction.command : BusAction → Option CANMessage
  | dispatch msg => if msg.IsCommand then some msg else none
  | _ => none

/-- The commands dispatched in a run. -/
def commands (ts : List (Transition Bus BusAction)) : List CANMessage :=
  ts.filterMap fun τ => τ.label.command

/-- The event of an effect that notifies the driver. -/
def Effect.driverEvent : Effect → Option StateControllerEvent
  | .eventNotified ev => if ev.isError then none else some ev
  | _ => none

/-- The driver events notified in a run. -/
def driverEvents (ts : List (Transition Bus BusAction)) : List StateControllerEvent :=
  ts.flatMap fun τ => τ.dst.tasks.world.trace.filterMap Effect.driverEvent

/-- The events of the changes in a sequence of levels that begins at `b`. -/
def edges (b : Bool) : List Bool → List StateControllerEvent
  | [] => []
  | c :: cs => (if c != b then [driverEvent c] else []) ++ edges c cs

/-- The level after a sequence of levels that begins at `b`. -/
def lastLevel (b : Bool) (cs : List Bool) : Bool := cs.getLast?.getD b

theorem lastLevel_cons (b c : Bool) (cs : List Bool) :
    lastLevel b (c :: cs) = lastLevel c cs := by
  simp [lastLevel, List.getLast?_cons]

theorem lastLevel_append (b : Bool) (cs ds : List Bool) :
    lastLevel b (cs ++ ds) = lastLevel (lastLevel b cs) ds := by
  induction cs generalizing b with
  | nil => rfl
  | cons c cs ih => rw [List.cons_append, lastLevel_cons, lastLevel_cons, ih]

theorem edges_append (b : Bool) (cs ds : List Bool) :
    edges b (cs ++ ds) = edges b cs ++ edges (lastLevel b cs) ds := by
  induction cs generalizing b with
  | nil => rfl
  | cons c cs ih => rw [List.cons_append, edges, edges, ih, lastLevel_cons, List.append_assoc]

theorem driverEvent_injective {b c : Bool} (h : driverEvent b = driverEvent c) : b = c := by
  cases b <;> cases c <;> first | rfl | cases h

/-- The first edge goes away from the level at the beginning. -/
theorem head_edges {b : Bool} {cs : List Bool} {ev : StateControllerEvent}
    (h : (edges b cs).head? = some ev) : ev = driverEvent !b := by
  induction cs with
  | nil => cases h
  | cons c cs ih =>
    by_cases changed : (c != b) = true
    · rw [edges, if_pos changed] at h
      obtain rfl : c = !b := by cases b <;> cases c <;> first | rfl | cases changed
      exact (Option.some.inj h).symm
    · rw [edges, if_neg changed, List.nil_append] at h
      obtain rfl : c = b := by simpa using changed
      exact ih h

/-- Edges alternate. -/
theorem edges_alternate (b : Bool) (cs : List Bool) : (edges b cs).IsChain (· ≠ ·) := by
  induction cs generalizing b with
  | nil => exact .nil
  | cons c cs ih =>
    rw [edges]
    split_ifs
    · rw [List.singleton_append, List.isChain_cons]
      refine ⟨fun ev hev same => ?_, ih c⟩
      rw [head_edges hev] at same
      have opposite := driverEvent_injective same
      cases c <;> cases opposite
    · exact ih c

/-! ## The driver events of a step -/

variable {p q : Phase} {st : Stimulus} {es : List Effect} {s t : Tasks} {a : Action}

theorem filterMap_driverEvent_eq_nil (errors : ∀ ev, .eventNotified ev ∈ es → ev.isError = true) :
    es.filterMap Effect.driverEvent = [] := by
  refine List.filterMap_eq_nil_iff.2 fun e he => ?_
  cases e with
  | eventNotified ev => exact if_pos (errors ev he)
  | _ => rfl

/-- The driver event of a stimulus, if it is one. -/
def Stimulus.driverEvent : Stimulus → Option StateControllerEvent
  | .event ev => if ev.isError then none else some ev
  | _ => none

theorem filterMap_driverEvent_openEffects (c : ContactorState) (s : StateControllerState) :
    (openEffects c s).filterMap Effect.driverEvent = [] :=
  filterMap_driverEvent_eq_nil fun _ h => absurd h eventNotified_not_mem_openEffects

/-- A stimulus notifies the driver event that it is. -/
theorem Phase.filterMap_driverEvent_effects (p : Phase) (st : Stimulus) :
    (p.effects st).filterMap Effect.driverEvent = st.driverEvent.toList := by
  have errors (delivered : ∀ ev, st ≠ .event ev) :
      (p.effects st).filterMap Effect.driverEvent = [] := by
    refine filterMap_driverEvent_eq_nil fun ev h => ?_
    rcases (p.outcome st).notified h with rfl | ⟨-, rfl⟩
    · exact absurd rfl (delivered ev)
    · rfl
  cases st with
  | event ev =>
    have opened : (if resets ev p.state = true then
        openEffects p.contactor .scsWaitingForInternalSafety else []).filterMap
          Effect.driverEvent = [] := by
      split_ifs
      · exact filterMap_driverEvent_openEffects _ _
      · rfl
    rw [effects, List.filterMap_append, List.filterMap_append, opened]
    simp only [List.filterMap_cons, List.filterMap_nil, Effect.driverEvent, Stimulus.driverEvent]
    cases ev.isError <;> rfl
  | sample pins enable => exact errors fun _ => Stimulus.noConfusion
  | expiry => exact errors fun _ => Stimulus.noConfusion
  | quiet => exact errors fun _ => Stimulus.noConfusion

/-! ## One action -/

/-- The bit after an action. -/
def Action.enable (s : Tasks) : Action → Bool
  | canWrite newVal => newVal
  | _ => s.world.tractivePowerEnableBit

/-- In whatever world a call is made, only the driver's write changes the bit. -/
theorem Call.enable_of_exec {n : ℕ} {c : Call} {w w' : World} (h : c.exec n w = some w') :
    w'.tractivePowerEnableBit = c.enable w := by
  cases c with
  | stateControllerInitialise => exact transitionState_enable h
  | contactorControllerInitialise => exact Option.some.inj h ▸ rfl
  | stateMachineProcessStep pins => exact step_enable h
  | writeTractiveEnable newVal => exact Option.some.inj h ▸ rfl
  | notifyEvent ev => exact (nested_enable _).of_notifyEvent rfl h
  | pushState newState => exact (nested_enable _).of_request (sync_enable w _) rfl h
  | pushTractiveEnable newVal => exact (nested_enable newVal).of_pushTractiveEnable rfl h
  | prechargeTimerFire =>
    rcases prechargeTimerFire_cases h with ⟨-, made⟩ | ⟨-, rfl⟩
    · exact transitionState_enable made
    · rfl

theorem Call.Step.enable {c : Call} {w w' : World} (made : c.Step w w') :
    w'.tractivePowerEnableBit = c.enable w := by
  obtain ⟨N, hN⟩ := made
  rw [Call.enable_of_exec (hN N le_rfl)]
  cases c <;> rfl

theorem TaskStep.enable (made : TaskStep s a t) : t.world.tractivePowerEnableBit = a.enable s := by
  cases made with
  | canWrite newVal idle made => exact made.enable
  | canNotify pending free made => exact made.enable
  | stepRead pins free => rfl
  | stepFinish sampled made => rfl
  | notifyEvent ev free made => exact made.enable
  | prechargeTimerFire free made => exact made.enable

theorem TaskStep.enable_ofOthers (made : TaskStep s a t) (ha : a.ofOthers = true) :
    t.world.tractivePowerEnableBit = s.world.tractivePowerEnableBit := by
  rw [made.enable]
  cases a with
  | canWrite newVal => cases ha
  | _ => rfl

/-- The other tasks leave the bit and the pending event alone, and notify no driver event. -/
theorem TaskStep.ofOthers (made : TaskStep s a t) (ha : a.ofOthers = true) (h : p.Shows s.world) :
    t.world.tractivePowerEnableBit = s.world.tractivePowerEnableBit ∧ t.pending = s.pending ∧
      t.world.trace.filterMap Effect.driverEvent = [] := by
  refine ⟨made.enable_ofOthers ha, ?_, ?_⟩
  · cases made with
    | canWrite newVal idle made => cases ha
    | canNotify pending free made => cases ha
    | _ => rfl
  · rw [(made.advances h).2, Phase.filterMap_driverEvent_effects]
    cases made with
    | canWrite newVal idle made => cases ha
    | canNotify pending free made => cases ha
    | stepRead pins free => rfl
    | stepFinish sampled made => simp [Action.stimulus, sampled, Stimulus.driverEvent]
    | notifyEvent ev free made =>
      have error : ev.isError = true := ha
      simp [Action.stimulus, Stimulus.driverEvent, error]
    | prechargeTimerFire free made => rfl

/-! ## Levels and edges -/

/-- From `s` to `t` the messages `msgs` have been commanded and the driver events `evs` notified. -/
structure Levels (s : Bus) (msgs : List CANMessage) (evs : List StateControllerEvent) (t : Bus) :
    Prop where
  enable : t.tasks.world.tractivePowerEnableBit =
    lastLevel s.tasks.world.tractivePowerEnableBit (msgs.map CANMessage.enTr)
  conversions : t.conversions.getD t.performConversions =
    lastLevel (s.conversions.getD s.performConversions) (msgs.map fun msg => !msg.disCnv)
  notified : evs ++ t.tasks.pending.toList = s.tasks.pending.toList ++
    edges s.tasks.world.tractivePowerEnableBit (msgs.map CANMessage.enTr)

section Levels

variable {s t u : Bus} {a : BusAction} {msgs msgs' : List CANMessage}
  {evs evs' : List StateControllerEvent} {ts : List (Transition Bus BusAction)}

theorem Levels.refl (s : Bus) : Levels s [] [] s := ⟨rfl, rfl, by simp [edges]⟩

theorem Levels.trans (first : Levels s msgs evs t) (second : Levels t msgs' evs' u) :
    Levels s (msgs ++ msgs') (evs ++ evs') u where
  enable := by rw [List.map_append, lastLevel_append, ← first.enable, second.enable]
  conversions := by rw [List.map_append, lastLevel_append, ← first.conversions, second.conversions]
  notified := by
    rw [List.map_append, edges_append, ← first.enable, ← List.append_assoc, ← first.notified,
      List.append_assoc, List.append_assoc, second.notified]

/-- An action that commands nothing keeps the levels. -/
theorem levels_uncommanded
    (enable : t.tasks.world.tractivePowerEnableBit = s.tasks.world.tractivePowerEnableBit)
    (conversions : t.conversions.getD t.performConversions = s.conversions.getD s.performConversions)
    (notified : evs ++ t.tasks.pending.toList = s.tasks.pending.toList) : Levels s [] evs t :=
  ⟨enable, conversions, by rw [notified]; simp [edges]⟩

/-- A command sets the levels, and the change of the bit is pending. -/
theorem levels_commanded {msg : CANMessage} {v : Tasks} {p : Phase} (inv : s.tasks.Inv p)
    (made : TaskStep s.tasks (.canWrite msg.enTr) v) :
    Levels s [msg] (v.world.trace.filterMap Effect.driverEvent)
      { s with tasks := v, conversions := some (!msg.disCnv) } where
  enable := made.enable
  conversions := rfl
  notified := by
    have silent : v.world.trace.filterMap Effect.driverEvent = [] := by
      rw [(made.advances inv.shows_phase).2, Action.stimulus, Phase.effects]
      rfl
    have pending : v.pending = if msg.enTr != s.tasks.world.tractivePowerEnableBit then
        some (driverEvent msg.enTr) else none := by
      cases made
      rfl
    have idle : s.tasks.pending = none := by
      cases made
      assumption
    rw [silent, pending, idle]
    simp only [List.map_cons, List.map_nil, edges, Option.toList_none, List.nil_append,
      List.append_nil]
    split_ifs <;> rfl

theorem Tasks.Inv.quiet {p : Phase} {s : Tasks} (inv : s.Inv p) : s.quiet.Inv p :=
  ⟨inv.shows_phase.cleared, inv.pending, inv.disabled⟩

/-- One action of the bus. -/
theorem BusStep.levels {p : Phase} (made : BusStep s a t) (inv : s.tasks.Inv p) :
    (∃ q, t.tasks.Inv q) ∧
      Levels s a.command.toList (t.tasks.world.trace.filterMap Effect.driverEvent) t := by
  cases made with
  | command idle command made =>
    rw [BusAction.command, if_pos command]
    exact ⟨⟨_, inv.step made⟩, levels_commanded inv made⟩
  | ignored idle other =>
    rw [BusAction.command, if_neg other]
    exact ⟨⟨p, inv.quiet⟩, levels_uncommanded rfl rfl rfl⟩
  | canNotify made =>
    refine ⟨⟨_, inv.step made⟩, levels_uncommanded made.enable rfl ?_⟩
    rw [(made.advances inv.shows_phase).2, Phase.filterMap_driverEvent_effects]
    cases made with
    | @canNotify _ ev pending free made =>
      have event := inv.pending ev pending
      have driver : ev.isError = false := by
        rw [event]
        cases s.tasks.world.tractivePowerEnableBit <;> rfl
      simp [Action.stimulus, pending, Stimulus.driverEvent, driver]
  | setConversions passed notified =>
    refine ⟨⟨p, inv.quiet⟩, levels_uncommanded rfl ?_ ?_⟩
    · rw [passed]
      rfl
    · rfl
  | other ha made =>
    obtain ⟨enable, pending, silent⟩ := made.ofOthers ha inv.shows_phase
    refine ⟨⟨_, inv.step made⟩, levels_uncommanded enable rfl ?_⟩
    rw [silent, pending]
    rfl

/-- A run of the bus. -/
theorem levels_of_run {p : Phase} (inv : s.tasks.Inv p) (run : bus.Run s ts t) :
    (∃ q, t.tasks.Inv q) ∧ Levels s (commands ts) (driverEvents ts) t := by
  induction run with
  | nil => exact ⟨⟨p, inv⟩, .refl s⟩
  | @snoc ts t u a _ made ih =>
    obtain ⟨⟨q, inv'⟩, before⟩ := ih
    obtain ⟨inv'', step⟩ := BusStep.levels made inv'
    have commanded : commands (ts ++ [⟨t, a, u⟩]) = commands ts ++ a.command.toList := by
      rw [commands, List.filterMap_append]
      cases h : a.command <;> simp [commands, h]
    have notified : driverEvents (ts ++ [⟨t, a, u⟩]) = driverEvents ts ++
        u.tasks.world.trace.filterMap Effect.driverEvent := by simp [driverEvents]
    rw [commanded, notified]
    exact ⟨inv'', before.trans step⟩

end Levels

/-! ## Messages without effect -/

/-- `ls'` is `ls` with messages inserted that repeat the last command, here `last`, or are no command.
While a repeated command is being dispatched (`true`) only the other tasks act. -/
inductive Inserts : Option CANMessage → Bool → List BusAction → List BusAction → Prop where
  | nil (last : Option CANMessage) (dispatching : Bool) : Inserts last dispatching [] []
  | keep {last : Option CANMessage} {a : BusAction} {ls ls' : List BusAction} :
      Inserts (a.command.or last) false ls ls' → Inserts last false (a :: ls) (a :: ls')
  | noCommand {last : Option CANMessage} {msg : CANMessage} {ls ls' : List BusAction} :
      ¬ msg.IsCommand → Inserts last false ls ls' →
      Inserts last false ls (.dispatch msg :: ls')
  | repeats {prev msg : CANMessage} {ls ls' : List BusAction} : msg.IsCommand →
      msg.enTr = prev.enTr → msg.disCnv = prev.disCnv → Inserts (some prev) true ls ls' →
      Inserts (some prev) false ls (.dispatch msg :: ls')
  | meanwhile {last : Option CANMessage} {a : Action} {ls ls' : List BusAction} :
      Inserts last true ls ls' → Inserts last true (.other a :: ls) (.other a :: ls')
  | finished {last : Option CANMessage} {ls ls' : List BusAction} : Inserts last false ls ls' →
      Inserts last true ls (.setConversions :: ls')

/-- The state machine, the contactors and the outputs are the same. -/
structure SameOutputs (s t : Bus) : Prop where
  currentState : s.tasks.world.currentState = t.tasks.world.currentState
  contactorState : s.tasks.world.contactorState = t.tasks.world.contactorState
  prechargeContactorCoil :
    s.tasks.world.prechargeContactorCoil = t.tasks.world.prechargeContactorCoil
  runContactorCoil : s.tasks.world.runContactorCoil = t.tasks.world.runContactorCoil
  enable : s.tasks.world.tractivePowerEnableBit = t.tasks.world.tractivePowerEnableBit
  performConversions : s.performConversions = t.performConversions

section Insertions

variable {u v : Tasks} {s t s' t' : Bus} {b : BusAction} {last : Option CANMessage}
  {dispatching : Bool} {ls ls' : List BusAction} {us vs : List (Transition Bus BusAction)}

/-- The effects of the last operation make no difference. -/
theorem TaskStep.quiet (made : TaskStep u a v) : TaskStep u.quiet a v := by
  cases made with
  | canWrite newVal idle made => exact .canWrite (s := u.quiet) newVal idle made
  | canNotify pending free made => exact .canNotify (s := u.quiet) pending free made
  | stepRead pins free => exact .stepRead (s := u.quiet) pins free
  | stepFinish sampled made => exact .stepFinish (s := u.quiet) sampled made
  | notifyEvent ev free made => exact .notifyEvent (s := u.quiet) ev free made
  | prechargeTimerFire free made => exact .prechargeTimerFire (s := u.quiet) free made

theorem TaskStep.unique {w : Tasks} (made : TaskStep u a v) (made' : TaskStep u a w) : v = w := by
  cases made with
  | canWrite newVal idle made => cases made' with
    | canWrite _ _ made' => rw [Call.step_unique _ made made']
  | canNotify pending free made => cases made' with
    | canNotify pending' _ made' =>
      obtain rfl := Option.some.inj (pending.symm.trans pending')
      rw [Call.step_unique _ made made']
  | stepRead pins free => cases made' with
    | stepRead => rfl
  | stepFinish sampled made => cases made' with
    | stepFinish sampled' made' =>
      obtain ⟨rfl, rfl⟩ := Prod.mk.inj (Option.some.inj (sampled.symm.trans sampled'))
      rw [Call.step_unique _ made made']
  | notifyEvent ev free made => cases made' with
    | notifyEvent _ _ made' => rw [Call.step_unique _ made made']
  | prechargeTimerFire free made => cases made' with
    | prechargeTimerFire _ made' => rw [Call.step_unique _ made made']

/-- Tasks that differ in the last effects at most make the same step. -/
theorem TaskStep.unique_of_quiet {w x : Tasks} (made : TaskStep u a w) (made' : TaskStep v a x)
    (same : u.quiet = v.quiet) : w = x :=
  made.quiet.unique (same ▸ made'.quiet)

/-- Two buses that differ in the last effects at most, but for a repeated command being dispatched in
the second one. -/
structure Related (last : Option CANMessage) (dispatching : Bool) (s t : Bus) : Prop where
  inv : ∃ p, s.tasks.Inv p
  tasks : s.tasks.quiet = t.tasks.quiet
  performConversions : s.performConversions = t.performConversions
  conversions : t.conversions = if dispatching then some s.performConversions else s.conversions
  idle : dispatching = true → s.conversions = none ∧ s.tasks.pending = none
  levels : ∀ msg, last = some msg → s.tasks.world.tractivePowerEnableBit = msg.enTr ∧
    s.conversions.getD s.performConversions = !msg.disCnv

theorem Related.sameOutputs (h : Related last dispatching s t) : SameOutputs s t := by
  have same {A : Type} (f : Tasks → A) (unseen : ∀ u, f u.quiet = f u) : f s.tasks = f t.tasks := by
    rw [← unseen, h.tasks, unseen]
  constructor
  · exact same (fun u => u.world.currentState) fun _ => rfl
  · exact same (fun u => u.world.contactorState) fun _ => rfl
  · exact same (fun u => u.world.prechargeContactorCoil) fun _ => rfl
  · exact same (fun u => u.world.runContactorCoil) fun _ => rfl
  · exact same (fun u => u.world.tractivePowerEnableBit) fun _ => rfl
  · exact h.performConversions

/-- The levels after an action are those of the last command. -/
theorem Related.levels_step (h : Related last dispatching s t) (made : BusStep s b s') :
    (∃ p, s'.tasks.Inv p) ∧ ∀ msg, b.command.or last = some msg →
      s'.tasks.world.tractivePowerEnableBit = msg.enTr ∧
        s'.conversions.getD s'.performConversions = !msg.disCnv := by
  obtain ⟨p, inv⟩ := h.inv
  obtain ⟨inv', levels⟩ := made.levels inv
  refine ⟨inv', fun msg hmsg => ?_⟩
  rw [levels.enable, levels.conversions]
  cases command : b.command with
  | some msg' =>
    rw [command, Option.some_or] at hmsg
    obtain rfl := Option.some.inj hmsg
    exact ⟨rfl, rfl⟩
  | none =>
    rw [command, Option.none_or] at hmsg
    exact h.levels msg hmsg

/-- The same action of both buses. -/
theorem Related.keep (h : Related last false s t) (made : BusStep s b s') (made' : BusStep t b t') :
    Related (b.command.or last) false s' t' := by
  obtain ⟨inv, levels⟩ := h.levels_step made
  have conversions : t.conversions = s.conversions := h.conversions
  cases made with
  | command idle command made => cases made' with
    | command _ _ made' =>
      refine ⟨inv, ?_, h.performConversions, rfl, fun kept => ?_, levels⟩
      · rw [made.unique_of_quiet made' h.tasks]
      · cases kept
    | ignored _ other => exact absurd command other
  | ignored idle other => cases made' with
    | command _ command _ => exact absurd command other
    | ignored _ _ =>
      exact ⟨inv, h.tasks, h.performConversions, conversions,
        fun kept => absurd kept Bool.false_ne_true, levels⟩
  | canNotify made => cases made' with
    | canNotify made' =>
      refine ⟨inv, ?_, h.performConversions, conversions, fun kept => ?_, levels⟩
      · rw [made.unique_of_quiet made' h.tasks]
      · cases kept
  | setConversions passed notified => cases made' with
    | setConversions passed' _ =>
      rw [conversions, passed] at passed'
      obtain rfl := Option.some.inj passed'
      exact ⟨inv, h.tasks, rfl, rfl, fun kept => absurd kept Bool.false_ne_true,
        levels⟩
  | other ha made => cases made' with
    | other _ made' =>
      refine ⟨inv, ?_, h.performConversions, conversions, fun kept => ?_, levels⟩
      · rw [made.unique_of_quiet made' h.tasks]
      · cases kept

/-- A message that is no command. -/
theorem Related.noCommand {msg : CANMessage} (h : Related last false s t) (no : ¬ msg.IsCommand)
    (made : BusStep t (.dispatch msg) t') : Related last false s t' := by
  cases made with
  | command _ command _ => exact absurd command no
  | ignored _ _ => exact ⟨h.inv, h.tasks, h.performConversions, h.conversions, h.idle, h.levels⟩

/-- Writing the bit as it is notifies nothing. -/
theorem TaskStep.canWrite_same {newVal : Bool} (made : TaskStep u (.canWrite newVal) v)
    (same : u.world.tractivePowerEnableBit = newVal) : v.quiet = u.quiet ∧ u.pending = none := by
  cases made with
  | canWrite _ idle made =>
    obtain rfl := Call.step_unique _ made (returns_of_eq fun _ => rfl)
    refine ⟨?_, idle⟩
    simp only [Tasks.quiet, writeTractiveEnable, ← same, bne_self_eq_false, Bool.false_eq_true,
      if_false, idle]

/-- A repeated command finds the levels as they are to be. -/
theorem Related.repeats {prev msg : CANMessage} (h : Related (some prev) false s t)
    (command : msg.IsCommand) (enTr : msg.enTr = prev.enTr) (disCnv : msg.disCnv = prev.disCnv)
    (made : BusStep t (.dispatch msg) t') : Related (some prev) true s t' := by
  obtain ⟨bit, level⟩ := h.levels prev rfl
  have conversions : t.conversions = s.conversions := h.conversions
  have same : t.tasks.world.tractivePowerEnableBit = msg.enTr := by
    rw [← h.sameOutputs.enable, bit, enTr]
  cases made with
  | ignored _ no => exact absurd command no
  | command idle _ made =>
    have idle' : s.conversions = none := conversions.symm.trans idle
    obtain ⟨unseen, pending⟩ := made.canWrite_same same
    have pending' : s.tasks.pending = none :=
      (congrArg Tasks.pending h.tasks : s.tasks.quiet.pending = _).trans pending
    rw [idle', Option.getD_none] at level
    refine ⟨h.inv, h.tasks.trans unseen.symm, h.performConversions, ?_,
      fun _ => ⟨idle', pending'⟩, h.levels⟩
    rw [if_pos rfl, level, disCnv]

/-- Another task acts while a repeated command is being dispatched. -/
theorem Related.meanwhile (h : Related last true s t) (made : BusStep s (.other a) s')
    (made' : BusStep t (.other a) t') : Related last true s' t' := by
  obtain ⟨inv, levels⟩ := h.levels_step made
  obtain ⟨none, pending⟩ := h.idle rfl
  obtain ⟨p, invSrc⟩ := h.inv
  cases made with
  | other ha made => cases made' with
    | other _ made' =>
      refine ⟨inv, ?_, h.performConversions, h.conversions, fun _ => ⟨none, ?_⟩, levels⟩
      · rw [made.unique_of_quiet made' h.tasks]
      · rw [(made.ofOthers ha invSrc.shows_phase).2.1, pending]

/-- A repeated command leaves `performConversions` as it is. -/
theorem Related.finished (h : Related last true s t) (made : BusStep t .setConversions t') :
    Related last false s t' := by
  have conversions : t.conversions = some s.performConversions := h.conversions
  obtain ⟨none, -⟩ := h.idle rfl
  cases made with
  | setConversions passed _ =>
    rw [conversions] at passed
    refine ⟨h.inv, h.tasks, Option.some.inj passed, none.symm, fun kept => ?_, h.levels⟩
    cases kept

/-- Inserted messages have no effect on the outputs. -/
theorem Inserts.sameOutputs (inserts : Inserts last dispatching ls ls')
    (h : Related last dispatching s t) (run : bus.Run s us s')
    (labels : us.map Transition.label = ls) (run' : bus.Run t vs t')
    (labels' : vs.map Transition.label = ls') : SameOutputs s' t' := by
  induction inserts generalizing s t us vs with
  | nil last dispatching =>
    obtain rfl := List.map_eq_nil_iff.1 labels
    obtain rfl := List.map_eq_nil_iff.1 labels'
    rw [run.eq_of_nil, run'.eq_of_nil]
    exact h.sameOutputs
  | keep _ ih =>
    obtain ⟨s₁, us₁, made, run, labels⟩ := run.head labels
    obtain ⟨t₁, vs₁, made', run', labels'⟩ := run'.head labels'
    exact ih (h.keep made made') run labels run' labels'
  | noCommand no _ ih =>
    obtain ⟨t₁, vs₁, made', run', labels'⟩ := run'.head labels'
    exact ih (h.noCommand no made') run labels run' labels'
  | repeats command enTr disCnv _ ih =>
    obtain ⟨t₁, vs₁, made', run', labels'⟩ := run'.head labels'
    exact ih (h.repeats command enTr disCnv made') run labels run' labels'
  | meanwhile _ ih =>
    obtain ⟨s₁, us₁, made, run, labels⟩ := run.head labels
    obtain ⟨t₁, vs₁, made', run', labels'⟩ := run'.head labels'
    exact ih (h.meanwhile made made') run labels run' labels'
  | finished _ ih =>
    obtain ⟨t₁, vs₁, made', run', labels'⟩ := run'.head labels'
    exact ih (h.finished made') run labels run' labels'

end Insertions

/-! ## Whole messages -/

/-- `push_tractive_enable` on its own is the write of the bit and, if it has changed, the event. -/
theorem push_tasks {p : Phase} {u : Tasks} (inv : u.Inv p) (free : u.sampled = none)
    (idle : u.pending = none) (newVal : Bool) :
    ∃ w v, Returns (fun n => pushTractiveEnable n newVal u.quiet.world) w ∧
      TaskStep u (.canWrite newVal) v ∧ (v.pending = none ∧ v.world = w ∨
        ∃ v', TaskStep v .canNotify v' ∧ v'.pending = none ∧ v'.world = w) := by
  have write : TaskStep u (.canWrite newVal) { u with
      world := writeTractiveEnable newVal u.quiet.world
      pending := if newVal != u.world.tractivePowerEnableBit then some (driverEvent newVal)
        else none } := .canWrite newVal idle (returns_of_eq fun _ => rfl)
  by_cases changed : (newVal != u.world.tractivePowerEnableBit) = true
  · have shown : p.Shows (writeTractiveEnable newVal u.quiet.world) :=
      inv.shows_phase.cleared.enable_written newVal
    obtain ⟨w, notified, -⟩ := shown.called (c := .notifyEvent (driverEvent newVal)) rfl
    have returned : Returns (fun n => pushTractiveEnable n newVal u.quiet.world) w := by
      simp only [pushTractiveEnable_of_changed (w := u.quiet.world) changed]
      exact notified
    exact ⟨w, _, returned, write, .inr ⟨_, .canNotify (if_pos changed) free notified, rfl, rfl⟩⟩
  · have returned : Returns (fun n => pushTractiveEnable n newVal u.quiet.world)
        (writeTractiveEnable newVal u.quiet.world) :=
      returns_of_eq fun _ => pushTractiveEnable_of_same changed
    exact ⟨_, _, returned, write, .inl ⟨if_neg changed, rfl⟩⟩

/-- `dispatch_message` on its own comes back, and is a run of the CAN task with one message. -/
theorem bus_dispatches {p : Phase} {s : Bus} (inv : s.tasks.Inv p) (free : s.tasks.sampled = none)
    (idle : s.tasks.pending = none) (done : s.conversions = none) (msg : CANMessage) :
    ∃ node ts t, Returns (fun n => CANTransceiver.dispatchMessage n msg
        ⟨s.tasks.quiet.world, s.performConversions⟩) node ∧ bus.Run s ts t ∧
      (∃ bs, ts.map Transition.label = .dispatch msg :: bs ∧
        ∀ b ∈ bs, b = .canNotify ∨ b = .setConversions) ∧
      t.tasks.quiet.world = { node.world with trace := [] } ∧
      t.performConversions = node.performConversions := by
  by_cases command : msg.IsCommand
  · obtain ⟨w, v, pushed, write, notify⟩ := push_tasks inv free idle msg.enTr
    simp only [dispatchMessage_of_isCommand command]
    have returned := pushed.map fun w => BMSController.setConversionsEnable (!msg.disCnv)
      { world := w, performConversions := s.performConversions }
    have written : bus.Run s _ _ := .single (BusStep.command done command write)
    rcases notify with ⟨pending, same⟩ | ⟨v', notify, pending, same⟩
    · exact ⟨_, _, _, returned, written.snoc (BusStep.setConversions rfl pending),
        ⟨[.setConversions], rfl, by simp⟩, by rw [← same]; rfl, rfl⟩
    · exact ⟨_, _, _, returned, (written.snoc (BusStep.canNotify notify)).snoc
        (BusStep.setConversions rfl pending), ⟨[.canNotify, .setConversions], rfl, by simp⟩,
        by rw [← same]; rfl, rfl⟩
  · simp only [dispatchMessage_of_not_isCommand command]
    have made : bus.step s (.dispatch msg) { s with tasks := s.tasks.quiet } :=
      BusStep.ignored done command
    exact ⟨_, _, _, returns_of_eq fun _ => rfl, .single made, ⟨[], rfl, by simp⟩, rfl, rfl⟩

/-! ## Commands are sampled, events are edges -/

/-- The levels are those of the last command, the driver events are the alternating edges of the
commanded bit, and messages that repeat the last command or are none change no output, wherever they
are inserted.  A message that is dispatched without the other tasks does what `dispatch_message` does
on its own. -/
theorem commands_sampled {s₀ s : Bus} {ts : List (Transition Bus BusAction)} (init : bus.init s₀)
    (run : bus.Run s₀ ts s) :
    s.tasks.world.tractivePowerEnableBit =
      lastLevel s₀.tasks.world.tractivePowerEnableBit ((commands ts).map CANMessage.enTr) ∧
    (s.conversions = none → s.performConversions =
      lastLevel s₀.performConversions ((commands ts).map fun msg => !msg.disCnv)) ∧
    driverEvents ts ++ s.tasks.pending.toList =
      edges s₀.tasks.world.tractivePowerEnableBit ((commands ts).map CANMessage.enTr) ∧
    (driverEvents ts ++ s.tasks.pending.toList).IsChain (· ≠ ·) ∧
    (∀ vs t, bus.Run s₀ vs t →
      Inserts none false (ts.map Transition.label) (vs.map Transition.label) →
      SameOutputs s t) ∧
    (s.tasks.sampled = none → s.tasks.pending = none → s.conversions = none →
      ∀ msg, ∃ node us t, Returns (fun n => CANTransceiver.dispatchMessage n msg
          ⟨s.tasks.quiet.world, s.performConversions⟩) node ∧ bus.Run s us t ∧
        (∃ bs, us.map Transition.label = .dispatch msg :: bs ∧
          ∀ b ∈ bs, b = .canNotify ∨ b = .setConversions) ∧
        t.tasks.quiet.world = { node.world with trace := [] } ∧
        t.performConversions = node.performConversions) := by
  obtain ⟨booted, sampled, pending, conversions⟩ := init
  have inv : s₀.tasks.Inv (.waiting .internalSafety) := by
    refine ⟨booted.shows_phase, fun ev hev => ?_, fun _ _ => ⟨rfl, fun pins hpins => ?_⟩⟩
    · rw [pending] at hev
      cases hev
    · rw [sampled] at hpins
      cases hpins
  obtain ⟨⟨q, inv'⟩, levels⟩ := levels_of_run inv run
  have events := levels.notified
  have level := levels.conversions
  rw [pending, Option.toList_none, List.nil_append] at events
  rw [conversions, Option.getD_none] at level
  refine ⟨levels.enable, fun idle => ?_, events, ?_, fun vs t run' inserts => ?_,
    fun free idle done => bus_dispatches inv' free idle done⟩
  · rwa [idle, Option.getD_none] at level
  · rw [events]
    exact edges_alternate _ _
  · refine inserts.sameOutputs ⟨⟨_, inv⟩, rfl, rfl, rfl, fun kept => ?_, fun _ last => ?_⟩ run rfl
      run' rfl
    · cases kept
    · cases last

/-- A standard data frame that enables the tractive system and the conversions. -/
def enableFrame : CANMessage := { extendedFrame with format := .canStandard }

/-- The bus after the start-up. -/
def Bus.idle : Bus where
  tasks := ⟨.mainDone, none, none⟩
  performConversions := true
  conversions := none

/-- One command on an idle bus, and the events it is followed by. -/
theorem commands_sampled_enabled : ∃ ts s, bus.Run .idle ts s ∧
    commands ts = [enableFrame] ∧ s.tasks.world.tractivePowerEnableBit = true ∧
    driverEvents ts ++ s.tasks.pending.toList = [sceDriverEnablesTractiveSystem] := by
  have command : enableFrame.IsCommand := by decide
  have written : bus.Run .idle _ _ := .single (BusStep.command rfl command
    (.canWrite true rfl (returns_of_eq fun _ => rfl)))
  have notified := written.snoc
    (BusStep.canNotify (.canNotify rfl rfl (Call.step_result _ fun _ => rfl)))
  have run := notified.snoc (BusStep.setConversions rfl rfl)
  obtain ⟨enable, -, events, -⟩ := commands_sampled ⟨mainDone_booted, rfl, rfl, rfl⟩ run
  exact ⟨_, _, run, rfl, enable, events⟩

end Ams
