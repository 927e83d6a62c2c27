import Ams.Controller.Requests
import Ams.Controller.Checks
import Ams.Lib.Signal

/-!
# The phases of the tractive system

Once the start-up is over, the state machine and the contactors move together: a phase names the
pair they are in, and `Phase.next` and `Phase.effects` say what each stimulus does to it.
`Phase.Outcome` lists the ways in which that can go; the facts about one step are read off the list.
In every phase but one the state machine reports what the contactors do.  In `stranded` it reports
race ready while the contactors are open; the only way there is a precharge that completes in a step
that has already found a safety input bad (`Phase.Outcome.overrides`).
-/

namespace Ams

open Reactive StateController

inductive Phase where
  | latched
  | waiting (h : Hold)
  | armed
  | precharging
  | precharged
  | ready
  | stranded
  deriving DecidableEq, Repr

/-- What reaches the state machine: a step that samples the pins and the enable bit, an event, the
expiry of the precharge timer, or nothing. -/
inductive Stimulus where
  | sample (pins : Pins) (enable : Bool)
  | event (ev : StateControllerEvent)
  | expiry
  | quiet
  deriving DecidableEq, Repr

/-- The effects of a transition to `s` that opens the contactors from the state `c`. -/
def openEffects (c : ContactorState) (s : StateControllerState) : List Effect :=
  syncEffects c.drivesPrecharge c.drivesRun .hvcAllOpen ++ [.prechargeTimerStop, .stateWrite s]

/-- The effects of closing the precharge contactor. -/
def prechargeEffects : List Effect :=
  syncEffects false false .hvcPrecharge ++
    [.prechargeTimerStart prechargeMinimumTimeMillisec, .stateWrite .scsStartedPrecharge]

/-- The effects of closing the run contactor after the precharge contactor. -/
def runEffects : List Effect :=
  syncEffects true false .hvcHighCurrentRun ++ [.stateWrite .scsTractiveSystemRaceReady]

/-- The effects of asking for the run contactor when the contactors are open. -/
def refusedRunEffects : List Effect :=
  [.eventNotified .sceContactorSequenceError, .signalSet] ++ syncEffects false false .hvcAllOpen ++
    [.stateWrite .scsTractiveSystemRaceReady]

namespace Phase

def state : Phase → StateControllerState
  | latched => .scsLatchingError
  | waiting h => h.state
  | armed => .scsWaitingForPrechargeActivation
  | precharging => .scsStartedPrecharge
  | precharged => .scsPrechargeMinimumTimeExceeded
  | ready | stranded => .scsTractiveSystemRaceReady

def contactor : Phase → ContactorState
  | latched | waiting _ | armed | stranded => .hvcAllOpen
  | precharging | precharged => .hvcPrecharge
  | ready => .hvcHighCurrentRun

/-- A step of the state machine. -/
def sample (pins : Pins) (enable : Bool) : Phase → Phase
  | latched => latched
  | waiting _ =>
    match pins.hold with
    | none => if enable then latched else armed
    | some h => if enable then latched else waiting h
  | armed =>
    match pins.hold with
    | none => if enable then precharging else armed
    | some h => waiting h
  | precharging => if pins.safe then precharging else latched
  | precharged => if pins.precharged then if pins.safe then ready else stranded else latched
  | ready => if pins.safe then ready else latched
  | stranded => if pins.safe then stranded else latched

def sampleEffects (pins : Pins) (enable : Bool) : Phase → List Effect
  | latched => []
  | waiting _ =>
    match pins.hold with
    | none => openEffects .hvcAllOpen
        (if enable then .scsLatchingError else .scsWaitingForPrechargeActivation)
    | some h => openEffects .hvcAllOpen h.state ++
        if enable then openEffects .hvcAllOpen .scsLatchingError else []
  | armed =>
    match pins.hold with
    | none => if enable then prechargeEffects else []
    | some h => openEffects .hvcAllOpen h.state
  | precharged =>
    if pins.safe then
      if pins.precharged then runEffects else openEffects .hvcPrecharge .scsLatchingError
    else openEffects .hvcPrecharge .scsLatchingError ++
      if pins.precharged then refusedRunEffects else openEffects .hvcAllOpen .scsLatchingError
  | p => if pins.safe then [] else openEffects p.contactor .scsLatchingError

def next (p : Phase) : Stimulus → Phase
  | .sample pins enable => p.sample pins enable
  | .event ev => if resets ev p.state then waiting .internalSafety else p
  | .expiry => if p = precharging then precharged else p
  | .quiet => p

def effects (p : Phase) : Stimulus → List Effect
  | .sample pins enable => p.sampleEffects pins enable
  | .event ev => [.eventNotified ev] ++
      (if resets ev p.state then openEffects p.contactor .scsWaitingForInternalSafety else []) ++
      [.signalSet]
  | .expiry => if p = precharging then [.stateWrite .scsPrechargeMinimumTimeExceeded] else []
  | .quiet => []

/-- The precharge completes in a step that has already found a safety input bad. -/
def Overrides (p : Phase) (st : Stimulus) : Prop :=
  p = precharged ∧ ∃ pins enable, st = .sample pins enable ∧ pins.safe = false ∧
    pins.precharged = true

def coil (p : Phase) (k : Coil) : Bool := p.contactor.drives k

theorem allOpen_le_contactor (p : Phase) : .hvcAllOpen ≤ p.contactor := by
  cases p <;> simp only [contactor] <;> decide

theorem contactor_of_opens {p : Phase} (h : p.state.opens = true) : p.contactor = .hvcAllOpen := by
  cases p <;> first | rfl | cases h

end Phase

/-! ## The effects of the transitions -/

/-- The level that an effect writes to the coil `k`. -/
def Effect.coilLevel (k : Coil) : Effect → Option Bool
  | .coilWrite k' level => if k' = k then some level else none
  | _ => none

/-- A notification or the signal of the thread. -/
def Effect.quiet : Effect → Bool
  | .eventNotified _ | .signalSet => true
  | _ => false

/-- The effect may belong to a transition that opens the contactors. -/
def Effect.opening : Effect → Bool
  | .coilWrite _ level => !level
  | .stateWrite s => s.opens
  | .prechargeTimerStart _ => false
  | _ => true

/-- The effects are those of opening the contactors. -/
structure Opening (es : List Effect) : Prop where
  opening : ∀ e ∈ es, e.opening = true
  low : ∀ k b, level (Effect.coilLevel k) b es = false

section Effects

variable {k : Coil} {e : Effect} {es fs : List Effect} {ev : StateControllerEvent}
  {s : StateControllerState} {c : ContactorState} {precharge run : Bool}

theorem coilLevel_eq_some {b : Bool} : e.coilLevel k = some b ↔ e = .coilWrite k b := by
  cases e <;> simp [Effect.coilLevel]

theorem coilLevel_of_quiet (h : e.quiet = true) : e.coilLevel k = none := by
  cases e <;> first | rfl | cases h

theorem stateWrite_not_mem_syncEffects : .stateWrite s ∉ syncEffects precharge run c := by
  unfold syncEffects
  split_ifs <;> simp

theorem eventNotified_not_mem_syncEffects : .eventNotified ev ∉ syncEffects precharge run c := by
  unfold syncEffects
  split_ifs <;> simp

theorem level_syncEffects {b : Bool} :
    level (Effect.coilLevel k) b (syncEffects precharge run c) = c.drives k := by
  cases k <;> unfold syncEffects <;> split_ifs <;>
    simp [level, Effect.coilLevel, ContactorState.drives]

theorem opening_syncEffects : ∀ e ∈ syncEffects precharge run .hvcAllOpen, e.opening = true := by
  cases precharge <;> cases run <;> decide

theorem opening_openEffects (h : s.opens = true) : Opening (openEffects c s) where
  opening e he := by
    simp only [openEffects, List.mem_append, List.mem_cons, List.not_mem_nil, or_false] at he
    rcases he with he | rfl | rfl
    · exact opening_syncEffects e he
    · rfl
    · exact h
  low k b := by
    rw [openEffects, level_append, level_syncEffects]
    cases k <;> rfl

/-- Opening the contactors twice. -/
theorem Opening.append (first : Opening es) (second : Opening fs) : Opening (es ++ fs) where
  opening e he := (List.mem_append.1 he).elim (first.opening e) (second.opening e)
  low k b := by rw [level_append, second.low]

/-- Opening the contactors within the handling of an event. -/
theorem Opening.notified (h : Opening es) :
    Opening ([.eventNotified ev] ++ es ++ [.signalSet]) where
  opening e he := by
    simp only [List.mem_append, List.mem_singleton] at he
    rcases he with (rfl | he) | rfl
    · rfl
    · exact h.opening e he
    · rfl
  low k b := by
    rw [level_append, level_append, h.low]
    rfl

theorem eventNotified_not_mem_openEffects : .eventNotified ev ∉ openEffects c s := by
  simp [openEffects, eventNotified_not_mem_syncEffects]

end Effects

/-! ## What a stimulus can do -/

namespace Phase

/-- The ways in which a stimulus takes a phase to the next one, with its effects. -/
inductive Outcome : Phase → Stimulus → Phase → List Effect → Prop where
  | stays {p : Phase} {st : Stimulus} {es : List Effect} : (∀ e ∈ es, e.quiet = true) →
      (∀ ev, .eventNotified ev ∈ es ↔ st = .event ev) → Outcome p st p es
  | opens {p q : Phase} {st : Stimulus} {es : List Effect} : q.state.opens = true → Opening es →
      (∀ ev, .eventNotified ev ∈ es ↔ st = .event ev) →
      (q = armed →
        (∃ hold, p = waiting hold) ∧ ∃ pins, st = .sample pins false ∧ pins.safe = true) →
      Outcome p st q es
  | starts {pins : Pins} : pins.safe = true →
      Outcome armed (.sample pins true) precharging prechargeEffects
  | expires : Outcome precharging .expiry precharged [.stateWrite .scsPrechargeMinimumTimeExceeded]
  | completes {pins : Pins} {enable : Bool} : pins.safe = true → pins.precharged = true →
      Outcome precharged (.sample pins enable) ready runEffects
  | strands {pins : Pins} {enable : Bool} : pins.safe = false → pins.precharged = true →
      Outcome precharged (.sample pins enable) stranded
        (openEffects .hvcPrecharge .scsLatchingError ++ refusedRunEffects)

theorem outcome_idle {p : Phase} {st : Stimulus} (h : ∀ ev, st ≠ .event ev) :
    Outcome p st p [] :=
  .stays (by simp) fun ev => iff_of_false (by simp) (h ev)

section Samples

variable {p : Phase} {pins : Pins} {enable : Bool}

theorem outcome_opens (q : Phase) (hq : q.state.opens = true) (ne : q ≠ armed) (c : ContactorState) :
    Outcome p (.sample pins enable) q (openEffects c q.state) :=
  .opens hq (opening_openEffects hq) (fun _ => iff_of_false eventNotified_not_mem_openEffects nofun)
    fun h => absurd h ne

/-- The state machine opens the contactors and then latches. -/
theorem outcome_latches {s : StateControllerState} (hs : s.opens = true) (c c' : ContactorState) :
    Outcome p (.sample pins enable) latched
      (openEffects c s ++ openEffects c' .scsLatchingError) := by
  have twice := (opening_openEffects (c := c) hs).append
    (opening_openEffects (c := c') (s := .scsLatchingError) rfl)
  refine .opens rfl twice (fun ev => iff_of_false ?_ nofun) nofun
  simp [eventNotified_not_mem_openEffects]

theorem outcome_waiting (hold : Hold) : Outcome (waiting hold) (.sample pins enable)
    ((waiting hold).sample pins enable) ((waiting hold).sampleEffects pins enable) := by
  simp only [sample, sampleEffects]
  cases held : pins.hold with
  | none =>
    cases enable with
    | true => exact outcome_opens latched rfl nofun _
    | false =>
      exact .opens rfl (opening_openEffects rfl)
        (fun _ => iff_of_false eventNotified_not_mem_openEffects nofun)
        fun _ => ⟨⟨hold, rfl⟩, pins, rfl, (pins.hold_eq_none_iff).1 held⟩
  | some hold' =>
    cases enable with
    | true => exact outcome_latches hold'.opens_state _ _
    | false =>
      simp only [Bool.false_eq_true, if_false, List.append_nil]
      exact outcome_opens (waiting hold') hold'.opens_state nofun _

theorem outcome_armed : Outcome armed (.sample pins enable) (armed.sample pins enable)
    (armed.sampleEffects pins enable) := by
  simp only [sample, sampleEffects]
  cases held : pins.hold with
  | none =>
    cases enable with
    | true => exact .starts ((pins.hold_eq_none_iff).1 held)
    | false => exact outcome_idle nofun
  | some hold => exact outcome_opens (waiting hold) hold.opens_state nofun _

theorem outcome_precharged : Outcome precharged (.sample pins enable)
    (precharged.sample pins enable) (precharged.sampleEffects pins enable) := by
  simp only [sample, sampleEffects]
  by_cases done : pins.precharged = true <;> by_cases safe : pins.safe = true <;>
    simp only [done, safe, if_true]
  · exact .completes safe done
  · exact .strands (by simpa using safe) done
  · exact outcome_opens latched rfl nofun _
  · exact outcome_latches rfl _ _

end Samples

theorem outcome_sample (p : Phase) (pins : Pins) (enable : Bool) :
    Outcome p (.sample pins enable) (p.sample pins enable) (p.sampleEffects pins enable) := by
  cases p with
  | latched => exact outcome_idle nofun
  | waiting hold => exact outcome_waiting hold
  | armed => exact outcome_armed
  | precharged => exact outcome_precharged
  | precharging | ready | stranded =>
    simp only [sample, sampleEffects]
    split_ifs
    · exact outcome_idle nofun
    · exact outcome_opens latched rfl nofun _

/-- Every stimulus has one of the outcomes. -/
theorem outcome (p : Phase) (st : Stimulus) : Outcome p st (p.next st) (p.effects st) := by
  cases st with
  | sample pins enable => exact p.outcome_sample pins enable
  | quiet => exact outcome_idle nofun
  | expiry =>
    simp only [next, effects]
    split_ifs with hp
    · rw [hp]
      exact .expires
    · exact outcome_idle nofun
  | event ev =>
    have same (ev' : StateControllerEvent) : ev' = ev ↔ ev = ev' := eq_comm
    simp only [next, effects]
    split_ifs
    · refine .opens rfl (opening_openEffects opens_internalSafety).notified (fun ev' => ?_) nofun
      simp [eventNotified_not_mem_openEffects, same]
    · exact .stays (by simp [Effect.quiet]) fun ev' => by simp [same]

variable {p q : Phase} {st : Stimulus} {es : List Effect} {ev : StateControllerEvent}

theorem next_of_overrides (h : p.Overrides st) : p.next st = stranded := by
  obtain ⟨rfl, pins, enable, rfl, bad, done⟩ := h
  simp [next, sample, bad, done]

/-- Only a completion with a bad safety input strands the state machine. -/
theorem Outcome.overrides (o : Outcome p st q es) (hp : p ≠ stranded) (hq : q = stranded) :
    p.Overrides st := by
  cases o with
  | stays => exact absurd hq hp
  | opens open_ => rw [hq] at open_; cases open_
  | strands bad done => exact ⟨rfl, _, _, rfl, bad, done⟩
  | starts | expires | completes => cases hq

/-- An event is handled when it is delivered, and the sequence error also in a step that overrides a
bad safety input. -/
theorem Outcome.notified (o : Outcome p st q es) (h : .eventNotified ev ∈ es) :
    st = .event ev ∨ p.Overrides st ∧ ev = .sceContactorSequenceError := by
  cases o with
  | stays _ events => exact .inl ((events ev).1 h)
  | opens _ _ events => exact .inl ((events ev).1 h)
  | strands bad done =>
    refine .inr ⟨⟨rfl, _, _, rfl, bad, done⟩, ?_⟩
    simpa [refusedRunEffects, eventNotified_not_mem_openEffects, eventNotified_not_mem_syncEffects]
      using h
  | starts => simp [prechargeEffects, eventNotified_not_mem_syncEffects] at h
  | completes => simp [runEffects, eventNotified_not_mem_syncEffects] at h
  | expires => simp at h

theorem event_notified (p : Phase) (ev : StateControllerEvent) :
    .eventNotified ev ∈ p.effects (.event ev) := by
  simp [effects]

theorem Overrides.notifies (h : p.Overrides st) :
    .eventNotified .sceContactorSequenceError ∈ p.effects st := by
  obtain ⟨rfl, pins, enable, rfl, bad, done⟩ := h
  simp [effects, sampleEffects, refusedRunEffects, bad, done]

/-- An error event leaves no energised state. -/
theorem next_error (p : Phase) (h : ev.isError = true) :
    (p.next (.event ev)).contactor = .hvcAllOpen ∧
      (p.next (.event ev)).state ≤ .scsWaitingForInternalSafety := by
  simp only [next, resets_of_isError h]
  split_ifs with high
  · exact ⟨rfl, by decide⟩
  · cases p with
    | latched => exact ⟨rfl, by decide⟩
    | waiting hold => cases hold <;> first | exact ⟨rfl, by decide⟩ | exact absurd (by decide) high
    | _ => exact absurd (by decide) high

end Phase

/-- The phases as a system of their own. -/
def phases : System Phase Stimulus where
  init p := p = .waiting .internalSafety
  step p st q := q = p.next st

end Ams
