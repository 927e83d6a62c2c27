import Ams.Contactor.Monitoring
import Ams.Lib.OneShot
import Ams.Lib.Signal
import Mathlib.Algebra.Order.Group.Nat

/-!
# Settle times

A toggle of a coil clears its `fireonce` flag and starts its error timer with the settle time, and
the callback of the timer sets the flag.  A timer that expires only queues its callback, which runs
later, and a start does not withdraw it.  A callback that was queued for an earlier toggle may
therefore set the flag of a coil that has just toggled again (`Settling.Superseded`); no other
callback does.  Timers expire and callbacks run at any time, also between two effects of an
operation.
-/

namespace Ams

open Reactive ContactorController

/-- The settle time of a coil that has been written to `level`. -/
def settleTime : Coil → Bool → ℕ
  | .precharge, level => if level then prechargeTimePullinMs else prechargeTimePulloutMs
  | .run, level => if level then runTimePullinMs else runTimePulloutMs

/-- The settle times do not depend on the level. -/
theorem settleTime_eq (k : Coil) (b c : Bool) : settleTime k b = settleTime k c := by
  cases k <;> cases b <;> cases c <;> rfl

/-- The delay with which an effect starts the error timer of the coil `k`. -/
def Effect.errorStart (k : Coil) : Effect → Option ℕ
  | .errorTimerStart k' millisec => if k' = k then some millisec else none
  | _ => none

/-! ## One operation -/

/-- The coil stays at the level `b` and its timer is left alone. -/
def Untouched (k : Coil) (b : Bool) (es : List Effect) : Prop :=
  Held (Effect.coilLevel k) b es ∧ ∀ e ∈ es, e.errorStart k = none

/-- The effects take the coil from the level `b` to the level `c`, and start its timer after they
have written it. -/
inductive Toggled (k : Coil) (b : Bool) (es : List Effect) (c : Bool) : Prop where
  | untouched : b = c → Untouched k b es → Toggled k b es c
  | restarted {pre post : List Effect} :
      es = pre ++ .errorTimerStart k (settleTime k c) :: post →
      level (Effect.coilLevel k) b pre = c → Untouched k c post → Toggled k b es c

/-- The timer is started with the settle time. -/
def Delays (k : Coil) (es : List Effect) : Prop :=
  ∀ e ∈ es, ∀ millisec, e.errorStart k = some millisec → ∀ b, millisec = settleTime k b

section Effects

variable {k : Coil} {b c d : Bool} {e : Effect} {es fs : List Effect} {w w' v : World}

theorem Untouched.nil : Untouched k b [] := ⟨by simp [Held], by simp⟩

theorem Untouched.append (first : Untouched k b es) (second : Untouched k b fs) :
    Untouched k b (es ++ fs) :=
  ⟨first.1.append second.1, fun e he => (List.mem_append.1 he).elim (first.2 e) (second.2 e)⟩

theorem Untouched.tail (h : Untouched k b (e :: es)) : Untouched k b es :=
  ⟨fun x hx => h.1 x (List.mem_cons_of_mem _ hx), fun x hx => h.2 x (List.mem_cons_of_mem _ hx)⟩

theorem untouched_of_not_ofCoils (he : e.ofCoils = false) : Untouched k b [e] := by
  cases e with
  | coilWrite coil level => cases he
  | errorTimerStart coil millisec => cases he
  | _ => simp [Untouched, Held, Effect.coilLevel, Effect.errorStart]

theorem errorStart_of_not_ofCoils (he : e.ofCoils = false) : e.errorStart k = none := by
  cases e <;> first | rfl | cases he

theorem Delays.append (first : Delays k es) (second : Delays k fs) : Delays k (es ++ fs) :=
  fun e he => (List.mem_append.1 he).elim (first e) (second e)

theorem Toggled.level_eq (h : Toggled k b es c) : level (Effect.coilLevel k) b es = c := by
  cases h with
  | untouched same held => rw [held.1.level_eq, same]
  | @restarted pre post split switched held =>
    have after : level (Effect.coilLevel k) c (.errorTimerStart k (settleTime k c) :: post) = c :=
      held.1.level_eq
    rw [split, level_append, switched, after]

theorem Toggled.append (first : Toggled k b es c) (second : Toggled k c fs d) :
    Toggled k b (es ++ fs) d := by
  cases second with
  | untouched same held =>
    subst same
    cases first with
    | untouched same held' =>
      subst same
      exact .untouched rfl (held'.append held)
    | @restarted pre post split switched held' =>
      exact .restarted (by rw [split, List.append_assoc, List.cons_append]) switched
        (held'.append held)
  | @restarted pre post split switched held =>
    refine .restarted (by rw [split, List.append_assoc]) ?_ held
    rw [level_append, first.level_eq, switched]

theorem Toggled.snoc (h : Toggled k b es c) (he : e.ofCoils = false) : Toggled k b (es ++ [e]) c :=
  h.append (.untouched rfl (untouched_of_not_ofCoils he))

/-- What is left after the first effect. -/
theorem Toggled.tail (h : Toggled k b (e :: es) c) :
    Toggled k (level (Effect.coilLevel k) b [e]) es c := by
  cases h with
  | untouched same held =>
    have stays : level (Effect.coilLevel k) b [e] = b :=
      Held.level_eq fun x hx => held.1 x (by simp_all)
    exact .untouched (stays.trans same) (stays.symm ▸ held.tail)
  | @restarted pre post split reached held =>
    cases pre with
    | nil =>
      obtain ⟨rfl, rfl⟩ := List.cons.inj split
      obtain rfl : b = c := reached
      exact .untouched rfl held
    | cons x pre =>
      obtain ⟨rfl, rfl⟩ := List.cons.inj split
      exact .restarted rfl (by rw [← reached]; rfl) held

/-- A coil whose timer is not started stays. -/
theorem Toggled.untouched_of_quiet (h : Toggled k b es c)
    (quiet : ∀ e ∈ es, e.errorStart k = none) : Untouched k b es := by
  cases h with
  | untouched same held => exact held
  | restarted split reached held =>
    have started := quiet (.errorTimerStart k (settleTime k c)) (by simp [split])
    simp [Effect.errorStart] at started

/-! ## The synchronisation of the coils -/

theorem syncCoils_fireonce (w : World) (k : Coil) : (syncCoils w).fireonce k =
    (w.fireonce k && w.coil k == w.contactorState.drives k) := by
  unfold syncCoils saveRunToggle savePrechargeToggle
  cases k <;> split_ifs <;> simp_all [World.fireonce, World.emit, writeCoils, World.coil,
    ContactorState.drives]

theorem untouched_syncEffects {c : ContactorState} (same : w.coil k = c.drives k) :
    Untouched k (w.coil k) (syncEffects (w.coil .precharge) (w.coil .run) c) := by
  unfold syncEffects
  cases k <;> split_ifs <;>
    simp_all [Untouched, Held, Effect.coilLevel, Effect.errorStart, ContactorState.drives]

theorem toggled_syncEffects (w : World) (k : Coil) (c : ContactorState) :
    Toggled k (w.coil k) (syncEffects (w.coil .precharge) (w.coil .run) c) (c.drives k) := by
  by_cases same : w.coil k = c.drives k
  · exact .untouched same (untouched_syncEffects same)
  cases k with
  | precharge =>
    have changed : (w.coil .precharge != c.drivesPrecharge) = true := bne_iff_ne.2 same
    have split : syncEffects (w.coil .precharge) (w.coil .run) c =
        [.coilWrite .precharge c.drivesPrecharge, .coilWrite .run c.drivesRun] ++
          .errorTimerStart .precharge (settleTime .precharge (c.drives .precharge)) ::
            (if w.coil .run != c.drivesRun then
              [.errorTimerStart .run (settleTime .run c.drivesRun)] else []) := by
      rw [syncEffects, if_pos changed]
      rfl
    refine .restarted split rfl ?_
    split_ifs <;> simp [Untouched, Held, Effect.coilLevel, Effect.errorStart]
  | run =>
    have changed : (w.coil .run != c.drivesRun) = true := bne_iff_ne.2 same
    have split : syncEffects (w.coil .precharge) (w.coil .run) c =
        ([.coilWrite .precharge c.drivesPrecharge, .coilWrite .run c.drivesRun] ++
          if w.coil .precharge != c.drivesPrecharge then
            [.errorTimerStart .precharge (settleTime .precharge c.drivesPrecharge)] else []) ++
          [.errorTimerStart .run (settleTime .run (c.drives .run))] := by
      rw [syncEffects, if_pos changed]
      rfl
    refine .restarted split ?_ .nil
    split_ifs <;> rfl

theorem delays_syncEffects (precharge run : Bool) (k : Coil) (c : ContactorState) :
    Delays k (syncEffects precharge run c) := by
  intro e he millisec started b
  rw [settleTime_eq k b (c.drives k)]
  unfold syncEffects at he
  cases k <;> split_ifs at he <;> simp at he <;> rcases he with rfl | rfl | rfl | rfl <;>
    simp_all [Effect.errorStart, settleTime, ContactorState.drives]

/-! ## Operations -/

/-- What an operation from `w` has done to the coil `k` when it has got to `v`. -/
structure Tracks (k : Coil) (w v : World) : Prop where
  toggled : Toggled k (w.coil k) v.trace (v.coil k)
  delays : Delays k v.trace
  fireonce : v.fireonce k = true → w.fireonce k = true ∧ Untouched k (w.coil k) v.trace

theorem Tracks.start (w : World) (k : Coil) : Tracks k w { w with trace := [] } where
  toggled := .untouched (by cases k <;> rfl) .nil
  delays := by simp [Delays]
  fireonce fired := ⟨by cases k <;> exact fired, .nil⟩

theorem Tracks.emit (h : Tracks k w v) (he : e.ofCoils = false) : Tracks k w (v.emit e) where
  toggled := by
    rw [World.emit_trace, World.emit_coil]
    exact h.toggled.snoc he
  delays := h.delays.append (by simp [Delays, errorStart_of_not_ofCoils he])
  fireonce fired := by
    obtain ⟨before, untouched⟩ := h.fireonce (by cases k <;> exact fired)
    exact ⟨before, untouched.append (untouched_of_not_ofCoils he)⟩

/-- The coils are synchronised with whatever contactor state. -/
theorem Tracks.sync (h : Tracks k w v) (c : ContactorState) :
    Tracks k w (syncCoils (v.writeContactor c)) where
  toggled := by
    have coil : (syncCoils (v.writeContactor c)).coil k = c.drives k := by cases k <;> simp <;> rfl
    rw [coil, syncCoils_trace]
    have synced := toggled_syncEffects (v.writeContactor c) k c
    rw [World.writeContactor_coil] at synced
    exact h.toggled.append synced
  delays := by
    rw [syncCoils_trace]
    exact h.delays.append (delays_syncEffects _ _ k _)
  fireonce fired := by
    rw [syncCoils_fireonce, Bool.and_eq_true, beq_iff_eq] at fired
    obtain ⟨before, untouched⟩ := h.fireonce (by cases k <;> exact fired.1)
    have stays : w.coil k = v.coil k := untouched.1.level_eq.symm.trans h.toggled.level_eq
    refine ⟨before, ?_⟩
    rw [syncCoils_trace]
    have synced := untouched_syncEffects fired.2
    rw [World.writeContactor_coil, ← stays] at synced
    exact untouched.append synced

theorem Tracks.act (h : Tracks k w v) (act : Act v w') : Tracks k w w' := by
  cases act with
  | emit he => exact h.emit he
  | writeState s =>
    have written : Tracks k w { v with currentState := s } := ⟨h.toggled, h.delays, h.fireonce⟩
    exact written.emit rfl
  | writeEnable newVal => exact ⟨h.toggled, h.delays, h.fireonce⟩
  | sync follows => exact h.sync _

/-- Every call, `initialise` and the mechanical error included. -/
theorem Call.Step.tracks {c : Call} (made : c.Step w v) (k : Coil) : Tracks k w v := by
  have start := Tracks.start w k
  cases hc : c.setsContactors with
  | false => exact (made.acts hc).invariant (fun _ _ h act => h.act act) start
  | true =>
    unfold Call.Step at made
    cases c with
    | contactorControllerInitialise =>
      obtain rfl := made.unique (returns_of_eq fun _ => rfl)
      refine ⟨start.toggled, start.delays, fun fired => ?_⟩
      cases k <;> cases fired
    | pushState newState =>
      cases newState with
      | hvcLatchingMechanicalError =>
        obtain rfl := made.unique (pushState_accepted rfl)
        exact start.sync _
      | _ => cases hc
    | _ => cases hc

end Effects

/-! ## Timers and their callbacks -/

/-- The command that an effect gives to the error timer of the coil `k`. -/
def Effect.errorCommand {T : Type*} [NatCast T] (k : Coil) (e : Effect) :
    Option (OneShot.Command T) :=
  (e.errorStart k).map fun millisec : ℕ => .start (millisec : T)

/-- An operation is under way as long as some of its effects are still to come. -/
structure Settling (T : Type*) where
  /-- what the operation leaves -/
  world : World
  rest : List Effect
  now : T
  /-- the error timers -/
  timer : Coil → OneShot T
  /-- the instants and delays of the starts that have expired and whose callbacks have not run yet,
  oldest first -/
  queued : Coil → List (T × T)
  /-- the effects so far, with their instants -/
  history : List (T × Effect)

inductive SettlingAction (T : Type*) where
  | elapse (instant : T)
  | call (c : Call)
  /-- the next effect of the operation -/
  | effect
  | expire (k : Coil)
  | toggleCb (k : Coil) (pins : Feedback)

variable {T : Type*}

namespace Settling

/-- The level of the coil output. -/
def coil (s : Settling T) (k : Coil) : Bool := level (fun x => x.2.coilLevel k) false s.history

/-- The operation is still to clear the flag of `k` and to start its timer.  The two are one effect: a
callback between them sets the flag as one right after the start does, and the start leaves the flag and
the queued callbacks alone. -/
def clears (s : Settling T) (k : Coil) : Bool := s.rest.any fun e => (e.errorStart k).isSome

def performed [NatCast T] (s : Settling T) (e : Effect) (rest : List Effect) : Settling T :=
  { s with
    rest := rest
    timer := fun k => (s.timer k).advance (Effect.errorCommand k) [(s.now, e)]
    history := s.history ++ [(s.now, e)] }

/-- The timer of `k` has expired: its callback, for the start `entry`, is queued. -/
def expired (s : Settling T) (k : Coil) (entry : T × T) : Settling T :=
  { s with
    timer := Function.update s.timer k .idle
    queued := Function.update s.queued k (s.queued k ++ [entry]) }

/-- The first queued callback of `k` has run. -/
def fired (s : Settling T) (k : Coil) (pins : Feedback) (waiting : List (T × T)) : Settling T :=
  { s with
    -- the operation clears the flag after the callback has set it
    world := if s.clears k then s.world else toggleCb k pins s.world
    queued := Function.update s.queued k waiting }

variable {s : Settling T} {k k' : Coil} {pins : Feedback} {waiting : List (T × T)}

theorem clears_eq_false : s.clears k = false ↔ ∀ e ∈ s.rest, e.errorStart k = none := by
  simp [clears]

@[simp]
theorem coil_performed [NatCast T] (s : Settling T) (e : Effect) (rest : List Effect) :
    (s.performed e rest).coil k = level (Effect.coilLevel k) (s.coil k) [e] := level_append

@[simp]
theorem expired_timer (entry : T × T) :
    (s.expired k entry).timer = Function.update s.timer k .idle := rfl

@[simp]
theorem expired_queued (entry : T × T) :
    (s.expired k entry).queued = Function.update s.queued k (s.queued k ++ [entry]) := rfl

@[simp]
theorem fired_queued : (s.fired k pins waiting).queued = Function.update s.queued k waiting := rfl

@[simp]
theorem fired_world_coil : (s.fired k pins waiting).world.coil k' = s.world.coil k' := by
  unfold fired
  split_ifs <;> cases k <;> cases k' <;> rfl

@[simp]
theorem fired_fireonce : (s.fired k pins waiting).world.fireonce k' =
    (decide (k = k') && !s.clears k || s.world.fireonce k') := by
  unfold fired
  split_ifs with h <;> simp only [h] <;> cases k <;> cases k' <;> rfl

end Settling

section System

variable [Preorder T] [Add T] [NatCast T]

inductive SettlingStep : Settling T → SettlingAction T → Settling T → Prop where
  | elapse {s : Settling T} (instant : T) : s.now ≤ instant →
      SettlingStep s (.elapse instant) { s with now := instant }
  | call {s : Settling T} {c : Call} {w : World} : s.rest = [] → c.Step s.world w →
      SettlingStep s (.call c) { s with world := w, rest := w.trace }
  | effect {s : Settling T} {e : Effect} {rest : List Effect} : s.rest = e :: rest →
      SettlingStep s .effect (s.performed e rest)
  | expire {s : Settling T} {k : Coil} {start delay : T} :
      (s.timer k).pending = some (start, delay) → start + delay ≤ s.now →
      SettlingStep s (.expire k) (s.expired k (start, delay))
  | toggleCb {s : Settling T} {k : Coil} {entry : T × T} {waiting : List (T × T)}
      (pins : Feedback) : s.queued k = entry :: waiting →
      SettlingStep s (.toggleCb k pins) (s.fired k pins waiting)

/-- Operations of any kind at any time, one after another, with the timers and their callbacks going
on meanwhile.  At first the coils are off and the flags cleared. -/
def settling : System (Settling T) (SettlingAction T) where
  init s := s.rest = [] ∧ s.history = [] ∧ ∀ k, s.world.coil k = false ∧
    s.world.fireonce k = false ∧ s.timer k = .idle ∧ s.queued k = []
  step := SettlingStep

end System

/-! ## Settled coils -/

/-- The coil has been switched on or off at the instant `t`. -/
def SwitchedAt (k : Coil) (history : List (T × Effect)) (t : T) : Prop :=
  ∃ e, Switches (fun x => x.2.coilLevel k) false history (t, e)

namespace Settling

/-- The coil has not been switched during the last settle time. -/
def Settled [LE T] [Add T] [NatCast T] (s : Settling T) (k : Coil) : Prop :=
  ∀ t, SwitchedAt k s.history t → t + (settleTime k (s.coil k) : T) ≤ s.now

/-- The next callback belongs to a start before a switch of the coil, the settle time since that
switch has not passed, and the flag that it sets will not be cleared. -/
def Superseded [LT T] [LE T] [Add T] [NatCast T] (s : Settling T) (k : Coil) : Prop :=
  s.clears k = false ∧ ∃ start delay waiting t, s.queued k = (start, delay) :: waiting ∧
    SwitchedAt k s.history t ∧ start < t ∧ ¬ t + (settleTime k (s.coil k) : T) ≤ s.now

/-- A set flag is the flag of a settled coil.  The flag of a coil that the operation under way
toggles counts as cleared already. -/
def Sound [LE T] [Add T] [NatCast T] (s : Settling T) : Prop :=
  ∀ k, s.world.fireonce k = true → s.Settled k

/-! ## The invariant -/

section Invariant

variable [Preorder T] [Add T] [NatCast T] {s s' : Settling T} {a : SettlingAction T} {k : Coil}
  {w : World} {e : Effect} {rest : List Effect}

structure Inv (k : Coil) (s : Settling T) : Prop where
  toggled : Toggled k (s.coil k) s.rest (s.world.coil k)
  delays : Delays k s.rest
  flagged : s.world.fireonce k = true → s.clears k = false
  pending : ∀ start delay, (s.timer k).pending = some (start, delay) →
    ∀ b, delay = (settleTime k b : T)
  queued : ∀ entry ∈ s.queued k, (∀ b, entry.2 = (settleTime k b : T)) ∧
    entry.1 + entry.2 ≤ s.now

theorem Inv.init (h : settling.init s) (k : Coil) : s.Inv k := by
  obtain ⟨finished, none, start⟩ := h
  obtain ⟨off, unset, idle, empty⟩ := start k
  refine ⟨?_, by simp [finished, Delays], by simp [unset], by simp [idle, OneShot.idle],
    by simp [empty]⟩
  rw [finished, off, coil, none]
  exact .untouched rfl .nil

theorem Inv.elapse (inv : s.Inv k) {instant : T} (later : s.now ≤ instant) :
    Inv k { s with now := instant } where
  toggled := inv.toggled
  delays := inv.delays
  flagged := inv.flagged
  pending := inv.pending
  queued entry mem := (inv.queued entry mem).imp_right fun due => due.trans later

theorem Inv.call (inv : s.Inv k) (finished : s.rest = []) {c : Call} (made : c.Step s.world w) :
    Inv k { s with world := w, rest := w.trace } where
  toggled := by
    have level := inv.toggled.level_eq
    rw [finished] at level
    have toggled := (made.tracks k).toggled
    rwa [← level] at toggled
  delays := (made.tracks k).delays
  flagged fired := clears_eq_false.2 ((made.tracks k).fireonce fired).2.2
  pending := inv.pending
  queued := inv.queued

theorem Inv.effect (inv : s.Inv k) (first : s.rest = e :: rest) : (s.performed e rest).Inv k where
  toggled := by
    have toggled := inv.toggled
    rw [first] at toggled
    rw [coil_performed]
    exact toggled.tail
  delays x hx := inv.delays x (first ▸ List.mem_cons_of_mem _ hx)
  flagged fired := clears_eq_false.2 fun x hx =>
    clears_eq_false.1 (inv.flagged fired) x (first ▸ List.mem_cons_of_mem _ hx)
  pending start delay pending b := by
    rcases OneShot.pending_advance pending with before | ⟨x, hx, -, started⟩
    · exact inv.pending start delay before b
    · obtain rfl := List.mem_singleton.1 hx
      obtain ⟨millisec, started, same⟩ := Option.map_eq_some_iff.1 started
      obtain rfl := inv.delays e (first ▸ List.mem_cons_self) millisec started b
      exact (OneShot.Command.start.inj same).symm
  queued := inv.queued

theorem Inv.expire (inv : s.Inv k) {k' : Coil} {start delay : T}
    (pending : (s.timer k').pending = some (start, delay)) (due : start + delay ≤ s.now) :
    (s.expired k' (start, delay)).Inv k := by
  refine ⟨inv.toggled, inv.delays, inv.flagged, fun start' delay' pending' => ?_, ?_⟩
  · rw [expired_timer] at pending'
    by_cases same : k = k'
    · simp [same, OneShot.idle] at pending'
    · rw [Function.update_of_ne same] at pending'
      exact inv.pending start' delay' pending'
  · intro entry mem
    rw [expired_queued] at mem
    by_cases same : k = k'
    · subst same
      rw [Function.update_self, List.mem_append, List.mem_singleton] at mem
      rcases mem with mem | rfl
      · exact inv.queued entry mem
      · exact ⟨inv.pending start delay pending, due⟩
    · rw [Function.update_of_ne same] at mem
      exact inv.queued entry mem

theorem Inv.toggleCb (inv : s.Inv k) {k' : Coil} {entry : T × T} {waiting : List (T × T)}
    (pins : Feedback) (first : s.queued k' = entry :: waiting) :
    (s.fired k' pins waiting).Inv k := by
  refine ⟨?_, inv.delays, fun fired => ?_, inv.pending, fun x hx => inv.queued x ?_⟩
  · rw [fired_world_coil]
    exact inv.toggled
  · rw [fired_fireonce, Bool.or_eq_true, Bool.and_eq_true, decide_eq_true_iff,
      Bool.not_eq_true'] at fired
    rcases fired with ⟨rfl, free⟩ | before
    · exact free
    · exact inv.flagged before
  · by_cases same : k = k'
    · subst same
      rw [fired_queued, Function.update_self] at hx
      exact first ▸ List.mem_cons_of_mem _ hx
    · rwa [fired_queued, Function.update_of_ne same] at hx

theorem Inv.step (inv : s.Inv k) (made : SettlingStep s a s') : s'.Inv k := by
  cases made with
  | elapse instant later => exact inv.elapse later
  | call finished made => exact inv.call finished made
  | effect first => exact inv.effect first
  | expire pending due => exact inv.expire pending due
  | toggleCb pins first => exact inv.toggleCb pins first

/-! ## The flags -/

theorem Settled.of_same (settled : s.Settled k)
    (switched : ∀ t, SwitchedAt k s'.history t → SwitchedAt k s.history t)
    (later : s.now ≤ s'.now) : s'.Settled k := by
  intro t ht
  rw [settleTime_eq k _ (s.coil k)]
  exact (settled t (switched t ht)).trans later

/-- An effect that switches a coil belongs to an operation that clears the flag of the coil. -/
theorem Sound.effect (sound : s.Sound) (inv : ∀ k, s.Inv k) (first : s.rest = e :: rest) :
    (s.performed e rest).Sound := by
  intro k fired
  have untouched :=
    (inv k).toggled.untouched_of_quiet (clears_eq_false.1 ((inv k).flagged fired))
  have held : Held (fun x : T × Effect => x.2.coilLevel k) (s.coil k) [(s.now, e)] := by
    intro x hx
    obtain rfl := List.mem_singleton.1 hx
    exact untouched.1 e (first ▸ List.mem_cons_self)
  refine (sound k fired).of_same (fun t ht => ?_) (le_refl _)
  obtain ⟨x, hx⟩ := ht
  exact ⟨x, (switches_append.1 hx).resolve_right held.not_switches⟩

theorem Sound.call (sound : s.Sound) {c : Call} (made : c.Step s.world w) :
    Sound { s with world := w, rest := w.trace } := fun k fired =>
  (sound k ((made.tracks k).fireonce fired).1).of_same (fun _ ht => ht) (le_refl _)

end Invariant

section Linear

variable [LinearOrder T] [Add T] [NatCast T] {s s' : Settling T} {a : SettlingAction T} {k : Coil}

/-- A callback that sets the flag and is not superseded finds its coil settled. -/
theorem Inv.settled [AddRightMono T] (inv : s.Inv k) {entry : T × T} {waiting : List (T × T)}
    (first : s.queued k = entry :: waiting) (sets : s.clears k = false)
    (current : ¬ s.Superseded k) : s.Settled k := by
  intro t ht
  obtain ⟨waits, due⟩ := inv.queued entry (first ▸ List.mem_cons_self)
  by_contra recent
  rcases le_or_gt t entry.1 with earlier | later
  · rw [waits (s.coil k)] at due
    exact recent ((add_le_add_left earlier _).trans due)
  · exact current ⟨sets, entry.1, entry.2, waiting, t, first, ht, later, recent⟩

theorem Sound.step [AddRightMono T] (sound : s.Sound) (inv : ∀ k, s.Inv k)
    (made : SettlingStep s a s') (current : ∀ k pins, a = .toggleCb k pins → ¬ s.Superseded k) :
    s'.Sound := by
  cases made with
  | elapse instant later => exact fun k fired => (sound k fired).of_same (fun _ ht => ht) later
  | call finished made => exact sound.call made
  | effect first => exact sound.effect inv first
  | expire pending due => exact fun k fired => (sound k fired).of_same (fun _ ht => ht) (le_refl _)
  | @toggleCb k' entry waiting pins first =>
    intro k fired
    have settled : s.Settled k := by
      rw [fired_fireonce, Bool.or_eq_true, Bool.and_eq_true, decide_eq_true_iff,
        Bool.not_eq_true'] at fired
      rcases fired with ⟨rfl, sets⟩ | before
      · exact (inv k').settled first sets (current k' pins rfl)
      · exact sound k before
    exact settled.of_same (fun _ ht => ht) (le_refl _)

/-- A superseded callback sets the flag of an unsettled coil. -/
theorem not_sound_of_superseded {pins : Feedback} (made : SettlingStep s (.toggleCb k pins) s')
    (superseded : s.Superseded k) : ¬ s'.Sound := by
  obtain ⟨sets, -, -, -, t, -, switched, -, recent⟩ := superseded
  cases made with
  | toggleCb _ first => exact fun sound => recent (sound k (by simp [sets]) t switched)

end Linear

end Settling

/-- The flags are sound all through a run exactly if no superseded callback runs. -/
theorem sound_run_iff [LinearOrder T] [Add T] [NatCast T] [AddRightMono T] {s : Settling T}
    {ts : List (Transition (Settling T) (SettlingAction T))} (exec : settling.Execution ts s) :
    (∀ τ ∈ ts, τ.dst.Sound) ↔
      ∀ τ ∈ ts, ∀ k pins, τ.label = .toggleCb k pins → ¬ τ.src.Superseded k := by
  constructor
  · intro sound τ taken k pins label superseded
    obtain ⟨-, made, -⟩ := exec.reachable_of_mem taken
    rw [label] at made
    exact Settling.not_sound_of_superseded made superseded (sound τ taken)
  · intro current τ taken
    obtain ⟨before, after, rfl⟩ := List.append_of_mem taken
    obtain ⟨s₀, init, run⟩ := exec
    have started : s₀.Sound := fun k fired => by
      rw [(init.2.2 k).2.1] at fired
      cases fired
    obtain ⟨first, made, -⟩ := run.cut
    refine ((first.snoc made).invariant_of (I := fun s => s.Sound ∧ ∀ k, s.Inv k)
      (fun s a s' kept made now => ?_) (fun υ hυ => current υ ?_)
      ⟨started, Settling.Inv.init init⟩).1
    · exact ⟨kept.1.step kept.2 made now, fun k => (kept.2 k).step made⟩
    · rcases List.mem_append.1 hυ with hυ | hυ
      · exact List.mem_append_left _ hυ
      · exact List.mem_append_right _ (List.mem_cons.2 (.inl (List.mem_singleton.1 hυ)))

/-! ## A toggle soon after an expiry -/

section Perform

variable [Preorder T] [Add T] [NatCast T]

/-- All effects of the operation happen at once. -/
def Settling.finished (s : Settling T) : Settling T :=
  { s with
    rest := []
    timer := fun k => (s.timer k).advance (Effect.errorCommand k) (s.rest.map fun e => (s.now, e))
    history := s.history ++ s.rest.map fun e => (s.now, e) }

theorem Settling.finishes (s : Settling T) : ∃ us, settling.Run s us s.finished := by
  obtain ⟨world, rest, now, timer, queued, history⟩ := s
  induction rest generalizing timer history with
  | nil =>
    refine ⟨[], ?_⟩
    simp only [Settling.finished, List.map_nil, List.append_nil]
    exact .nil
  | cons e rest ih =>
    obtain ⟨us, run⟩ := ih (fun k => (timer k).advance (Effect.errorCommand k) [(now, e)])
      (history ++ [(now, e)])
    have first : settling.step ⟨world, e :: rest, now, timer, queued, history⟩ .effect _ :=
      SettlingStep.effect rfl
    have same : Settling.finished ⟨world, rest, now,
        fun k => (timer k).advance (Effect.errorCommand k) [(now, e)], queued,
        history ++ [(now, e)]⟩ =
          Settling.finished ⟨world, e :: rest, now, timer, queued, history⟩ := by
      simp [Settling.finished, OneShot.advance]
    exact ⟨_, (System.Run.single first).append (same ▸ run)⟩

/-- The call with all its effects. -/
def Settling.perform (c : Call) (s : Settling T) : Settling T :=
  Settling.finished { s with world := c.result s.world, rest := (c.result s.world).trace }

theorem Settling.performs {s : Settling T} (h : settling.Reachable s) (c : Call)
    (idle : s.rest = [])
    (enough : ∀ n, c.exec (n + 8) { s.world with trace := [] } = some (c.result s.world)) :
    settling.Reachable (s.perform c) := by
  obtain ⟨ts, exec⟩ := h
  have called := exec.snoc (SettlingStep.call idle (Call.step_result c enough))
  obtain ⟨us, run⟩ :=
    Settling.finishes { s with world := c.result s.world, rest := (c.result s.world).trace }
  exact ⟨_, called.append run⟩

end Perform

/-- The precharge contactor has been closed at instant `0`. -/
def Settling.precharging : Settling ℕ :=
  Settling.perform (.stateMachineProcessStep .allGood) <|
    Settling.perform (.pushTractiveEnable true) <|
    Settling.perform (.stateMachineProcessStep .allGood)
      ⟨.mainDone, [], 0, fun _ => .idle, fun _ => [], []⟩

/-- The settle time has passed and the callback is queued. -/
def Settling.waiting : Settling ℕ :=
  { Settling.precharging with now := prechargeTimePullinMs }.expired .precharge
    (0, prechargeTimePullinMs)

/-- A fault opens the contactor before the callback runs. -/
def Settling.reopened : Settling ℕ :=
  Settling.waiting.perform (.stateMachineProcessStep { Pins.allGood with bmsOk := false })

def staleCallback : Transition (Settling ℕ) (SettlingAction ℕ) where
  src := Settling.reopened
  label := .toggleCb .precharge ⟨false, false⟩
  dst := Settling.reopened.fired .precharge ⟨false, false⟩ []

theorem reachable_reopened : settling.Reachable Settling.reopened := by
  have start : settling.Execution []
      (⟨.mainDone, [], 0, fun _ => .idle, fun _ => [], []⟩ : Settling ℕ) :=
    .init ⟨rfl, rfl, fun k => by cases k <;> exact ⟨rfl, rfl, rfl, rfl⟩⟩
  have waited := Settling.performs start.reachable (.stateMachineProcessStep .allGood) rfl
    fun _ => rfl
  have enabled := Settling.performs waited (.pushTractiveEnable true) rfl fun _ => rfl
  have closed : settling.Reachable Settling.precharging :=
    Settling.performs enabled (.stateMachineProcessStep .allGood) rfl fun _ => rfl
  have elapsed := closed.step (SettlingStep.elapse prechargeTimePullinMs (Nat.zero_le _))
  have pending : (Settling.precharging.timer .precharge).pending =
      some (0, prechargeTimePullinMs) := rfl
  have queued : settling.Reachable Settling.waiting :=
    elapsed.step (SettlingStep.expire pending (le_refl _))
  exact Settling.performs queued (.stateMachineProcessStep { Pins.allGood with bmsOk := false })
    rfl fun _ => rfl

theorem execution_staleCallback : ∃ ts, settling.Execution (ts ++ [staleCallback])
    staleCallback.dst := by
  obtain ⟨ts, exec⟩ := reachable_reopened
  exact ⟨ts, exec.snoc (SettlingStep.toggleCb _ rfl)⟩

theorem switchedAt_reopened :
    SwitchedAt .precharge Settling.reopened.history prechargeTimePullinMs :=
  ⟨.coilWrite .precharge false, Settling.reopened.history.take 11,
    Settling.reopened.history.drop 12, rfl, rfl⟩

theorem sound_run_iff_staleCallback : ∃ ts s, settling.Execution ts s ∧
    ((∀ τ ∈ ts, τ.dst.Sound) ↔ ∀ τ ∈ ts, ∀ k pins, τ.label = .toggleCb k pins →
      ¬ (τ.src : Settling ℕ).Superseded k) := by
  obtain ⟨ts, exec⟩ := execution_staleCallback
  exact ⟨_, _, exec, sound_run_iff exec⟩

/-- The flag of the precharge coil is set less than its settle time after the coil was switched. -/
theorem not_sound_staleCallback : (∃ ts, settling.Execution (ts ++ [staleCallback])
    staleCallback.dst) ∧ ¬ staleCallback.dst.Sound := by
  refine ⟨execution_staleCallback, fun sound => ?_⟩
  have settled := sound .precharge rfl _ switchedAt_reopened
  exact absurd settled (by decide)

end Ams
