import Ams.Tractive.Enable
import Ams.Lib.OneShot
import Mathlib.Algebra.Order.Group.Nat

/-!
# The minimum precharge time

The operations of the running tasks with a clock, the precharge timer and the history of everything
they have done.  Time passes within an operation as well as between operations.  The callback of the
timer is delivered only when it is due (`OneShot.Due`), and the timer follows the start and stop
commands of the state machine.
-/

namespace Ams

open Reactive

variable {T : Type*}

/-- The command that an effect gives to the precharge timer. -/
def Effect.timerCommand [NatCast T] : Effect → Option (OneShot.Command T)
  | .prechargeTimerStart millisec => some (.start millisec)
  | .prechargeTimerStop => some .stop
  | _ => none

structure Timed (T : Type*) where
  world : World
  now : T
  timer : OneShot T
  /-- the effects of all operations so far, with their instants -/
  history : List (T × Effect)

inductive TimedAction (T : Type*) where
  | elapse (instant : T)
  | call (c : Call)
  | expire

/-- The operation has done `es` from `s.now` to `later`. -/
def Timed.after [NatCast T] (s : Timed T) (w : World) (later : T) (es : List (T × Effect)) : Timed T where
  world := w
  now := later
  timer := s.timer.advance Effect.timerCommand es
  history := s.history ++ es

section System

variable [Preorder T] [Add T] [NatCast T]

inductive TimedStep : Timed T → TimedAction T → Timed T → Prop where
  | elapse {s : Timed T} (instant : T) : s.now ≤ instant →
      TimedStep s (.elapse instant) { s with now := instant }
  | call {s : Timed T} {c : Call} {w : World} {later : T} {es : List (T × Effect)} :
      c.afterBoot = true → c ≠ .prechargeTimerFire → c.Step s.world w →
      es.map Prod.snd = w.trace → Between s.now later es →
      TimedStep s (.call c) (s.after w later es)
  | expire {s : Timed T} {w : World} {later : T} {es : List (T × Effect)} :
      s.timer.Due s.now → Call.prechargeTimerFire.Step s.world w →
      es.map Prod.snd = w.trace → Between s.now later es →
      TimedStep s .expire ({ s with timer := .idle }.after w later es)

/-- The operations after the start-up, in any order and at any instants. -/
def timed : System (Timed T) (TimedAction T) where
  init s := Booted s.world ∧ s.history = []
  step := TimedStep

end System

/-! ## Effects in the precharge -/

/-- The effect neither switches the precharge coil off nor leaves the precharge states. -/
def Effect.KeepsPrecharge (e : Effect) : Prop :=
  e.coilLevel .precharge ≠ some false ∧
    ∀ s, e = .stateWrite s → s = .scsStartedPrecharge ∨ s = .scsPrechargeMinimumTimeExceeded

/-- The precharge coil has been on since it was switched on at `t₀`, and the state machine has not
left the precharge states. -/
def PrechargeSince (history : List (T × Effect)) (t₀ : T) : Prop :=
  ∃ post, HighSince (fun e => e.2.coilLevel .precharge) false history
      (t₀, .coilWrite .precharge true) post ∧
    ∀ e ∈ post, e.2.KeepsPrecharge

variable {p q : Phase} {st : Stimulus} {t₀ : T} {history es : List (T × Effect)} {fs : List Effect}

theorem PrechargeSince.append (h : PrechargeSince history t₀)
    (keeps : ∀ e ∈ es, e.2.KeepsPrecharge) : PrechargeSince (history ++ es) t₀ := by
  obtain ⟨post, since, kept⟩ := h
  refine ⟨post ++ es, since.append fun e he => (keeps e he).1, fun e he => ?_⟩
  rcases List.mem_append.1 he with he | he
  · exact kept e he
  · exact keeps e he

theorem Effect.keepsPrecharge_of_quiet {e : Effect} (h : e.quiet = true) : e.KeepsPrecharge := by
  cases e with
  | eventNotified ev => exact ⟨nofun, nofun⟩
  | signalSet => exact ⟨nofun, nofun⟩
  | _ => cases h

/-- A stimulus that leaves an energised phase as it is does nothing else. -/
theorem Phase.Outcome.quiet_of_stays (o : Outcome p st q fs) (hp : p.state.opens = false)
    (stays : q = p) : ∀ e ∈ fs, e.quiet = true := by
  cases o with
  | stays quiet => exact quiet
  | opens open_ =>
    rw [stays, hp] at open_
    cases open_
  | starts | expires | completes | strands => cases stays

/-- The precharge begins with the closing of the contactor. -/
theorem Phase.Outcome.precharging (o : Outcome p st q fs) (hq : q = .precharging) :
    p = .precharging ∨ p.closes st = some .precharge := by
  cases o with
  | stays => exact .inl hq
  | opens open_ => rw [hq] at open_; cases open_
  | @starts pins safe => exact .inr (closes_precharge_iff.2 ⟨rfl, pins, rfl, safe⟩)
  | expires | completes | strands => cases hq

/-- Only the expiry ends the minimum time. -/
theorem Phase.Outcome.precharged (o : Outcome p st q fs) (late : st ≠ .expiry)
    (hq : q = .precharged) : p = .precharged := by
  cases o with
  | stays => exact hq
  | opens open_ => rw [hq] at open_; cases open_
  | expires => exact absurd rfl late
  | starts | completes | strands => cases hq

theorem startEffects_stamped (h : es.map Prod.snd = prechargeEffects) : ∃ t₁ t₂ t₃ t₄ t₅, es =
    [(t₁, .coilWrite .precharge true), (t₂, .coilWrite .run false),
      (t₃, .errorTimerStart .precharge prechargeTimePullinMs),
      (t₄, .prechargeTimerStart prechargeMinimumTimeMillisec),
      (t₅, .stateWrite .scsStartedPrecharge)] := by
  have unfolded : prechargeEffects = [.coilWrite .precharge true, .coilWrite .run false,
      .errorTimerStart .precharge prechargeTimePullinMs,
      .prechargeTimerStart prechargeMinimumTimeMillisec, .stateWrite .scsStartedPrecharge] := rfl
  rw [unfolded] at h
  rcases es with _ | ⟨⟨t₁, e₁⟩, _ | ⟨⟨t₂, e₂⟩, _ | ⟨⟨t₃, e₃⟩, _ | ⟨⟨t₄, e₄⟩, _ | ⟨⟨t₅, e₅⟩, es⟩⟩⟩⟩⟩ <;>
    simp at h
  obtain ⟨rfl, rfl, rfl, rfl, rfl, rfl⟩ := h
  exact ⟨t₁, t₂, t₃, t₄, t₅, rfl⟩

/-- Only the write of the precharge coil comes before that of the run coil. -/
theorem before_run_write {before after : List Effect}
    (h : before ++ .coilWrite .run true :: after = runEffects) :
    before = [.coilWrite .precharge true] := by
  have unfolded : runEffects = [.coilWrite .precharge true, .coilWrite .run true,
      .errorTimerStart .run runTimePullinMs, .stateWrite .scsTractiveSystemRaceReady] := rfl
  rw [unfolded] at h
  rcases before with _ | ⟨a, _ | ⟨b, before⟩⟩
  · simp at h
  · simp only [List.cons_append, List.nil_append, List.cons.injEq] at h
    rw [h.1]
  · simp only [List.cons_append, List.cons.injEq] at h
    have late : .coilWrite .run true ∈ [Effect.errorTimerStart .run runTimePullinMs,
        .stateWrite .scsTractiveSystemRaceReady] := by
      rw [← h.2.2]
      simp
    simp at late

theorem quiet_of_stamped (effects : es.map Prod.snd = p.effects st)
    (quiet : ∀ e ∈ p.effects st, e.quiet = true) : ∀ e ∈ es, e.2.quiet = true := fun e he =>
  quiet e.2 (effects ▸ List.mem_map_of_mem he)

theorem advance_of_quiet [NatCast T] (quiet : ∀ e ∈ es, e.2.quiet = true) (timer : OneShot T) :
    timer.advance Effect.timerCommand es = timer := by
  refine OneShot.advance_quiet fun e he => ?_
  have h := quiet e he
  cases hs : e.2 <;> rw [hs] at h <;> first | rfl | cases h

/-! ## The invariant -/

section Invariant

variable [Preorder T] [Add T] [NatCast T]

/-- Wherever the run coil goes from off to on, the precharge coil has been on for the minimum time,
and the state machine has not left the precharge states since. -/
def RunAfterMinimumTime (history : List (T × Effect)) : Prop :=
  ∀ pre t post, history = pre ++ (t, .coilWrite .run true) :: post →
    level (fun e => e.2.coilLevel .run) false pre = false →
    ∃ t₀, PrechargeSince pre t₀ ∧ t₀ + (prechargeMinimumTimeMillisec : T) ≤ t

structure Timed.Inv (p : Phase) (s : Timed T) : Prop where
  shows_phase : p.Shows s.world
  level : ∀ k, level (fun e => e.2.coilLevel k) false s.history = p.coil k
  /-- the pending start belongs to this precharge -/
  precharging : p = .precharging → ∃ t₀ start, PrechargeSince s.history t₀ ∧ t₀ ≤ start ∧
    s.timer.pending = some (start, (prechargeMinimumTimeMillisec : T))
  precharged : p = .precharged → ∃ t₀, PrechargeSince s.history t₀ ∧
    t₀ + (prechargeMinimumTimeMillisec : T) ≤ s.now
  closed : RunAfterMinimumTime s.history

variable {s t : Timed T} {a : TimedAction T} {later : T}

theorem Timed.Inv.level_append (inv : s.Inv p) (effects : es.map Prod.snd = p.effects st) (k : Coil) :
    Reactive.level (fun e => e.2.coilLevel k) false (s.history ++ es) = (p.next st).coil k := by
  rw [Reactive.level_append, inv.level, ← (p.outcome st).level, ← effects, level_map]

theorem Timed.Inv.closed_append (inv : s.Inv p) (effects : es.map Prod.snd = p.effects st)
    (between : Between s.now later es) : RunAfterMinimumTime (s.history ++ es) := by
  rintro pre t post split low
  rcases split_append split with ⟨mid, before⟩ | ⟨mid, rfl, during⟩
  · exact inv.closed pre t mid before low
  rw [Reactive.level_append, inv.level] at low
  have parts : mid.map Prod.snd ++ .coilWrite .run true :: post.map Prod.snd = p.effects st := by
    rw [← effects, during]
    simp
  have rises : Rises (Effect.coilLevel .run) (p.coil .run) (p.effects st) :=
    ⟨mid.map Prod.snd, _, post.map Prod.snd, parts.symm, rfl, by rw [level_map]; exact low⟩
  obtain ⟨rfl, pins, b, rfl, safe, done⟩ := closes_run_iff.1 (closes_of_rises rises)
  obtain ⟨t₀, since, le⟩ := inv.precharged rfl
  rw [Phase.effects_precharged_safe safe, if_pos done] at parts
  have written : (t, Effect.coilWrite .run true) ∈ es := by simp [during]
  refine ⟨t₀, since.append fun e he => ?_, le_trans le (between.le_of_mem written)⟩
  have first : e.2 ∈ mid.map Prod.snd := List.mem_map_of_mem he
  rw [before_run_write parts, List.mem_singleton] at first
  rw [first]
  exact ⟨by decide, nofun⟩

/-- An operation other than the callback. -/
theorem Timed.Inv.call (inv : s.Inv p) (late : st ≠ .expiry) {w : World} (shown : (p.next st).Shows w)
    (effects : es.map Prod.snd = p.effects st) (between : Between s.now later es) :
    (s.after w later es).Inv (p.next st) where
  shows_phase := shown
  level := inv.level_append effects
  closed := inv.closed_append effects between
  precharging next := by
    rcases (p.outcome st).precharging next with rfl | closes
    · obtain ⟨t₀, start, since, le, pending⟩ := inv.precharging rfl
      have quiet := quiet_of_stamped effects ((Phase.outcome _ st).quiet_of_stays rfl next)
      refine ⟨t₀, start, since.append fun e he => ?_, le, ?_⟩
      · exact Effect.keepsPrecharge_of_quiet (quiet e he)
      · rwa [Timed.after, advance_of_quiet quiet]
    · obtain ⟨rfl, pins, rfl, safe⟩ := closes_precharge_iff.1 closes
      have started : Phase.armed.effects (.sample pins true) = prechargeEffects := by
        simp [Phase.effects, Phase.sampleEffects, (pins.hold_eq_none_iff).2 safe]
      rw [started] at effects
      obtain ⟨t₁, t₂, t₃, t₄, t₅, rfl⟩ := startEffects_stamped effects
      obtain ⟨-, le₂, le₃, le₄, -⟩ := between
      refine ⟨t₁, t₄, ⟨_, highSince_of_rise rfl (inv.level .precharge) ?_, ?_⟩, ?_, rfl⟩
      · simp [Effect.coilLevel]
      · simp [Effect.KeepsPrecharge, Effect.coilLevel]
      · exact le_trans le₂ (le_trans le₃ le₄)
  precharged next := by
    obtain rfl := (p.outcome st).precharged late next
    obtain ⟨t₀, since, le⟩ := inv.precharged rfl
    have quiet := quiet_of_stamped effects ((Phase.outcome _ st).quiet_of_stays rfl next)
    exact ⟨t₀, since.append fun e he => Effect.keepsPrecharge_of_quiet (quiet e he),
      le_trans le between.le⟩

/-- The callback of a due timer. -/
theorem Timed.Inv.expire [AddRightMono T] (inv : s.Inv p) (due : s.timer.Due s.now) {w : World}
    (shown : (p.next .expiry).Shows w) (effects : es.map Prod.snd = p.effects .expiry)
    (between : Between s.now later es) :
    ({ s with timer := .idle }.after w later es).Inv (p.next .expiry) where
  shows_phase := shown
  level := inv.level_append effects
  closed := inv.closed_append effects between
  precharging next := by
    simp only [Phase.next] at next
    split_ifs at next with hp
    exact absurd next hp
  precharged next := by
    simp only [Phase.effects] at effects
    by_cases hp : p = .precharging
    · obtain ⟨t₀, start, since, le, pending⟩ := inv.precharging hp
      rw [if_pos hp] at effects
      refine ⟨t₀, since.append fun e he => ?_, ?_⟩
      · have promoted : e.2 ∈ [Effect.stateWrite .scsPrechargeMinimumTimeExceeded] :=
          effects ▸ List.mem_map_of_mem he
        rw [List.mem_singleton.1 promoted]
        exact ⟨by simp [Effect.coilLevel], by simp⟩
      · exact le_trans (le_trans (add_le_add_left le _) (due.le pending)) between.le
    · rw [Phase.next, if_neg hp] at next
      obtain ⟨t₀, since, le⟩ := inv.precharged next
      rw [if_neg hp] at effects
      obtain rfl := List.map_eq_nil_iff.1 effects
      exact ⟨t₀, since.append (by simp), le_trans le between.le⟩

theorem Timed.Inv.step [AddRightMono T] (inv : s.Inv p) (made : TimedStep s a t) :
    ∃ q, t.Inv q := by
  cases made with
  | elapse instant later =>
    refine ⟨p, inv.shows_phase, inv.level, inv.precharging, fun hp => ?_, inv.closed⟩
    obtain ⟨t₀, since, le⟩ := inv.precharged hp
    exact ⟨t₀, since, le_trans le later⟩
  | @call c _ _ _ boot other made effects between =>
    have advanced := made.advances inv.shows_phase boot
    rw [advanced.trace] at effects
    exact ⟨_, inv.call (mt stimulus_eq_expiry.1 other) advanced.shows_next effects between⟩
  | expire due made effects between =>
    have advanced := made.advances inv.shows_phase rfl
    rw [advanced.trace] at effects
    exact ⟨_, inv.expire due advanced.shows_next effects between⟩

/-- In every timed run the coils are at the levels that the history has written, and wherever the
run coil goes from off to on, the precharge coil has been on without interruption for the minimum
time with the state machine in the precharge states. -/
theorem minimumTime_before_run [AddRightMono T] (h : timed.Reachable s) :
    (∀ k, level (fun e => e.2.coilLevel k) false s.history = s.world.coil k) ∧
      RunAfterMinimumTime s.history := by
  have invariant : ∃ p, s.Inv p := by
    refine h.invariant (I := fun s => ∃ p, s.Inv p) ?_ ?_
    · rintro s ⟨hw, none⟩
      refine ⟨_, hw.shows_phase, fun k => ?_, nofun, nofun, fun pre t post split => ?_⟩
      · rw [none]
        cases k <;> rfl
      · simp [none] at split
    · rintro s a t ⟨p, inv⟩ made
      exact inv.step made
  obtain ⟨p, inv⟩ := invariant
  exact ⟨fun k => by rw [inv.level, inv.shows_phase.coil], inv.closed⟩

/-- The call, made at once, has taken no time. -/
def Timed.perform (c : Call) (s : Timed T) : Timed T :=
  s.after (c.result s.world) s.now ((c.result s.world).trace.map fun e => (s.now, e))

theorem TimedStep.perform (c : Call) (boot : c.afterBoot = true) (other : c ≠ .prechargeTimerFire)
    (enough : ∀ n, c.exec (n + 8) { s.world with trace := [] } = some (c.result s.world)) :
    TimedStep s (.call c) (s.perform c) :=
  .call boot other (Call.step_result c enough) (by simp [Function.comp_def]) (between_map _)

theorem TimedStep.perform_expiry (due : s.timer.Due s.now)
    (enough : ∀ n, Call.prechargeTimerFire.exec (n + 8) { s.world with trace := [] } =
      some (Call.prechargeTimerFire.result s.world)) :
    TimedStep s .expire (Timed.perform .prechargeTimerFire { s with timer := .idle }) :=
  .expire due (Call.step_result .prechargeTimerFire enough) (by simp [Function.comp_def])
    (between_map _)

end Invariant

/-! ## A timed start -/

/-- An undisturbed start, with the precharge begun at instant `0`. -/
def Timed.started : Timed ℕ :=
  Timed.perform (.stateMachineProcessStep .allGood) <| Timed.perform (.pushTractiveEnable true) <|
    Timed.perform (.stateMachineProcessStep .allGood) ⟨.mainDone, 0, .idle, []⟩

/-- Then the expiry of the minimum time and a step. -/
def Timed.ready : Timed ℕ :=
  Timed.perform (.stateMachineProcessStep .allGood) <| Timed.perform .prechargeTimerFire
    { Timed.started with now := prechargeMinimumTimeMillisec, timer := .idle }

theorem reachable_ready : timed.Reachable Timed.ready := by
  have start : timed.Execution [] (⟨.mainDone, 0, .idle, []⟩ : Timed ℕ) :=
    .init ⟨mainDone_booted, rfl⟩
  have waited := start.reachable.step (TimedStep.perform (.stateMachineProcessStep .allGood) rfl
    (by decide) fun _ => rfl)
  have enabled := waited.step (TimedStep.perform (.pushTractiveEnable true) rfl (by decide)
    fun _ => rfl)
  have closed : timed.Reachable Timed.started := enabled.step
    (TimedStep.perform (.stateMachineProcessStep .allGood) rfl (by decide) fun _ => rfl)
  have elapsed := closed.step (TimedStep.elapse prechargeMinimumTimeMillisec (Nat.zero_le _))
  have expired := elapsed.step (TimedStep.perform_expiry
    ⟨0, prechargeMinimumTimeMillisec, rfl, le_refl _⟩ fun _ => rfl)
  exact expired.step (TimedStep.perform (.stateMachineProcessStep .allGood) rfl (by decide)
    fun _ => rfl)

theorem minimumTime_before_run_ready : Timed.ready.world.runContactorCoil = true ∧
    (∀ k, level (fun e => e.2.coilLevel k) false Timed.ready.history = Timed.ready.world.coil k) ∧
      RunAfterMinimumTime Timed.ready.history :=
  ⟨rfl, minimumTime_before_run reachable_ready⟩

end Ams
