import Ams.Tractive.Coils

/-!
# One precharge for each enable

The enable bit is sampled, its changes are events.  A step that finds the bit high before the state
machine waits for the precharge activation latches, so the activation state is entered with the bit
low (`Arms`) and left for the precharge only after the driver has raised it (`Enables`).
-/

namespace Ams

open Reactive

variable {p q : Phase} {w w' : World} {st : Stimulus} {es : List Effect}
  {ts us : List (Transition World Call)}

/-! ## Entries into the precharge -/

theorem stateWrite_mem_openEffects {c : ContactorState} {s s' : StateControllerState} :
    .stateWrite s ∈ openEffects c s' ↔ s = s' := by
  simp [openEffects, stateWrite_not_mem_syncEffects]

/-- The ways into the states that do not open the contactors. -/
theorem Phase.Outcome.entry {s : StateControllerState} (o : Outcome p st q es)
    (hs : s.opens = false) (h : .stateWrite s ∈ es) :
    (s = .scsStartedPrecharge ∧ p.closes st = some .precharge) ∨
      (s = .scsPrechargeMinimumTimeExceeded ∧ st = .expiry) ∨
      (s = .scsTractiveSystemRaceReady ∧ p = .precharged ∧
        ∃ pins b, st = .sample pins b ∧ pins.precharged = true) := by
  have opening {fs : List Effect} (open_ : Opening fs) : .stateWrite s ∉ fs := by
    intro hfs
    have opened : s.opens = true := open_.opening _ hfs
    rw [hs] at opened
    cases opened
  cases o with
  | stays quiet => cases quiet _ h
  | opens _ open_ => exact absurd h (opening open_)
  | @starts pins safe =>
    have started : s = .scsStartedPrecharge := by
      simpa [prechargeEffects, stateWrite_not_mem_syncEffects] using h
    exact .inl ⟨started, closes_precharge_iff.2 ⟨rfl, pins, rfl, safe⟩⟩
  | expires => exact .inr (.inl ⟨by simpa using h, rfl⟩)
  | @completes pins enable _ done =>
    have ready : s = .scsTractiveSystemRaceReady := by
      simpa [runEffects, stateWrite_not_mem_syncEffects] using h
    exact .inr (.inr ⟨ready, rfl, pins, enable, rfl, done⟩)
  | @strands pins enable _ done =>
    have latching : .stateWrite s ∉ openEffects .hvcPrecharge .scsLatchingError :=
      opening (opening_openEffects rfl)
    have ready : s = .scsTractiveSystemRaceReady := by
      simpa [latching, refusedRunEffects, stateWrite_not_mem_syncEffects] using h
    exact .inr (.inr ⟨ready, rfl, pins, enable, rfl, done⟩)

/-- The precharge is started only by closing the precharge contactor. -/
theorem closes_of_entry (h : .stateWrite .scsStartedPrecharge ∈ p.effects st) :
    p.closes st = some .precharge := by
  rcases (p.outcome st).entry rfl h with ⟨-, closes⟩ | ⟨other, -⟩ | ⟨other, -⟩
  · exact closes
  · cases other
  · cases other

/-- The state machine waits for the activation after a step with the enable bit low, or it did so
before. -/
theorem Phase.Outcome.arms (o : Outcome p st q es) (hq : q = .armed) : p = .armed ∨
    (∃ hold, p = .waiting hold) ∧ ∃ pins, st = .sample pins false ∧ pins.safe = true := by
  cases o with
  | stays => exact .inl hq
  | opens _ _ _ arms => exact .inr (arms hq)
  | starts | expires | completes | strands => cases hq

/-- The transition enters `scsStartedPrecharge`. -/
def Enters (τ : Transition World Call) : Prop := .stateWrite .scsStartedPrecharge ∈ τ.dst.trace

/-- A step samples the safety inputs good and the enable bit low, and enters
`scsWaitingForPrechargeActivation`. -/
def Arms (τ : Transition World Call) : Prop :=
  ∃ pins, τ.label = .stateMachineProcessStep pins ∧ pins.safe = true ∧
    τ.src.tractivePowerEnableBit = false ∧
    .stateWrite .scsWaitingForPrechargeActivation ∈ τ.dst.trace

/-- The driver changes the enable bit from low to high. -/
def Enables (τ : Transition World Call) : Prop :=
  (τ.label = .pushTractiveEnable true ∨ τ.label = .writeTractiveEnable true) ∧
    τ.src.tractivePowerEnableBit = false

/-- The activation state that the run `ts` is in was entered with the bit low, and a high bit has
been raised since. -/
def ArmedBy (ts : List (Transition World Call)) (enable : Bool) : Prop :=
  ∃ as σ bs, ts = as ++ σ :: bs ∧ Arms σ ∧ (∀ ρ ∈ σ :: bs, ¬ Enters ρ) ∧
    (enable = true → ∃ υ ∈ bs, Enables υ)

/-- Only the driver raises the bit. -/
theorem Call.enable_rises {c : Call} (low : w.tractivePowerEnableBit = false)
    (high : c.enable w = true) : c = .pushTractiveEnable true ∨ c = .writeTractiveEnable true := by
  cases c <;> simp_all [Call.enable]

theorem ArmedBy.snoc {τ : Transition World Call} (armed : ArmedBy ts τ.src.tractivePowerEnableBit)
    (stays : ¬ Enters τ) (enable : τ.dst.tractivePowerEnableBit = τ.label.enable τ.src) :
    ArmedBy (ts ++ [τ]) τ.dst.tractivePowerEnableBit := by
  obtain ⟨as, σ, bs, rfl, arms, none, raised⟩ := armed
  refine ⟨as, σ, bs ++ [τ], by simp, arms, ?_, fun high => ?_⟩
  · intro ρ hρ
    rcases List.mem_append.1 (show ρ ∈ (σ :: bs) ++ [τ] from hρ) with hρ | hρ
    · exact none ρ hρ
    · rwa [List.mem_singleton.1 hρ]
  · cases before : τ.src.tractivePowerEnableBit with
    | true =>
      obtain ⟨υ, hυ, enables⟩ := raised before
      exact ⟨υ, List.mem_append_left _ hυ, enables⟩
    | false =>
      rw [enable] at high
      exact ⟨τ, by simp, Call.enable_rises before high, before⟩

/-- What a run has done when the state machine waits for the activation. -/
theorem armed_history (exec : booted.Execution ts w) :
    ∃ p : Phase, p.Shows w ∧ (p = .armed → ArmedBy ts w.tractivePowerEnableBit) := by
  refine exec.history (I := fun ts w => ∃ p : Phase, p.Shows w ∧
    (p = .armed → ArmedBy ts w.tractivePowerEnableBit)) ?_ ?_
  · exact fun w hw => ⟨_, hw.shows_phase, nofun⟩
  rintro ts s c t - ⟨p, hp, armed⟩ made
  have advanced := made.2.advances hp made.1
  refine ⟨_, advanced.shows_next, fun next => ?_⟩
  have stays : ¬ Enters ⟨s, c, t⟩ := by
    intro entry
    rw [Enters, advanced.trace] at entry
    obtain ⟨rfl, pins, sampled, safe⟩ := closes_precharge_iff.1 (closes_of_entry entry)
    rw [sampled] at next
    simp [Phase.next, Phase.sample, (pins.hold_eq_none_iff).2 safe] at next
  rcases (p.outcome _).arms next with rfl | ⟨⟨hold, rfl⟩, pins, sampled, safe⟩
  · exact (armed rfl).snoc stays advanced.enable
  · obtain ⟨rfl, low⟩ := stimulus_eq_sample.1 sampled
    refine ⟨ts, ⟨s, _, t⟩, [], rfl, ⟨pins, rfl, safe, low, ?_⟩, ?_, fun high => ?_⟩
    · rw [advanced.trace, sampled]
      simp [Phase.effects, Phase.sampleEffects, (pins.hold_eq_none_iff).2 safe,
        stateWrite_mem_openEffects]
    · simpa using stays
    · have stillLow : t.tractivePowerEnableBit = false := advanced.enable.trans low
      rw [stillLow] at high
      cases high

/-- While the bit stays high the activation state is not entered. -/
theorem not_armed_of_high {s t : World} {c : Call} (high : s.tractivePowerEnableBit = true)
    (h : ∃ p : Phase, p ≠ .armed ∧ p.Shows s) (made : booted.step s c t) :
    ∃ p : Phase, p ≠ .armed ∧ p.Shows t := by
  obtain ⟨p, ne, hp⟩ := h
  refine ⟨_, fun next => ?_, (made.2.advances hp made.1).shows_next⟩
  rcases (p.outcome _).arms next with rfl | ⟨-, pins, sampled, -⟩
  · exact ne rfl
  · rw [(stimulus_eq_sample.1 sampled).2] at high
    cases high

/-- Every entry into the precharge is preceded, with no entry in between, by a step that enters the
activation state with the bit low and, after it, by the driver raising the bit.  While the bit stays
high outside the activation state there is no entry. -/
theorem entry_preceded_by_enable (exec : booted.Execution ts w) :
    (∀ pre τ post, ts = pre ++ τ :: post → Enters τ →
      ∃ as σ bs, pre = as ++ σ :: bs ∧ Arms σ ∧ (∃ υ ∈ bs, Enables υ) ∧
        ∀ ρ ∈ σ :: bs, ¬ Enters ρ) ∧
    (w.tractivePowerEnableBit = true → w.currentState ≠ .scsWaitingForPrechargeActivation →
      ∀ us w', booted.Run w us w' → (∀ τ ∈ us, τ.dst.tractivePowerEnableBit = true) →
        ∀ τ ∈ us, ¬ Enters τ) := by
  constructor
  · rintro pre τ post rfl entry
    obtain ⟨before, made, -⟩ := exec.cut
    obtain ⟨p, hp, armed⟩ := armed_history before
    rw [Enters, (made.2.advances hp made.1).trace] at entry
    obtain ⟨rfl, pins, sampled, -⟩ := closes_precharge_iff.1 (closes_of_entry entry)
    obtain ⟨as, σ, bs, split, arms, none, raised⟩ := armed rfl
    exact ⟨as, σ, bs, split, arms, raised (stimulus_eq_sample.1 sampled).2, none⟩
  · intro high waiting us w' run held τ taken entry
    obtain ⟨pre, post, rfl⟩ := List.append_of_mem taken
    obtain ⟨before, made, -⟩ := run.cut
    obtain ⟨p, hp⟩ := booted_shows exec.reachable
    have start : ∃ p : Phase, p ≠ .armed ∧ p.Shows w := by
      refine ⟨p, ?_, hp⟩
      rintro rfl
      exact waiting hp.currentState
    obtain ⟨-, q, ne, hq⟩ := before.invariant_of
      (I := fun s => s.tractivePowerEnableBit = true ∧ ∃ p : Phase, p ≠ .armed ∧ p.Shows s)
      (P := fun τ => τ.dst.tractivePowerEnableBit = true)
      (fun s c t hs made kept => ⟨kept, not_armed_of_high hs.1 hs.2 made⟩)
      (fun σ hσ => held σ (List.mem_append_left _ hσ)) ⟨high, start⟩
    rw [Enters, (made.2.advances hq made.1).trace] at entry
    exact ne (closes_precharge_iff.1 (closes_of_entry entry)).1

theorem entry_preceded_by_enable_start : ∃ as σ bs τ cs,
    startRun = as ++ σ :: bs ++ τ :: cs ∧ Enters τ ∧ Arms σ ∧ (∃ υ ∈ bs, Enables υ) ∧
      ∀ ρ ∈ σ :: bs, ¬ Enters ρ := by
  have entry : Enters (startRun.get ⟨2, by decide⟩) := by
    unfold Enters
    decide
  obtain ⟨as, σ, bs, split, arms, raised, none⟩ :=
    (entry_preceded_by_enable execution_start).1 (startRun.take 2) _ (startRun.drop 3) rfl entry
  exact ⟨as, σ, bs, _, _, by rw [← split]; rfl, entry, arms, raised, none⟩

end Ams
