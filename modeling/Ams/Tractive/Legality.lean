import Ams.Controller.Startup
import Ams.Tractive.Latch

/-!
# Requests during the start-up

From power-on to any moment after the creations: the state machine sleeps, then it runs with the
contactors not yet initialised, and then the world is in a phase (`boot_stage`).  The request of
`StateController::initialise` is refused in every start-up.  After the creation of
`ContactorController` a request is refused exactly when a fault is overridden.
-/

namespace Ams

open Reactive StateControllerEvent

variable {w w' : World} {b b' : Booting Task World} {t : Task} {c : Call}
  {ts : List (Transition (Booting Task World) (Creation Task Call))}
  {τ : Transition (Booting Task World) (Creation Task Call)}

/-- A request is refused in the step. -/
def RaisesSequenceError (τ : Transition (Booting Task World) (Creation Task Call)) : Prop :=
  .eventNotified sceContactorSequenceError ∈ τ.dst.state.trace

/-! ## Stages -/

/-- What holds of the world after the creations `created`. -/
def Stage (created : List Task) (w : World) : Prop :=
  if .contactorController ∈ created then ∃ p : Phase, p.Shows w
  else if .stateController ∈ created then Uncontrolled w
  else Asleep w

theorem stage_phase (h : .contactorController ∈ b.created) :
    Stage b.created w ↔ ∃ p : Phase, p.Shows w := by
  rw [Stage, if_pos h]

theorem stage_uncontrolled (hc : .contactorController ∉ b.created)
    (hs : .stateController ∈ b.created) : Stage b.created w ↔ Uncontrolled w := by
  rw [Stage, if_neg hc, if_pos hs]

theorem stage_asleep (hc : .contactorController ∉ b.created) (hs : .stateController ∉ b.created) :
    Stage b.created w ↔ Asleep w := by
  rw [Stage, if_neg hc, if_neg hs]

theorem Uncontrolled.phase (h : Uncontrolled w) : ∃ p : Phase,
    p.state = w.currentState ∧ p.contactor = .hvcAllOpen := by
  have rests := h.rests
  cases hs : w.currentState <;> rw [hs] at rests <;> try cases rests
  · exact ⟨.latched, rfl, rfl⟩
  · exact ⟨.waiting .internalSafety, rfl, rfl⟩
  · exact ⟨.waiting .tractiveLoop, rfl, rfl⟩
  · exact ⟨.waiting .shutdownCircuit, rfl, rfl⟩
  · exact ⟨.armed, rfl, rfl⟩

/-- The contactor controller is initialised in whatever state the state machine has got to. -/
theorem Uncontrolled.contactors (h : Uncontrolled w) :
    ∃ p : Phase, p.Shows (ContactorController.initialise w) := by
  obtain ⟨p, state, contactor⟩ := h.phase
  refine ⟨p, state.symm, contactor.symm, ?_, ?_⟩
  · rw [contactor]
    exact h.coil .precharge
  · rw [contactor]
    exact h.coil .run

/-- The creation of another task does nothing to the controllers. -/
theorem Task.initialise_other (hs : t ≠ .stateController) (hc : t ≠ .contactorController)
    (made : Returns (fun n => t.initialise n w) w') : w' = w := by
  have same (n : ℕ) : t.initialise n w = some w := by
    cases t <;> first | rfl | exact absurd rfl hs | exact absurd rfl hc
  exact made.unique (returns_of_eq same)

theorem stage_cleared (h : Stage b.created w) : Stage b.created { w with trace := [] } := by
  unfold Stage at h ⊢
  split_ifs at h ⊢
  · obtain ⟨p, hp⟩ := h
    exact ⟨p, hp.cleared⟩
  · exact h.cleared
  · exact h.cleared

/-- The creations before and after that of `StateController`. -/
theorem order_stateController : startup.order = [.canTransceiver] ++ .stateController ::
    [.stackPlausibility, .bmsController, .contactorController, .heartbeatDispatcher,
      .statusDispatcher, .contactorInfoDispatcher] := rfl

theorem order_contactorController : startup.order =
    [.canTransceiver, .stateController, .stackPlausibility, .bmsController] ++
      .contactorController :: [.heartbeatDispatcher, .statusDispatcher, .contactorInfoDispatcher] :=
  rfl

theorem stateController_created (h : boot.Reachable b) (hc : .contactorController ∈ b.created) :
    .stateController ∈ b.created :=
  Startup.created_of_created h order_contactorController (by decide) hc (by decide)

/-- The creation of `StateController` finds it asleep, and its request is refused. -/
theorem stage_create_stateController (h : Stage b.created b.state)
    (made : startup.Step b (.create .stateController) b') :
    Stage b'.created b'.state ∧ .eventNotified sceContactorSequenceError ∈ b'.state.trace := by
  obtain ⟨before, after⟩ := made.created_eq order_stateController (by decide) (by decide)
  have asleep : Asleep { b.state with trace := [] } :=
    (stage_asleep (by rw [before]; decide) (by rw [before]; decide)).1 (stage_cleared h)
  cases made with
  | create split made =>
    obtain ⟨state, refused⟩ := asleep.initialise made
    have acts : Acts { b.state with trace := [] } _ :=
      Call.Step.acts (c := .stateControllerInitialise) made rfl
    refine ⟨(stage_uncontrolled (by rw [after]; decide) (by rw [after]; decide)).2 ?_, refused⟩
    exact ⟨asleep.toUnready.acts acts, by rw [state]; rfl⟩

theorem stage_create_contactorController (h : Stage b.created b.state)
    (made : startup.Step b (.create .contactorController) b') : Stage b'.created b'.state := by
  obtain ⟨before, after⟩ := made.created_eq order_contactorController (by decide) (by decide)
  have uncontrolled : Uncontrolled { b.state with trace := [] } :=
    (stage_uncontrolled (by rw [before]; decide) (by rw [before]; decide)).1 (stage_cleared h)
  cases made with
  | create split made =>
    obtain rfl := made.unique (returns_of_eq fun _ => rfl)
    exact (stage_phase (by rw [after]; decide)).2 uncontrolled.contactors

theorem stage_create (h : Stage b.created b.state) (made : startup.Step b (.create t) b') :
    Stage b'.created b'.state := by
  by_cases hs : t = .stateController
  · subst hs
    exact (stage_create_stateController h made).1
  by_cases hc : t = .contactorController
  · subst hc
    exact stage_create_contactorController h made
  have cleared := stage_cleared h
  cases made with
  | create split made =>
    obtain rfl := t.initialise_other hs hc made
    simpa [Stage, Ne.symm hs, Ne.symm hc] using cleared

theorem stage_run (h : Stage b.created b.state) (made : startup.Step b (.run c) b') :
    Stage b'.created b'.state := by
  cases made with
  | run runs made =>
    by_cases hc : .contactorController ∈ b.created
    · obtain ⟨p, hp⟩ := (stage_phase hc).1 h
      have advanced := made.advances hp (Call.afterBoot_of_runsWith runs)
      exact (stage_phase hc).2 ⟨_, advanced.shows_next⟩
    · by_cases hs : .stateController ∈ b.created
      · exact (stage_uncontrolled hc hs).2 (((stage_uncontrolled hc hs).1 h).step runs made)
      · exact (stage_asleep hc hs).2 (((stage_asleep hc hs).1 h).step runs hs made).1

theorem boot_stage (h : boot.Reachable b) : Stage b.created b.state := by
  refine h.invariant (I := fun b => Stage b.created b.state) ?_ ?_
  · rintro b ⟨none, start⟩
    rw [none, start]
    exact asleep_powerOn
  · intro b a b' stage made
    cases a with
    | create t => exact stage_create stage made
    | run c => exact stage_run stage made

/-! ## Refused requests -/

/-- After the creations only an overridden fault makes a request that is refused. -/
theorem raises_iff_overrides {p : Phase} {created : List Task} (h : p.Shows w)
    (runs : c.runsWith created = true) (made : c.Step w w') :
    .eventNotified sceContactorSequenceError ∈ w'.trace ↔ OverridesFault ⟨w, c, w'⟩ := by
  have overrides : OverridesFault ⟨w, c, w'⟩ ↔ p.Overrides (c.stimulus w) :=
    Phase.Shows.overrides_iff (τ := ⟨w, c, w'⟩) h
  rw [(made.advances h (Call.afterBoot_of_runsWith runs)).trace, overrides]
  refine ⟨fun notified => ?_, fun overrides => overrides.notifies⟩
  refine (((p.outcome _).notified notified).resolve_left fun delivered => ?_).1
  cases c with
  | notifyEvent ev =>
    obtain rfl := Stimulus.event.inj delivered
    cases runs
  | pushTractiveEnable newVal =>
    simp only [Call.stimulus] at delivered
    split_ifs at delivered
    cases newVal <;> cases delivered
  | _ => cases delivered

/-- No request is refused before `StateController` is created. -/
theorem not_raises_before (h : boot.Reachable τ.src) (made : boot.step τ.src τ.label τ.dst)
    (asleep : .stateController ∉ τ.dst.created) : ¬ RaisesSequenceError τ := by
  obtain ⟨b, a, b'⟩ := τ
  have uncreated : .contactorController ∉ b'.created := fun created =>
    asleep (stateController_created (h.step made) created)
  unfold RaisesSequenceError
  dsimp only at h made asleep uncreated ⊢
  have stage := boot_stage h
  cases made with
  | @create t rest w' split made =>
    have hs : t ≠ .stateController := by
      rintro rfl
      exact asleep (by simp)
    have hc : t ≠ .contactorController := by
      rintro rfl
      exact uncreated (by simp)
    obtain rfl := t.initialise_other hs hc made
    simp
  | run runs made =>
    have driver := (((stage_asleep uncreated asleep).1 stage).step runs asleep made).2
    exact fun raised => absurd (driver _ raised) (by decide)

/-- A run from power-on makes no request that is refused exactly until `StateController` is created,
and after the creation of `ContactorController` exactly the steps that override a fault do. -/
theorem requests_legal_iff (exec : boot.Execution ts b) :
    ((∀ τ ∈ ts, ¬ RaisesSequenceError τ) ↔ .stateController ∉ b.created) ∧
      ∀ τ ∈ ts, ∀ c, τ.label = .run c → .contactorController ∈ τ.src.created →
        (RaisesSequenceError τ ↔ OverridesFault ⟨τ.src.state, c, τ.dst.state⟩) := by
  refine ⟨⟨fun legal created => ?_, fun asleep τ taken => ?_⟩, fun τ taken c label ready => ?_⟩
  · obtain ⟨τ, taken, label⟩ := (Startup.mem_created_iff exec).1 created
    obtain ⟨before, made, -⟩ := exec.reachable_of_mem taken
    rw [label] at made
    exact legal τ taken (stage_create_stateController (boot_stage before) made).2
  · obtain ⟨before, made, -⟩ := exec.reachable_of_mem taken
    obtain ⟨pre, post, rfl⟩ := List.append_of_mem taken
    obtain ⟨-, -, after⟩ := exec.cut
    have later := Startup.created_prefix_of_run after
    exact not_raises_before before made fun created => asleep (later.subset created)
  · obtain ⟨before, made, -⟩ := exec.reachable_of_mem taken
    obtain ⟨p, hp⟩ := (stage_phase ready).1 (boot_stage before)
    obtain ⟨b₁, a, b₂⟩ := τ
    obtain rfl : a = .run c := label
    dsimp only at made hp ⊢
    cases made with
    | run runs made => exact raises_iff_overrides hp runs made

/-- `main` has created the CAN task. -/
def firstCreated : Booting Task World := ⟨[.canTransceiver], .powerOn⟩

/-- `main` has created `StateController`. -/
def secondCreated : Booting Task World :=
  ⟨[.canTransceiver, .stateController], (Task.stateController.initialise 8 .powerOn).getD .powerOn⟩

/-- The first two creations. -/
def creationRun : List (Transition (Booting Task World) (Creation Task Call)) :=
  [⟨⟨[], .powerOn⟩, .create .canTransceiver, firstCreated⟩,
    ⟨firstCreated, .create .stateController, secondCreated⟩]

theorem execution_creationRun : boot.Execution creationRun secondCreated := by
  have start : boot.Execution [] ⟨[], .powerOn⟩ := .init ⟨rfl, rfl⟩
  have first : boot.step ⟨[], .powerOn⟩ (.create .canTransceiver) firstCreated :=
    .create rfl (returns_of_eq fun _ => rfl)
  have second : boot.step firstCreated (.create .stateController) secondCreated :=
    .create rfl (returns_of_add 8 fun _ => rfl)
  exact (start.snoc first).snoc second

theorem requests_legal_iff_creations :
    ((∀ τ ∈ creationRun, ¬ RaisesSequenceError τ) ↔ .stateController ∉ secondCreated.created) ∧
      ∀ τ ∈ creationRun, ∀ c, τ.label = .run c → .contactorController ∈ τ.src.created →
        (RaisesSequenceError τ ↔ OverridesFault ⟨τ.src.state, c, τ.dst.state⟩) :=
  requests_legal_iff execution_creationRun

/-- The request of `StateController::initialise` is refused. -/
theorem not_requests_legal : boot.Execution creationRun secondCreated ∧
    ¬ ∀ τ ∈ creationRun, ¬ RaisesSequenceError τ := by
  refine ⟨execution_creationRun, fun legal => ?_⟩
  have refused : .eventNotified sceContactorSequenceError ∈ secondCreated.state.trace := by decide
  exact legal ⟨firstCreated, .create .stateController, secondCreated⟩ (by simp [creationRun]) refused

end Ams
