import Ams.Controller.Startup
import Ams.Net.Commands

/-!
# Outputs in the start-up

`BMSController` is the fourth task that `main` creates, and its initialiser writes both of its
outputs.  Until then `amsOk` is as its static constructor leaves it, with a pin mode in the place of
the level (`asserted_iff`).  The CAN task is the first one, so it may have set `performConversions`
before the initialiser sets it again (`commands_kept_iff`).
-/

namespace Ams

open Reactive

/-- `PinMode`, as the target defines it. -/
inductive PinMode where
  | pullUp
  | pullDown
  | pullNone
  | repeater
  | openDrain
  deriving DecidableEq, Repr

/-- The value of the enumerator. -/
def PinMode.code : PinMode → ℕ
  | pullUp => 0
  | pullDown => 3
  | pullNone => 2
  | repeater => 1
  | openDrain => 4

/-- The level of the pin after `DigitalOut(pin, value)`; `DigitalOut(pin)` is the same with `0`. -/
def DigitalOut.construct (value : ℕ) : Bool := value != 0

/-- The tasks with the outputs of `BMSController`. -/
structure Program where
  bus : Bus
  amsOk : Bool
  /-- what `BMSController::procedure` has sampled last -/
  sample : Option Bool

namespace BMSController

/-- `amsOk(OUTPUT_AMS_OK_PIN, PullDown)`. -/
def amsOkConstructed : Bool := DigitalOut.construct PinMode.pullDown.code

/-- `performConversions(BMS_CONTROLLER_SS_PIN)`. -/
def performConversionsConstructed : Bool := DigitalOut.construct 0

def initialise (s : Program) : Program :=
  { s with amsOk := false, bus := { s.bus with performConversions := true } }

def procedure (pins : Pins) (s : Program) : Program :=
  { s with amsOk := bmsStatus pins, sample := some (bmsStatus pins) }

end BMSController

inductive ProgramAction where
  | bus (a : BusAction)
  /-- a round of `BMSController` -/
  | bmsProcedure (pins : Pins)
  deriving DecidableEq, Repr

/-- The procedure of `BMSController` has the highest priority, so it is one step. -/
inductive ProgramStep : Program → ProgramAction → Program → Prop where
  | bus {s : Program} {a : BusAction} {b : Bus} : BusStep s.bus a b →
      ProgramStep s (.bus a) { s with bus := b }
  | bmsProcedure {s : Program} (pins : Pins) :
      ProgramStep s (.bmsProcedure pins) (BMSController.procedure pins s)

/-- What `initialise` does to the outputs of `BMSController`. -/
def Task.writeOutputs : Task → Program → Program
  | bmsController, s => BMSController.initialise s
  | _, s => s

/-- What `initialise` does to the program. -/
inductive Task.Initialises (t : Task) (s : Program) : Program → Prop where
  | intro {w : World} :
      Returns (fun n => t.initialise n { s.bus.tasks.world with trace := [] }) w →
      Initialises t s (t.writeOutputs
        { s with bus := { s.bus with tasks := { s.bus.tasks with world := w } } })

/-- The actions of the tasks created so far, and of the timer. -/
def BusAction.runsWith (created : List Task) : BusAction → Bool
  | dispatch _ | canNotify | setConversions => created.contains .canTransceiver
  | other (.stepRead _) | other .stepFinish => created.contains .stateController
  | other (.notifyEvent _) => created.contains .stackPlausibility
  | other .prechargeTimerFire => true
  | other _ => false

def ProgramAction.runsWith (created : List Task) : ProgramAction → Bool
  | bus a => a.runsWith created
  | bmsProcedure _ => created.contains .bmsController

def programStartup : Startup Task Program ProgramAction where
  order := creations
  start s := s.bus.tasks = ⟨.powerOn, none, none⟩ ∧ s.bus.conversions = none ∧
    s.bus.performConversions = BMSController.performConversionsConstructed ∧
    s.amsOk = BMSController.amsOkConstructed ∧ s.sample = none
  initialise := Task.Initialises
  runs created a := a.runsWith created = true
  step := ProgramStep

/-- The program from its static construction on: `main` with the tasks that it has created. -/
def program : System (Booting Task Program) (Creation Task ProgramAction) := programStartup.system

variable {s s' : Program} {b b' : Booting Task Program} {t : Task} {a : ProgramAction}
  {ts : List (Transition (Booting Task Program) (Creation Task ProgramAction))}
  {τ : Transition (Booting Task Program) (Creation Task ProgramAction)}

theorem Task.writeOutputs_other (ht : t ≠ .bmsController) (s : Program) : t.writeOutputs s = s := by
  cases t <;> first | rfl | exact absurd rfl ht

theorem order_bmsController : programStartup.order =
    [.canTransceiver, .stateController, .stackPlausibility] ++ .bmsController ::
      [.contactorController, .heartbeatDispatcher, .statusDispatcher, .contactorInfoDispatcher] := rfl

/-! ## The creations one after another -/

/-- The program after its static construction. -/
def Program.constructed : Program where
  bus := ⟨⟨.powerOn, none, none⟩, BMSController.performConversionsConstructed, none⟩
  amsOk := BMSController.amsOkConstructed
  sample := none

/-- The program after `T::initialise()`, when eight nested calls are enough for it. -/
def Program.initialised (t : Task) (s : Program) : Program :=
  t.writeOutputs { s with
    bus := { s.bus with
      tasks := { s.bus.tasks with
        world := (t.initialise 8 { s.bus.tasks.world with trace := [] }).getD .powerOn } } }

/-- The creations of `us`, one after another. -/
def creates : List Task → Booting Task Program →
    List (Transition (Booting Task Program) (Creation Task ProgramAction))
  | [], _ => []
  | t :: us, b =>
    ⟨b, .create t, ⟨b.created ++ [t], b.state.initialised t⟩⟩ ::
      creates us ⟨b.created ++ [t], b.state.initialised t⟩

/-- Eight nested calls are enough for each of the creations. -/
def Initialisable : List Task → Program → Prop
  | [], _ => True
  | t :: us, s =>
    (∀ n, t.initialise (n + 8) { s.bus.tasks.world with trace := [] } =
      some ((t.initialise 8 { s.bus.tasks.world with trace := [] }).getD .powerOn)) ∧
    Initialisable us (s.initialised t)

theorem run_creates {us : List Task} (first : b.created ++ us <+: programStartup.order)
    (enough : Initialisable us b.state) : program.Run b (creates us b)
      ⟨b.created ++ us, us.foldl (fun s t => s.initialised t) b.state⟩ := by
  induction us generalizing b with
  | nil =>
    rw [creates, List.append_nil]
    exact System.Run.nil
  | cons t us ih =>
    obtain ⟨rest, split⟩ := first
    have next : programStartup.order = b.created ++ t :: (us ++ rest) := by simp [← split]
    have made : program.step b (.create t) ⟨b.created ++ [t], b.state.initialised t⟩ :=
      .create next ⟨returns_of_add 8 enough.1⟩
    have after := ih (b := ⟨b.created ++ [t], b.state.initialised t⟩) ⟨rest, by simp [← split]⟩
      enough.2
    rw [creates, List.foldl_cons, List.append_cons b.created t us]
    exact (System.Run.single made).append after

/-- The program with the tasks `us` created and nothing else done. -/
def Program.booted (us : List Task) : Booting Task Program :=
  ⟨us, us.foldl (fun s t => s.initialised t) Program.constructed⟩

theorem execution_booted (us : List Task) (first : us <+: creations)
    (enough : Initialisable us Program.constructed) :
    program.Execution (creates us ⟨[], Program.constructed⟩) (Program.booted us) :=
  ⟨⟨[], Program.constructed⟩, ⟨rfl, rfl, rfl, rfl, rfl, rfl⟩, run_creates first enough⟩

/-! ## The AMS output -/

/-- The output is high only if the latest sample was, once `BMSController` has been initialised;
until then it is high without any sample. -/
structure Asserts (created : List Task) (s : Program) : Prop where
  ready : .bmsController ∈ created → s.amsOk = true → s.sample = some true
  before : .bmsController ∉ created → s.amsOk = true ∧ s.sample = none

theorem asserts_create (h : Asserts b.created b.state)
    (made : programStartup.Step b (.create t) b') : Asserts b'.created b'.state := by
  cases made with
  | create split made =>
    obtain ⟨returned⟩ := made
    by_cases ht : t = .bmsController
    · subst ht
      refine ⟨fun _ high => ?_, fun uncreated => absurd (by simp) uncreated⟩
      cases high
    · rw [Task.writeOutputs_other ht]
      have same : .bmsController ∈ b.created ++ [t] ↔ .bmsController ∈ b.created := by
        simp [Ne.symm ht]
      exact ⟨fun created => h.ready (same.1 created), fun uncreated => h.before (mt same.2 uncreated)⟩

theorem asserts_run (h : Asserts b.created b.state) (made : programStartup.Step b (.run a) b') :
    Asserts b'.created b'.state := by
  cases made with
  | run runs made =>
    cases made with
    | bus made => exact ⟨h.ready, h.before⟩
    | bmsProcedure pins =>
      have created : .bmsController ∈ b.created := by
        simpa [programStartup, ProgramAction.runsWith] using runs
      exact ⟨fun _ high => congrArg some high, fun uncreated => absurd created uncreated⟩

theorem program_asserts (h : program.Reachable b) : Asserts b.created b.state := by
  refine h.invariant (I := fun b => Asserts b.created b.state) ?_ ?_
  · rintro b ⟨none, -, -, -, high, unsampled⟩
    rw [none]
    exact ⟨fun created => by simp at created, fun _ => ⟨high, unsampled⟩⟩
  · intro b a b' asserts made
    cases a with
    | create t => exact asserts_create asserts made
    | run a => exact asserts_run asserts made

/-- In every state of the program `amsOk` is high only upon a high latest sample of `bmsOk`, if and
only if `BMSController` has been created. -/
theorem asserted_iff (h : program.Reachable b) :
    (b.state.amsOk = true → b.state.sample = some true) ↔ .bmsController ∈ b.created := by
  have asserts := program_asserts h
  refine ⟨fun evidence => ?_, asserts.ready⟩
  by_contra uncreated
  obtain ⟨high, none⟩ := asserts.before uncreated
  rw [none] at evidence
  cases evidence high

theorem asserted_iff_booted : ((Program.booted creations).state.amsOk = true →
    (Program.booted creations).state.sample = some true) ↔
      .bmsController ∈ (Program.booted creations).created :=
  asserted_iff (execution_booted creations (by decide) ⟨fun _ => rfl, fun _ => rfl, fun _ => rfl,
    fun _ => rfl, fun _ => rfl, fun _ => rfl, fun _ => rfl, fun _ => rfl, trivial⟩).reachable

/-- After its static construction the output is high. -/
theorem not_asserted : program.Reachable (Program.booted []) ∧
    (Program.booted []).state.amsOk = true ∧ (Program.booted []).state.sample = none :=
  ⟨(execution_booted [] (by decide) trivial).reachable, rfl, rfl⟩

/-! ## Commands -/

/-- The command among the messages of a step, if it is one. -/
def acceptedCommand : Creation Task ProgramAction → Option CANMessage
  | .run (.bus a) => a.command
  | _ => none

/-- The commands that `dispatch_message` has accepted in a run. -/
def accepted (ts : List (Transition (Booting Task Program) (Creation Task ProgramAction))) :
    List CANMessage :=
  ts.filterMap fun τ => acceptedCommand τ.label

/-- The levels that the commands ask of `performConversions`. -/
def conversionLevels (msgs : List CANMessage) : List Bool := msgs.map fun msg => !msg.disCnv

/-- `set_conversions_enable` is called with `BMSController` created. -/
def SetsLate (τ : Transition (Booting Task Program) (Creation Task ProgramAction)) : Prop :=
  τ.label = .run (.bus .setConversions) ∧ .bmsController ∈ τ.src.created

/-- The enable bit and `performConversions` are as the last command has asked. -/
def CommandsKept (msgs : List CANMessage) (s : Bus) : Prop :=
  s.tasks.world.tractivePowerEnableBit = lastLevel false (msgs.map CANMessage.enTr) ∧
    s.performConversions = lastLevel true (conversionLevels msgs)

theorem accepted_snoc : accepted (ts ++ [τ]) = accepted ts ++ (acceptedCommand τ.label).toList := by
  rw [accepted, List.filterMap_append]
  cases h : acceptedCommand τ.label <;> simp [accepted, h]

theorem lastLevel_snoc (b c : Bool) (cs : List Bool) : lastLevel b (cs ++ [c]) = c := by
  rw [lastLevel_append]
  rfl

theorem conversionLevels_snoc (msgs : List CANMessage) (msg : CANMessage) :
    conversionLevels (msgs ++ [msg]) = conversionLevels msgs ++ [!msg.disCnv] := by
  simp [conversionLevels]

/-- What an action of the bus does to the levels, in whatever world it is made. -/
inductive SetsLevels (s : Bus) : BusAction → Bus → Prop where
  | commanded {msg : CANMessage} {t : Bus} : msg.IsCommand →
      t.tasks.world.tractivePowerEnableBit = msg.enTr → t.conversions = some (!msg.disCnv) →
      t.performConversions = s.performConversions → SetsLevels s (.dispatch msg) t
  | set {t : Bus} : s.conversions = some t.performConversions → t.conversions = none →
      t.tasks.world.tractivePowerEnableBit = s.tasks.world.tractivePowerEnableBit →
      SetsLevels s .setConversions t
  | kept {a : BusAction} {t : Bus} : a.command = none → a ≠ .setConversions →
      t.tasks.world.tractivePowerEnableBit = s.tasks.world.tractivePowerEnableBit →
      t.conversions = s.conversions → t.performConversions = s.performConversions →
      SetsLevels s a t

theorem BusStep.setsLevels {s t : Bus} {a : BusAction} (made : BusStep s a t) :
    SetsLevels s a t := by
  cases made with
  | command idle command made => exact .commanded command made.enable rfl rfl
  | ignored idle other => exact .kept (if_neg other) (by simp) rfl rfl rfl
  | canNotify made => exact .kept rfl (by simp) made.enable rfl rfl
  | setConversions passed notified => exact .set passed rfl rfl
  | other ha made => exact .kept rfl (by simp) (made.enable_ofOthers ha) rfl rfl

/-- The state `b` after the run `ts`. -/
structure Kept (ts : List (Transition (Booting Task Program) (Creation Task ProgramAction)))
    (b : Booting Task Program) : Prop where
  enable : b.state.bus.tasks.world.tractivePowerEnableBit =
    lastLevel false ((accepted ts).map CANMessage.enTr)
  pending : ∀ en c, b.state.bus.conversions = some en →
    lastLevel c (conversionLevels (accepted ts)) = en
  early : .bmsController ∉ b.created → ∀ τ ∈ ts, ¬ SetsLate τ
  late : (∃ τ ∈ ts, SetsLate τ) → b.state.bus.conversions.getD b.state.bus.performConversions =
    lastLevel true (conversionLevels (accepted ts))
  /-- the initialiser has set the output, and no command has since -/
  overwritten : .bmsController ∈ b.created → (∀ τ ∈ ts, ¬ SetsLate τ) →
    b.state.bus.performConversions = true

theorem Task.initialise_enable {w w' : World} (made : Returns (fun n => t.initialise n w) w') :
    w'.tractivePowerEnableBit = w.tractivePowerEnableBit := by
  obtain ⟨N, hN⟩ := made
  have h := hN N le_rfl
  cases t with
  | stateController => exact transitionState_enable h
  | contactorController => exact Option.some.inj h ▸ rfl
  | _ => exact Option.some.inj h ▸ rfl

section Kept

variable {l : Creation Task ProgramAction}

theorem setsLate_snoc : (∃ υ ∈ ts ++ [τ], SetsLate υ) ↔ (∃ υ ∈ ts, SetsLate υ) ∨ SetsLate τ := by
  simp [or_and_right, exists_or]

theorem not_setsLate_snoc :
    (∀ υ ∈ ts ++ [τ], ¬ SetsLate υ) ↔ (∀ υ ∈ ts, ¬ SetsLate υ) ∧ ¬ SetsLate τ := by
  simp [or_imp, forall_and]

/-- A step that leaves the levels alone. -/
theorem Kept.quiet (h : Kept ts b) (command : acceptedCommand l = none)
    (unset : ¬ SetsLate ⟨b, l, b'⟩)
    (enable : b'.state.bus.tasks.world.tractivePowerEnableBit =
      b.state.bus.tasks.world.tractivePowerEnableBit)
    (conversions : b'.state.bus.conversions = b.state.bus.conversions)
    (performs : b'.state.bus.performConversions = b.state.bus.performConversions)
    (created : .bmsController ∈ b'.created ↔ .bmsController ∈ b.created) :
    Kept (ts ++ [⟨b, l, b'⟩]) b' := by
  have same : accepted (ts ++ [⟨b, l, b'⟩]) = accepted ts := by simp [accepted_snoc, command]
  refine ⟨?_, ?_, fun uncreated => ?_, fun late => ?_, fun ready unset' => ?_⟩
  · rw [enable, same, h.enable]
  · rw [conversions, same]
    exact h.pending
  · exact not_setsLate_snoc.2 ⟨h.early (mt created.2 uncreated), unset⟩
  · rw [conversions, performs, same]
    exact h.late ((setsLate_snoc.1 late).resolve_right unset)
  · rw [performs]
    exact h.overwritten (created.1 ready) (not_setsLate_snoc.1 unset').1

theorem Kept.create (h : Kept ts b) (made : programStartup.Step b (.create t) b') :
    Kept (ts ++ [⟨b, .create t, b'⟩]) b' := by
  have unset : ¬ SetsLate ⟨b, .create t, b'⟩ := fun late => by cases late.1
  by_cases ht : t = .bmsController
  · subst ht
    obtain ⟨before, after⟩ := made.created_eq order_bmsController (by decide) (by decide)
    have uncreated : .bmsController ∉ b.created := by rw [before]; decide
    have same : accepted (ts ++ [⟨b, .create .bmsController, b'⟩]) = accepted ts := by
      simp [accepted_snoc, acceptedCommand]
    cases made with
    | create split made =>
      obtain ⟨returned⟩ := made
      have enable := Task.initialise_enable returned
      refine ⟨?_, ?_, fun uncreated' => ?_, fun late => ?_, fun _ _ => rfl⟩
      · rw [same, ← h.enable]
        exact enable
      · rw [same]
        exact h.pending
      · exact absurd (by simp) uncreated'
      · obtain ⟨υ, taken, late⟩ := (setsLate_snoc.1 late).resolve_right unset
        exact absurd late (h.early uncreated υ taken)
  · cases made with
    | create split made =>
      obtain ⟨returned⟩ := made
      have kept := Task.initialise_enable returned
      rw [Task.writeOutputs_other ht]
      exact h.quiet rfl (fun late => by cases late.1) kept rfl rfl (by simp [Ne.symm ht])

/-- A command, once `dispatch_message` has written the enable bit. -/
theorem Kept.command (h : Kept ts b) {msg : CANMessage} (command : msg.IsCommand)
    (enable : b'.state.bus.tasks.world.tractivePowerEnableBit = msg.enTr)
    (conversions : b'.state.bus.conversions = some (!msg.disCnv))
    (performs : b'.state.bus.performConversions = b.state.bus.performConversions)
    (created : b'.created = b.created) :
    Kept (ts ++ [⟨b, .run (.bus (.dispatch msg)), b'⟩]) b' := by
  have unset : ¬ SetsLate ⟨b, .run (.bus (.dispatch msg)), b'⟩ := fun late => by cases late.1
  have more : accepted (ts ++ [⟨b, .run (.bus (.dispatch msg)), b'⟩]) = accepted ts ++ [msg] := by
    simp [accepted_snoc, acceptedCommand, BusAction.command, command]
  refine ⟨?_, fun en c passed => ?_, fun uncreated => ?_, fun late => ?_, fun ready unset' => ?_⟩
  · rw [more, List.map_append]
    exact enable.trans (lastLevel_snoc _ _ _).symm
  · rw [more, conversionLevels_snoc, lastLevel_snoc]
    exact Option.some.inj (conversions.symm.trans passed)
  · rw [created] at uncreated
    exact not_setsLate_snoc.2 ⟨h.early uncreated, unset⟩
  · rw [more, conversionLevels_snoc, lastLevel_snoc]
    simp [conversions]
  · rw [created] at ready
    exact performs.trans (h.overwritten ready (not_setsLate_snoc.1 unset').1)

/-- `set_conversions_enable`, called with the value of the command. -/
theorem Kept.set (h : Kept ts b)
    (passed : b.state.bus.conversions = some b'.state.bus.performConversions)
    (done : b'.state.bus.conversions = none)
    (enable : b'.state.bus.tasks.world.tractivePowerEnableBit =
      b.state.bus.tasks.world.tractivePowerEnableBit)
    (created : b'.created = b.created) :
    Kept (ts ++ [⟨b, .run (.bus .setConversions), b'⟩]) b' := by
  have same : accepted (ts ++ [⟨b, .run (.bus .setConversions), b'⟩]) = accepted ts := by
    simp [accepted_snoc, acceptedCommand, BusAction.command]
  refine ⟨?_, fun en c passed' => ?_, fun uncreated => ?_, fun _ => ?_, fun ready unset => ?_⟩
  · rw [same, ← h.enable]
    exact enable
  · rw [done] at passed'
    cases passed'
  · rw [created] at uncreated
    exact not_setsLate_snoc.2 ⟨h.early uncreated, fun late => uncreated late.2⟩
  · rw [same, h.pending _ true passed, done]
    rfl
  · rw [created] at ready
    exact absurd ⟨rfl, ready⟩ (not_setsLate_snoc.1 unset).2

theorem Kept.run (h : Kept ts b) {a : ProgramAction} (made : programStartup.Step b (.run a) b') :
    Kept (ts ++ [⟨b, .run a, b'⟩]) b' := by
  cases made with
  | run runs made =>
    cases made with
    | bmsProcedure pins => exact h.quiet rfl (fun late => by cases late.1) rfl rfl rfl Iff.rfl
    | bus made =>
      cases made.setsLevels with
      | commanded command enable conversions performs =>
        exact h.command command enable conversions performs rfl
      | set passed done enable => exact h.set passed done enable rfl
      | kept command other enable conversions performs =>
        refine h.quiet command (fun late => ?_) enable conversions performs Iff.rfl
        exact other (ProgramAction.bus.inj (Creation.run.inj late.1))

end Kept

theorem program_kept (exec : program.Execution ts b) : Kept ts b := by
  refine exec.history (I := Kept) ?_ ?_
  · rintro b ⟨none, tasks, idle, -⟩
    refine ⟨?_, fun en c passed => ?_, by simp, by simp, fun created => ?_⟩
    · rw [tasks]
      rfl
    · rw [idle] at passed
      cases passed
    · simp [none] at created
  · intro ts b l b' _ kept made
    cases l with
    | create t => exact kept.create made
    | run a => exact kept.run made

/-- Once all tasks are created and no message is being dispatched, the enable bit is as the last
accepted command has asked; and so is `performConversions`, if and only if that command has left the
conversions on, or none was accepted, or `set_conversions_enable` was called for it with
`BMSController` created. -/
theorem commands_kept_iff (exec : program.Execution ts b) (all : b.created = creations)
    (idle : b.state.bus.conversions = none) :
    CommandsKept (accepted ts) b.state.bus ↔
      lastLevel true (conversionLevels (accepted ts)) = true ∨ ∃ τ ∈ ts, SetsLate τ := by
  have kept := program_kept exec
  have ready : .bmsController ∈ b.created := by rw [all]; decide
  by_cases late : ∃ τ ∈ ts, SetsLate τ
  · have set := kept.late late
    rw [idle] at set
    exact iff_of_true ⟨kept.enable, set⟩ (.inr late)
  · have set := kept.overwritten ready fun τ taken sets => late ⟨τ, taken, sets⟩
    rw [CommandsKept, set, or_iff_left late]
    exact ⟨fun same => same.2.symm, fun on => ⟨kept.enable, on.symm⟩⟩

/-- A command that asks for no power and no conversions. -/
def silenceMessage : CANMessage where
  id := canidAmsCommandMessage
  data := #v[2, 0, 0, 0, 0, 0, 0, 0]
  len := 1
  format := .canStandard
  type := .canData

/-- The CAN task runs alone. -/
def Program.receiving : Booting Task Program := Program.booted [.canTransceiver]

/-- `dispatch_message` has written the enable bit. -/
def Program.dispatching : Booting Task Program :=
  { Program.receiving with
    state := { Program.receiving.state with
      bus := { Program.receiving.state.bus with conversions := some false } } }

/-- `dispatch_message` has come back. -/
def Program.silenced : Booting Task Program :=
  { Program.receiving with
    state := { Program.receiving.state with
      bus := { Program.receiving.state.bus with performConversions := false } } }

/-- The tasks that are created after the CAN task. -/
def laterCreations : List Task := creations.tail

/-- The command comes before the other tasks are created. -/
def silencedRun : List (Transition (Booting Task Program) (Creation Task ProgramAction)) :=
  creates [.canTransceiver] ⟨[], Program.constructed⟩ ++
    [⟨Program.receiving, .run (.bus (.dispatch silenceMessage)), Program.dispatching⟩,
      ⟨Program.dispatching, .run (.bus .setConversions), Program.silenced⟩] ++
    creates laterCreations Program.silenced

def Program.started : Booting Task Program :=
  ⟨creations, laterCreations.foldl (fun s t => s.initialised t) Program.silenced.state⟩

theorem execution_silencedRun : program.Execution silencedRun Program.started := by
  have receiving : program.Execution (creates [.canTransceiver] ⟨[], Program.constructed⟩)
      Program.receiving :=
    execution_booted [.canTransceiver] (by decide) ⟨fun _ => rfl, trivial⟩
  have dispatched : program.step Program.receiving (.run (.bus (.dispatch silenceMessage)))
      Program.dispatching :=
    .run rfl (.bus (.command rfl (by decide) (.canWrite false rfl (returns_of_eq fun _ => rfl))))
  have set : program.step Program.dispatching (.run (.bus .setConversions)) Program.silenced :=
    .run rfl (.bus (.setConversions rfl rfl))
  have enough : Initialisable laterCreations Program.silenced.state :=
    ⟨fun _ => rfl, fun _ => rfl, fun _ => rfl, fun _ => rfl, fun _ => rfl, fun _ => rfl,
      fun _ => rfl, trivial⟩
  have first : Program.silenced.created ++ laterCreations <+: programStartup.order := by decide
  have commanded := (receiving.snoc dispatched).snoc set
  rw [List.append_assoc] at commanded
  exact commanded.append (run_creates first enough)

theorem commands_kept_iff_started : CommandsKept (accepted silencedRun) Program.started.state.bus ↔
    lastLevel true (conversionLevels (accepted silencedRun)) = true ∨ ∃ τ ∈ silencedRun, SetsLate τ :=
  commands_kept_iff execution_silencedRun rfl rfl

/-- The command has asked for no conversions, and they are on. -/
theorem not_commands_kept : program.Execution silencedRun Program.started ∧
    Program.started.created = creations ∧ Program.started.state.bus.conversions = none ∧
    accepted silencedRun = [silenceMessage] ∧
    ¬ CommandsKept [silenceMessage] Program.started.state.bus :=
  ⟨execution_silencedRun, rfl, rfl, by decide, fun kept => absurd kept.2 (by decide)⟩

end Ams
