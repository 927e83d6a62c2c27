import Ams.Lib.Mailbox
import Ams.Lib.Run
import Ams.Net.Dispatch
import Mathlib.Data.List.FinRange
import Mathlib.Data.List.Induction
import Mathlib.Logic.Function.Basic

/-!
# Reception

`rx_interrupt` reads frames into blocks of the message box, and the task dispatches them and frees
the blocks.  The interrupt runs to its end before the task goes on, but it may fall between any two
steps of the task, and it keeps a block that it has allocated and not filled (`next_message`) for its
next activation.  Every block is in one place, and the frames come out as they went in
(`Reception.Inv`).
-/

namespace Ams

open Reactive

def canTransceiverBufferSize : ℕ := 32

abbrev Block := Fin canTransceiverBufferSize

/-- The place of the interrupt in its loop. -/
inductive RxInterrupt where
  | idle
  /-- at the first `if` -/
  | looping
  /-- at the second `if` -/
  | reading
  deriving DecidableEq, Repr

/-- The place of the task in its loop. -/
inductive Procedure where
  | waiting
  | got (msg : Block)
  | dispatched (msg : Block)
  deriving DecidableEq, Repr

/-- The block that the task holds. -/
def Procedure.block : Procedure → Option Block
  | waiting => none
  | got msg | dispatched msg => some msg

structure Reception where
  messageBox : Mailbox Block
  nextMessage : Option Block
  /-- the contents of the blocks -/
  memory : Block → CANMessage
  trashcan : CANMessage
  interrupt : RxInterrupt
  procedure : Procedure

namespace CANTransceiver

/-- `driver.read`: the message afterwards and the result. -/
def driverRead (frame : Option CANMessage) (message : CANMessage) : CANMessage × Bool :=
  match frame with
  | some frame => (frame, true)
  | none => (message, false)

/-- The end of the loop: `while (messages_remaining)`. -/
def repeatWhile (messagesRemaining : Bool) (s : Reception) : Reception :=
  { s with interrupt := if messagesRemaining then .looping else .idle }

/-- The second `if` of the loop and the end of it, when the driver has `frame` to read. -/
def readMessage (frame : Option CANMessage) (s : Reception) : Reception :=
  match s.nextMessage with
  | some b =>
    let (message, messagesRemaining) := driverRead frame (s.memory b)
    let s := { s with memory := Function.update s.memory b message }
    if messagesRemaining then
      repeatWhile true
        { s with
          messageBox := s.messageBox.put canTransceiverBufferSize b
          nextMessage := none }
    else repeatWhile false s
  | none =>
    let (message, messagesRemaining) := driverRead frame s.trashcan
    repeatWhile messagesRemaining { s with trashcan := message }

end CANTransceiver

open CANTransceiver

inductive ReceptionAction where
  | rxInterrupt
  /-- the first `if` of the loop -/
  | alloc
  | read (frame : Option CANMessage)
  | get
  | dispatch (msg : CANMessage)
  | free
  deriving DecidableEq, Repr

inductive ReceptionStep : Reception → ReceptionAction → Reception → Prop where
  | rxInterrupt {s : Reception} : s.interrupt = .idle →
      ReceptionStep s .rxInterrupt { s with interrupt := .looping }
  | alloc {s : Reception} {next : Option Block} {messageBox : Mailbox Block} :
      s.interrupt = .looping → s.nextMessage = none → s.messageBox.Alloc next messageBox →
      ReceptionStep s .alloc
        { s with messageBox := messageBox, nextMessage := next, interrupt := .reading }
  | keep {s : Reception} : s.interrupt = .looping → s.nextMessage ≠ none →
      ReceptionStep s .alloc { s with interrupt := .reading }
  | read {s : Reception} (frame : Option CANMessage) : s.interrupt = .reading →
      ReceptionStep s (.read frame) (readMessage frame s)
  | get {s : Reception} {b : Block} {messageBox : Mailbox Block} : s.interrupt = .idle →
      s.procedure = .waiting → s.messageBox.get = some (b, messageBox) →
      ReceptionStep s .get { s with messageBox := messageBox, procedure := .got b }
  | dispatch {s : Reception} {b : Block} : s.interrupt = .idle → s.procedure = .got b →
      ReceptionStep s (.dispatch (s.memory b)) { s with procedure := .dispatched b }
  | free {s : Reception} {b : Block} : s.interrupt = .idle → s.procedure = .dispatched b →
      ReceptionStep s .free { s with messageBox := s.messageBox.free b, procedure := .waiting }

/-- The blocks of the message box. -/
def blocks : List Block := List.finRange canTransceiverBufferSize

/-- The message box after its construction; the contents of the blocks are arbitrary. -/
def reception : System Reception ReceptionAction where
  init s := s.messageBox = .empty blocks ∧ s.nextMessage = none ∧ s.interrupt = .idle ∧
    s.procedure = .waiting
  step := ReceptionStep

/-! ## Frames -/

/-- A block is available to the interrupt. -/
def Reception.HasRoom (s : Reception) : Prop := s.nextMessage ≠ none ∨ s.messageBox.unused ≠ []

instance (s : Reception) : Decidable s.HasRoom :=
  inferInstanceAs (Decidable (s.nextMessage ≠ none ∨ s.messageBox.unused ≠ []))

/-- The frame read by an action, unless no block is available for it. -/
def ReceptionAction.accepted (s : Reception) : ReceptionAction → Option CANMessage
  | read frame => if s.HasRoom then frame else none
  | _ => none

/-- The message dispatched by an action. -/
def ReceptionAction.dispatched : ReceptionAction → Option CANMessage
  | dispatch msg => some msg
  | _ => none

/-- The frames read in a run, but for those read while no block was available. -/
def acceptedFrames (ts : List (Transition Reception ReceptionAction)) : List CANMessage :=
  ts.filterMap fun τ => τ.label.accepted τ.src

def dispatchedFrames (ts : List (Transition Reception ReceptionAction)) : List CANMessage :=
  ts.filterMap fun τ => τ.label.dispatched

namespace Reception

/-- The frame that the task has got and not dispatched yet. -/
def beingDispatched (s : Reception) : List CANMessage :=
  match s.procedure with
  | .got b => [s.memory b]
  | _ => []

def queued (s : Reception) : List CANMessage := s.messageBox.queue.map s.memory

/-- The blocks outside the message box. -/
def held (s : Reception) : List Block := s.nextMessage.toList ++ s.procedure.block.toList

end Reception

/-! ## One step -/

/-- After the messages `dispatched` and the frames `accepted`. -/
structure Reception.Inv (dispatched accepted : List CANMessage) (s : Reception) : Prop where
  accounts : s.messageBox.Accounts blocks s.held
  /-- the interrupt goes on without a block only if there is none -/
  exhausted : s.interrupt = .reading → s.nextMessage = none → s.messageBox.unused = []
  frames : dispatched ++ (s.beingDispatched ++ s.queued) = accepted

variable {s t : Reception} {a : ReceptionAction} {dispatched accepted : List CANMessage}
  {ts : List (Transition Reception ReceptionAction)} {b : Block}

theorem blocks_nodup : blocks.Nodup := List.nodup_finRange _

theorem blocks_length : blocks.length = canTransceiverBufferSize := List.length_finRange

theorem Reception.Inv.mem_held (next : s.nextMessage = some b) : b ∈ s.held := by
  simp [held, next]

/-- The block that the interrupt fills is neither queued nor with the task. -/
theorem Reception.Inv.fresh (inv : s.Inv dispatched accepted) (next : s.nextMessage = some b) :
    b ∉ s.messageBox.queue ∧ s.procedure.block ≠ some b := by
  refine ⟨inv.accounts.not_mem_queue blocks_nodup (mem_held next), fun same => ?_⟩
  have distinct : s.held.Nodup := (inv.accounts.nodup blocks_nodup).of_append_right.of_append_right
  simp [held, next, same] at distinct

/-- Filling the block changes no other frame. -/
theorem Reception.Inv.queued_update (inv : s.Inv dispatched accepted)
    (next : s.nextMessage = some b) (msg : CANMessage) :
    s.messageBox.queue.map (Function.update s.memory b msg) = s.queued := by
  refine List.map_congr_left fun c hc => Function.update_of_ne ?_ _ _
  rintro rfl
  exact (inv.fresh next).1 hc

theorem Reception.Inv.beingDispatched_update (inv : s.Inv dispatched accepted)
    (next : s.nextMessage = some b) (msg : CANMessage) :
    beingDispatched { s with memory := Function.update s.memory b msg } = s.beingDispatched := by
  have other := (inv.fresh next).2
  unfold beingDispatched
  cases h : s.procedure with
  | got c =>
    have ne : c ≠ b := fun same => other (by rw [h, same]; rfl)
    simp only [Function.update_of_ne ne]
  | _ => rfl

/-- The queue has room for the block of the interrupt. -/
theorem Reception.Inv.queue_length_lt (inv : s.Inv dispatched accepted)
    (next : s.nextMessage = some b) : s.messageBox.queue.length < canTransceiverBufferSize :=
  blocks_length ▸ inv.accounts.queue_length_lt (mem_held next)

/-! ## The second `if` -/

theorem readMessage_some (next : s.nextMessage = some b) (frame : CANMessage) :
    readMessage (some frame) s =
      { s with
        messageBox := s.messageBox.put canTransceiverBufferSize b
        nextMessage := none
        memory := Function.update s.memory b frame
        interrupt := .looping } := by
  unfold readMessage
  rw [next]
  rfl

/-- The driver leaves the message alone, and the block is kept. -/
theorem readMessage_none (next : s.nextMessage = some b) :
    readMessage none s = { s with interrupt := .idle } := by
  unfold readMessage
  rw [next]
  simp [driverRead, repeatWhile, ← next]

theorem readMessage_trashcan (next : s.nextMessage = none) (frame : Option CANMessage) :
    readMessage frame s =
      { s with
        trashcan := (driverRead frame s.trashcan).1
        interrupt := if (driverRead frame s.trashcan).2 then .looping else .idle } := by
  unfold readMessage
  rw [next]
  rfl

theorem Reception.Inv.read_some (inv : s.Inv dispatched accepted) (next : s.nextMessage = some b)
    (frame : CANMessage) : (readMessage (some frame) s).Inv dispatched (accepted ++ [frame]) := by
  have held_eq : s.held = b :: s.procedure.block.toList := by simp [held, next]
  have accounts := (held_eq ▸ inv.accounts).put
  rw [blocks_length] at accounts
  have being : (readMessage (some frame) s).beingDispatched = s.beingDispatched := by
    rw [readMessage_some next]
    exact inv.beingDispatched_update next frame
  have filled : (readMessage (some frame) s).queued = s.queued ++ [frame] := by
    rw [readMessage_some next, queued, Mailbox.put_of_lt (inv.queue_length_lt next),
      List.map_append, inv.queued_update next, List.map_singleton]
    exact congrArg (s.queued ++ [·]) (Function.update_self b frame s.memory)
  refine ⟨?_, fun reading => ?_, ?_⟩
  · rw [readMessage_some next]
    exact accounts
  · rw [readMessage_some next] at reading
    cases reading
  · rw [being, filled, ← inv.frames]
    simp only [List.append_assoc]

theorem Reception.Inv.read (inv : s.Inv dispatched accepted) (reading : s.interrupt = .reading)
    (frame : Option CANMessage) : (readMessage frame s).Inv dispatched
      (accepted ++ ((ReceptionAction.read frame).accepted s).toList) := by
  cases next : s.nextMessage with
  | some b =>
    have room : s.HasRoom := .inl (by simp [next])
    rw [ReceptionAction.accepted, if_pos room]
    cases frame with
    | some frame => exact inv.read_some next frame
    | none =>
      rw [readMessage_none next, Option.toList_none, List.append_nil]
      refine ⟨inv.accounts, fun reading => ?_, inv.frames⟩
      cases reading
  | none =>
    have full : ¬ s.HasRoom := by
      rintro (held | unused)
      · exact held next
      · exact unused (inv.exhausted reading next)
    rw [ReceptionAction.accepted, if_neg full, readMessage_trashcan next, Option.toList_none,
      List.append_nil]
    refine ⟨inv.accounts, fun reading => ?_, inv.frames⟩
    dsimp only at reading
    split_ifs at reading

/-! ## The message box -/

theorem Reception.Inv.alloc {next : Option Block} {messageBox : Mailbox Block}
    (inv : s.Inv dispatched accepted) (unfilled : s.nextMessage = none)
    (made : s.messageBox.Alloc next messageBox) :
    Reception.Inv dispatched accepted
      { s with messageBox := messageBox, nextMessage := next, interrupt := .reading } := by
  have accounts := inv.accounts
  rw [held, unfilled] at accounts
  cases made with
  | block unused =>
    refine ⟨accounts.alloc (.block unused), fun _ none => ?_, inv.frames⟩
    cases none
  | exhausted unused => exact ⟨accounts, fun _ _ => unused, inv.frames⟩

theorem Reception.Inv.get {messageBox : Mailbox Block} (inv : s.Inv dispatched accepted)
    (idle : s.interrupt = .idle) (waiting : s.procedure = .waiting)
    (got : s.messageBox.get = some (b, messageBox)) :
    Reception.Inv dispatched accepted
      { s with messageBox := messageBox, procedure := .got b } := by
  have accounts := inv.accounts.get got
  have frames := inv.frames
  obtain ⟨queue, -⟩ := Mailbox.get_eq_some.1 got
  refine ⟨accounts.of_perm ?_, fun reading => ?_, ?_⟩
  · simp only [held, waiting, Procedure.block, Option.toList_some, Option.toList_none,
      List.append_nil]
    exact List.perm_append_singleton _ _
  · rw [idle] at reading
    cases reading
  · rw [← frames]
    simp [beingDispatched, queued, queue, waiting]

theorem Reception.Inv.dispatch (inv : s.Inv dispatched accepted) (got : s.procedure = .got b) :
    Reception.Inv (dispatched ++ [s.memory b]) accepted { s with procedure := .dispatched b } := by
  have accounts := inv.accounts
  have frames := inv.frames
  rw [held, got] at accounts
  refine ⟨accounts, inv.exhausted, ?_⟩
  rw [← frames]
  simp [beingDispatched, queued, got]

theorem Reception.Inv.free (inv : s.Inv dispatched accepted) (idle : s.interrupt = .idle)
    (done : s.procedure = .dispatched b) :
    Reception.Inv dispatched accepted
      { s with messageBox := s.messageBox.free b, procedure := .waiting } := by
  have held_perm : (b :: s.nextMessage.toList).Perm s.held := by
    rw [held, done]
    exact (List.perm_append_singleton _ _).symm
  have frames := inv.frames
  refine ⟨(inv.accounts.of_perm held_perm).free.of_perm ?_, fun reading => ?_, ?_⟩
  · simp [held, Procedure.block]
  · rw [idle] at reading
    cases reading
  · rw [← frames]
    simp [beingDispatched, queued, done, Mailbox.free]

theorem ReceptionStep.inv (made : ReceptionStep s a t) (inv : s.Inv dispatched accepted) :
    t.Inv (dispatched ++ a.dispatched.toList) (accepted ++ (a.accepted s).toList) := by
  cases made with
  | read frame reading => simpa [ReceptionAction.dispatched] using inv.read reading frame
  | rxInterrupt idle =>
    have entered : Reception.Inv dispatched accepted { s with interrupt := .looping } := by
      refine ⟨inv.accounts, fun reading => ?_, inv.frames⟩
      cases reading
    simpa [ReceptionAction.dispatched, ReceptionAction.accepted] using entered
  | keep looping next =>
    have kept : Reception.Inv dispatched accepted { s with interrupt := .reading } :=
      ⟨inv.accounts, fun _ none => absurd none next, inv.frames⟩
    simpa [ReceptionAction.dispatched, ReceptionAction.accepted] using kept
  | alloc looping next made =>
    simpa [ReceptionAction.dispatched, ReceptionAction.accepted] using inv.alloc next made
  | get idle waiting got =>
    simpa [ReceptionAction.dispatched, ReceptionAction.accepted] using inv.get idle waiting got
  | dispatch idle got =>
    simpa [ReceptionAction.dispatched, ReceptionAction.accepted] using inv.dispatch got
  | free idle done =>
    simpa [ReceptionAction.dispatched, ReceptionAction.accepted] using inv.free idle done

/-! ## Runs -/

theorem Reception.Inv.init (h : reception.init s) : s.Inv [] [] := by
  obtain ⟨box, next, idle, waiting⟩ := h
  refine ⟨?_, fun reading => ?_, ?_⟩
  · rw [held, box, next, waiting]
    exact .empty blocks
  · rw [idle] at reading
    cases reading
  · simp [beingDispatched, queued, box, waiting, Mailbox.empty]

theorem acceptedFrames_snoc {τ : Transition Reception ReceptionAction} :
    acceptedFrames (ts ++ [τ]) = acceptedFrames ts ++ (τ.label.accepted τ.src).toList := by
  cases h : τ.label.accepted τ.src <;> simp [acceptedFrames, h]

theorem dispatchedFrames_snoc {τ : Transition Reception ReceptionAction} :
    dispatchedFrames (ts ++ [τ]) = dispatchedFrames ts ++ τ.label.dispatched.toList := by
  cases h : τ.label.dispatched <;> simp [dispatchedFrames, h]

theorem reception_inv (exec : reception.Execution ts s) :
    s.Inv (dispatchedFrames ts) (acceptedFrames ts) := by
  refine exec.history (I := fun ts s => s.Inv (dispatchedFrames ts) (acceptedFrames ts)) ?_ ?_
  · exact fun s init => .init init
  · intro ts s a t _ inv made
    rw [dispatchedFrames_snoc, acceptedFrames_snoc]
    exact ReceptionStep.inv made inv

/-- Every block is in one place at all times, so the message box is never full when a block is put into
it and no block is freed twice, and the frames are dispatched in the order in which they were read,
but for those that no block was available for. -/
theorem reception_conserves (exec : reception.Execution ts s) :
    (s.messageBox.unused ++ (s.messageBox.queue ++
      (s.nextMessage.toList ++ s.procedure.block.toList))).Perm
        (List.finRange canTransceiverBufferSize) ∧
    (∀ τ ∈ ts, ∀ frame b, τ.label = .read (some frame) → τ.src.nextMessage = some b →
      τ.src.messageBox.queue.length < canTransceiverBufferSize) ∧
    (∀ τ ∈ ts, ∀ b, τ.label = .free → τ.src.procedure.block = some b →
      b ∉ τ.src.messageBox.unused) ∧
    dispatchedFrames ts ++ (s.beingDispatched ++ s.queued) = acceptedFrames ts := by
  have before {τ : Transition Reception ReceptionAction} (taken : τ ∈ ts) :
      ∃ dispatched accepted, τ.src.Inv dispatched accepted := by
    obtain ⟨⟨us, src⟩, -, -⟩ := exec.reachable_of_mem taken
    exact ⟨_, _, reception_inv src⟩
  have inv := reception_inv exec
  refine ⟨inv.accounts, fun τ taken frame b _ next => ?_, fun τ taken b _ held => ?_, inv.frames⟩
  · obtain ⟨_, _, inv⟩ := before taken
    exact inv.queue_length_lt next
  · obtain ⟨_, _, inv⟩ := before taken
    refine inv.accounts.not_mem_unused blocks_nodup (List.mem_append_right _ ?_)
    rw [held]
    exact List.mem_singleton_self b

/-- The message box after its construction. -/
def Reception.constructed : Reception where
  messageBox := .empty blocks
  nextMessage := none
  memory _ := remoteFrame
  trashcan := remoteFrame
  interrupt := .idle
  procedure := .waiting

/-- An activation of the interrupt reads as many frames as there are blocks. -/
theorem reception_fills (frames : List CANMessage) (fits : frames.length ≤ canTransceiverBufferSize) :
    ∃ ts s, reception.Execution ts s ∧ acceptedFrames ts = frames ∧ dispatchedFrames ts = [] ∧
      s.interrupt = .looping ∧ s.nextMessage = none ∧ s.procedure = .waiting ∧
      s.messageBox.unused.length + frames.length = canTransceiverBufferSize := by
  induction frames using List.reverseRecOn with
  | nil =>
    have start : reception.Execution [] Reception.constructed := .init ⟨rfl, rfl, rfl, rfl⟩
    exact ⟨_, _, start.snoc (.rxInterrupt rfl), rfl, rfl, rfl, rfl, rfl, List.length_finRange⟩
  | append_singleton frames frame ih =>
    rw [List.length_append, List.length_singleton] at fits ⊢
    obtain ⟨ts, s, exec, accepted, dispatched, looping, next, waiting, left⟩ := ih (by omega)
    obtain ⟨b, unused⟩ := List.exists_mem_of_length_pos (l := s.messageBox.unused) (by omega)
    have allocated := exec.snoc (ReceptionStep.alloc looping next (.block unused))
    have filled := allocated.snoc (ReceptionStep.read (some frame) rfl)
    rw [readMessage_some rfl] at filled
    refine ⟨_, _, filled, ?_, ?_, rfl, rfl, waiting, ?_⟩
    · rw [acceptedFrames_snoc, acceptedFrames_snoc, accepted, List.append_assoc]
      rfl
    · rw [dispatchedFrames_snoc, dispatchedFrames_snoc, dispatched]
      rfl
    · have shorter := List.length_erase_of_mem unused
      rw [Mailbox.put_unused, shorter]
      omega

/-- An activation of the interrupt reads one frame more than there are blocks, and the task dispatches
the first. -/
theorem reception_overflows (first extra : CANMessage) (later : List CANMessage)
    (fits : (first :: later).length = canTransceiverBufferSize) : ∃ ts s, reception.Execution ts s ∧
      (∃ τ ∈ ts, τ.label = .read (some extra) ∧ ¬ τ.src.HasRoom) ∧
      acceptedFrames ts = first :: later ∧ dispatchedFrames ts = [first] ∧ s.procedure = .waiting := by
  obtain ⟨ts, s, exec, accepted, dispatched, looping, next, waiting, left⟩ :=
    reception_fills (first :: later) fits.le
  have unused : s.messageBox.unused = [] := List.eq_nil_of_length_eq_zero (by omega)
  have full : ¬ Reception.HasRoom { s with nextMessage := none, interrupt := .reading } :=
    not_or.2 ⟨not_not.2 rfl, not_not.2 unused⟩
  have exhausted := exec.snoc (ReceptionStep.alloc looping next (.exhausted unused))
  have dropped := exhausted.snoc (ReceptionStep.read (some extra) rfl)
  have exhausted' := dropped.snoc (ReceptionStep.alloc rfl rfl (.exhausted unused))
  have read := exhausted'.snoc (ReceptionStep.read none rfl)
  have queued : s.messageBox.queue.map s.memory = first :: later := by
    have frames := (reception_inv exec).frames
    rwa [dispatched, accepted, Reception.beingDispatched, waiting] at frames
  obtain ⟨b, rest, queue, oldest, -⟩ := List.map_eq_cons_iff.1 queued
  have got : s.messageBox.get = some (b, ⟨s.messageBox.unused, rest⟩) :=
    Mailbox.get_eq_some.2 ⟨queue, rfl⟩
  have taken := read.snoc (ReceptionStep.get rfl waiting got)
  have made := taken.snoc (ReceptionStep.dispatch rfl rfl)
  have freed := made.snoc (ReceptionStep.free rfl rfl)
  refine ⟨_, _, freed, ?_, ?_, ?_, rfl⟩
  · exact ⟨_, List.mem_append_left _ <| List.mem_append_left _ <| List.mem_append_left _ <|
      List.mem_append_left _ <| List.mem_append_left _ <| List.mem_append_right _ List.mem_cons_self,
      rfl, full⟩
  · simp only [acceptedFrames_snoc, accepted, ReceptionAction.accepted, if_neg full, ite_self,
      Option.toList_none, List.append_nil]
  · simp only [dispatchedFrames_snoc, dispatched]
    exact congrArg (fun frame => [frame]) oldest

/-- The frame that finds no block is dropped, and the others stay in order. -/
theorem reception_conserves_full : ∃ ts s, reception.Execution ts s ∧
    (∃ τ ∈ ts, τ.label = .read (some extendedFrame) ∧ ¬ τ.src.HasRoom) ∧
    dispatchedFrames ts = [remoteFrame] ∧ s.queued = List.replicate 31 extendedFrame := by
  obtain ⟨ts, s, exec, dropped, accepted, dispatched, waiting⟩ :=
    reception_overflows remoteFrame extendedFrame (.replicate 31 extendedFrame)
      (by rw [List.length_cons, List.length_replicate]; rfl)
  have conserved := (reception_conserves exec).2.2.2
  rw [dispatched, accepted, Reception.beingDispatched, waiting] at conserved
  exact ⟨ts, s, exec, dropped, dispatched, List.tail_eq_of_cons_eq conserved⟩

end Ams
