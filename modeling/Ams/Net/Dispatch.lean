import Ams.Controller.StateController

/-!
# Received messages

`CANTransceiver::dispatch_message` acts on a message by its identifier, its length and its first data
byte.  The identifiers of standard and extended frames are not told apart, nor are data frames and
remote frames, and a message with another identifier or without data does nothing
(`dispatch_ignores`).
-/

namespace Ams

open Reactive StateController

def canidAmsCommandMessage : BitVec 32 := 0x20C

inductive CANFormat where
  | canStandard
  | canExtended
  | canAny
  deriving DecidableEq, Repr

inductive CANType where
  | canData
  | canRemote
  deriving DecidableEq, Repr

/-- `CAN_Message`, as `can_read` fills it in. -/
structure CANMessage where
  id : BitVec 32
  data : Vector (BitVec 8) 8
  len : BitVec 8
  format : CANFormat
  type : CANType
  deriving DecidableEq, Repr

namespace CANMessage

/-- The message passes the two tests of `dispatch_message`. -/
def IsCommand (msg : CANMessage) : Prop := msg.id = canidAmsCommandMessage ∧ 1 ≤ msg.len

instance (msg : CANMessage) : Decidable msg.IsCommand :=
  inferInstanceAs (Decidable (msg.id = canidAmsCommandMessage ∧ 1 ≤ msg.len))

/-- `msg.data[0] & 1`. -/
def enTr (msg : CANMessage) : Bool := msg.data[0] &&& 1 != 0

/-- `msg.data[0] & 2`. -/
def disCnv (msg : CANMessage) : Bool := msg.data[0] &&& 2 != 0

/-- A data frame with a standard identifier and a command. -/
def IsGenuineCommand (msg : CANMessage) : Prop :=
  msg.format = .canStandard ∧ msg.type = .canData ∧ msg.IsCommand

end CANMessage

/-- The controllers and the output `performConversions`. -/
structure Node where
  world : World
  performConversions : Bool
  deriving DecidableEq, Repr

def BMSController.setConversionsEnable (en : Bool) (s : Node) : Node :=
  { s with performConversions := en }

def CANTransceiver.dispatchMessage (n : ℕ) (msg : CANMessage) (s : Node) : Option Node :=
  if msg.id = canidAmsCommandMessage then
    if 1 ≤ msg.len then do
      let w ← pushTractiveEnable n msg.enTr s.world
      some (BMSController.setConversionsEnable (!msg.disCnv) { s with world := w })
    else some s
  else some s

open CANTransceiver

variable {msg msg' : CANMessage} {s : Node} {n : ℕ}

theorem dispatchMessage_of_isCommand (h : msg.IsCommand) : dispatchMessage n msg s = (do
    let w ← pushTractiveEnable n msg.enTr s.world
    some (BMSController.setConversionsEnable (!msg.disCnv) { s with world := w })) := by
  unfold dispatchMessage
  rw [if_pos h.1, if_pos h.2]

theorem dispatchMessage_of_not_isCommand (h : ¬ msg.IsCommand) :
    dispatchMessage n msg s = some s := by
  unfold dispatchMessage
  split_ifs with hid hlen
  · exact absurd ⟨hid, hlen⟩ h
  · rfl
  · rfl

/-- Only the identifier, the length and the first byte are looked at. -/
theorem dispatchMessage_congr (hid : msg'.id = msg.id) (hlen : msg'.len = msg.len)
    (hdata : msg'.data[0] = msg.data[0]) (n : ℕ) (s : Node) :
    dispatchMessage n msg' s = dispatchMessage n msg s := by
  unfold dispatchMessage CANMessage.enTr CANMessage.disCnv
  rw [hid, hlen, hdata]

/-- Messages with the same identifier, length and first byte do the same, whatever their formats and
types, and a message with another identifier or without data leaves everything as it is. -/
theorem dispatch_ignores (msg : CANMessage) (s : Node) :
    (∀ msg' : CANMessage, msg'.id = msg.id → msg'.len = msg.len → msg'.data[0] = msg.data[0] →
      ∀ n, dispatchMessage n msg' s = dispatchMessage n msg s) ∧
    (¬ (msg.id = canidAmsCommandMessage ∧ 1 ≤ msg.len) →
      Returns (fun n => dispatchMessage n msg s) s) := by
  refine ⟨fun msg' hid hlen hdata n => ?_, fun other => ?_⟩
  · exact dispatchMessage_congr hid hlen hdata n s
  · exact returns_of_eq fun _ => dispatchMessage_of_not_isCommand other

/-- An extended frame whose identifier has the number of the command. -/
def extendedFrame : CANMessage where
  id := canidAmsCommandMessage
  data := #v[1, 0, 0, 0, 0, 0, 0, 0]
  len := 1
  format := .canExtended
  type := .canData

/-- A request for the command frame. -/
def remoteFrame : CANMessage := { extendedFrame with format := .canStandard, type := .canRemote }

/-- The node after the start-up, with the enable bit low. -/
def Node.idle : Node where
  world := { World.powerOn with
    contactorState := .hvcAllOpen
    currentState := .scsWaitingForInternalSafety }
  performConversions := true

/-- The two frames above do the same, and a frame without data does nothing. -/
theorem dispatch_ignores_empty :
    (∀ n, dispatchMessage n remoteFrame .idle = dispatchMessage n extendedFrame .idle) ∧
      Returns (fun n => dispatchMessage n { extendedFrame with len := 0 } .idle) .idle := by
  refine ⟨fun n => ?_, ?_⟩
  · exact (dispatch_ignores extendedFrame .idle).1 remoteFrame rfl rfl rfl n
  · exact (dispatch_ignores { extendedFrame with len := 0 } .idle).2 (by decide)

/-- Both frames raise the enable bit. -/
theorem not_ignored_extendedFrame : ¬ extendedFrame.IsGenuineCommand ∧
    ¬ remoteFrame.IsGenuineCommand ∧ Node.idle.world.tractivePowerEnableBit = false ∧
    (∃ s, Returns (fun n => dispatchMessage n extendedFrame .idle) s ∧
      s.world.tractivePowerEnableBit = true) ∧
    ∃ s, Returns (fun n => dispatchMessage n remoteFrame .idle) s ∧
      s.world.tractivePowerEnableBit = true := by
  have extended (h : extendedFrame.IsGenuineCommand) : False := absurd h.1 (by decide)
  have remote (h : remoteFrame.IsGenuineCommand) : False := absurd h.2.1 (by decide)
  refine ⟨extended, remote, rfl, ?_, ?_⟩
  · exact ⟨_, returns_of_add 8 fun _ => rfl, rfl⟩
  · exact ⟨_, returns_of_add 8 fun _ => rfl, rfl⟩

end Ams
