import Ams.Lib.Packed
import Ams.Net.Dispatch

/-!
# Telemetry payloads

The three message services declare a union on the stack, assign its fields and copy all of its bytes
into a message.  What the receiver decodes is what has been assigned, whatever the stack has held;
but `reserved` in the status and the two bits after the bit-fields of the contactor info are never
assigned, so the payload carries what the stack held there (`payloads_carry_iff`).
-/

namespace Ams

open Reactive

def canidAmsHeartbeat : BitVec 32 := 0x200

def canidAmsStatus : BitVec 32 := 0x201

def canidAmsContactorInfo : BitVec 32 := 0x204

variable {n : ℕ} {id : BitVec 32} {as : List Assignment} {a : Assignment}
  {storage storage' : BitVec (8 * n)} {memory memory' : Vector (BitVec 8) 8}

namespace CANMessage

/-- `CANMessage(_id, _data, _len)`.  Only `_len` bytes of the data are written: the others are what
the memory of the message has held. -/
def ofData (id : BitVec 32) (data : List (BitVec 8)) (memory : Vector (BitVec 8) 8) : CANMessage where
  id := id
  data := Vector.ofFn fun i => data.getD i memory[i]
  len := .ofNat 8 data.length &&& 0xF
  format := .canStandard
  type := .canData

/-- The bytes that go onto the bus. -/
def payload (msg : CANMessage) : List (BitVec 8) := msg.data.toList.take msg.len.toNat

theorem payload_ofData {data : List (BitVec 8)} (short : data.length ≤ 8) :
    (ofData id data memory).payload = data := by
  have len : (ofData id data memory).len.toNat = data.length := by
    have masked : (data.length % 2 ^ 8) &&& (2 ^ 4 - 1) = data.length := by
      rw [Nat.and_two_pow_sub_one_eq_mod]
      omega
    exact masked
  refine List.ext_getElem ?_ fun i hi hi' => ?_
  · simp [payload, len, short]
  · have inside : i < 8 := by omega
    simp [payload, ofData, hi']

/-- The message of a union in `storage`, after the assignments to its fields. -/
def ofUnion (id : BitVec 32) (as : List Assignment) (storage : BitVec (8 * n))
    (memory : Vector (BitVec 8) 8) : CANMessage :=
  ofData id (bytes (store as storage)) memory

theorem payload_ofUnion (hn : n ≤ 8) :
    (ofUnion id as storage memory).payload = bytes (store as storage) :=
  payload_ofData (by rwa [length_bytes])

/-- The payloads of two runs are the same if the storage is after the assignments. -/
theorem payload_ofUnion_eq_iff (hn : n ≤ 8) :
    (ofUnion id as storage memory).payload = (ofUnion id as storage' memory').payload ↔
      store as storage = store as storage' := by
  rw [payload_ofUnion hn, payload_ofUnion hn, bytes_injective.eq_iff]

/-- The receiver decodes what has been assigned. -/
theorem read_payload (hn : n ≤ 8) (layout : Layout (8 * n) (fields as)) (ha : a ∈ as) :
    a.field.read (ofBytes n (ofUnion id as storage memory).payload) = a.value := by
  rw [payload_ofUnion hn, ofBytes_bytes, read_store layout ha]

end CANMessage

/-! ## The services -/

/-! The fields of `mm_can_heartbeat_t`, of six bytes. -/

namespace MmCanHeartbeat

def counter : Field := ⟨0, 16⟩

def rxerrors : Field := ⟨16, 16⟩

def txerrors : Field := ⟨32, 16⟩

end MmCanHeartbeat

/-! The fields of `mm_can_status_t`, of four bytes. -/

namespace MmCanStatus

def statusMask : Field := ⟨0, 16⟩

def reserved : Field := ⟨16, 8⟩

def currentState : Field := ⟨24, 8⟩

end MmCanStatus

/-! The bit-fields of `mm_can_contactor_info_t`, of one byte. -/

namespace MmCanContactorInfo

def negDriven : Field := ⟨0, 1⟩

def negFeedback : Field := ⟨1, 1⟩

def negHwerr : Field := ⟨2, 1⟩

def posDriven : Field := ⟨3, 1⟩

def posFeedback : Field := ⟨4, 1⟩

def posHwerr : Field := ⟨5, 1⟩

/-- The bits that belong to no field. -/
def padding : Field := ⟨6, 2⟩

end MmCanContactorInfo

namespace HeartbeatMessageService

open MmCanHeartbeat

/-- The assignments to `hb`; the transceiver has answered `rderrors` and `tderrors`. -/
def assigned (count : BitVec 32) (rderrors tderrors : BitVec 8) : List Assignment :=
  [⟨counter, count.setWidth 16⟩, ⟨rxerrors, rderrors.setWidth 16⟩, ⟨txerrors, tderrors.setWidth 16⟩]

/-- The message that is passed to `Transceiver::write`; `hb` is what the stack has held. -/
def send (count : BitVec 32) (rderrors tderrors : BitVec 8) (hb : BitVec (8 * 6))
    (memory : Vector (BitVec 8) 8) : CANMessage :=
  .ofUnion canidAmsHeartbeat (assigned count rderrors tderrors) hb memory

/-- The payload decodes to the counter and the two error counters. -/
structure Carries (count : BitVec 32) (rderrors tderrors : BitVec 8) (payload : List (BitVec 8)) :
    Prop where
  counter : (counter.read (ofBytes 6 payload)).toNat = count.toNat % 0x10000
  rxerrors : (rxerrors.read (ofBytes 6 payload)).toNat = rderrors.toNat
  txerrors : (txerrors.read (ofBytes 6 payload)).toNat = tderrors.toNat

variable {count : BitVec 32} {rderrors tderrors : BitVec 8} {hb hb' : BitVec (8 * 6)}

theorem layout_assigned : Layout (8 * 6) (fields (assigned count rderrors tderrors)) :=
  (by decide : Layout (8 * 6) [counter, rxerrors, txerrors])

theorem carries_send :
    Carries count rderrors tderrors (send count rderrors tderrors hb memory).payload where
  counter := by
    have given : ⟨counter, count.setWidth 16⟩ ∈ assigned count rderrors tderrors := by simp [assigned]
    rw [send, CANMessage.read_payload (by decide) layout_assigned given]
    exact BitVec.toNat_setWidth ..
  rxerrors := by
    have given : ⟨rxerrors, rderrors.setWidth 16⟩ ∈ assigned count rderrors tderrors := by
      simp [assigned]
    rw [send, CANMessage.read_payload (by decide) layout_assigned given]
    exact BitVec.toNat_setWidth_of_le (by decide)
  txerrors := by
    have given : ⟨txerrors, tderrors.setWidth 16⟩ ∈ assigned count rderrors tderrors := by
      simp [assigned]
    rw [send, CANMessage.read_payload (by decide) layout_assigned given]
    exact BitVec.toNat_setWidth_of_le (by decide)

/-- All 48 bits are assigned. -/
theorem payload_send : (send count rderrors tderrors hb memory).payload =
    (send count rderrors tderrors hb' memory').payload := by
  have covered : ∀ i < 8 * 6, Covers [counter, rxerrors, txerrors] i := by decide
  refine (CANMessage.payload_ofUnion_eq_iff (by decide)).2 (store_eq_iff.2 fun i hi bare => ?_)
  exact absurd (covered i hi) bare

end HeartbeatMessageService

namespace StatusMessageService

open MmCanStatus

/-- The assignments to `smsg`. -/
def assigned (mask : BitVec 16) (state : BitVec 8) : List Assignment :=
  [⟨statusMask, mask⟩, ⟨currentState, state⟩]

/-- The message that is passed to `Transceiver::write`; `smsg` is what the stack has held. -/
def send (mask : BitVec 16) (state : BitVec 8) (smsg : BitVec (8 * 4))
    (memory : Vector (BitVec 8) 8) : CANMessage :=
  .ofUnion canidAmsStatus (assigned mask state) smsg memory

/-- The payload decodes to the mask and the state. -/
structure Carries (mask : BitVec 16) (state : BitVec 8) (payload : List (BitVec 8)) : Prop where
  statusMask : statusMask.read (ofBytes 4 payload) = mask
  currentState : currentState.read (ofBytes 4 payload) = state

variable {mask : BitVec 16} {state : BitVec 8} {smsg smsg' : BitVec (8 * 4)}

theorem layout_assigned : Layout (8 * 4) (fields (assigned mask state)) :=
  (by decide : Layout (8 * 4) [statusMask, currentState])

theorem carries_send : Carries mask state (send mask state smsg memory).payload where
  statusMask := by
    have given : ⟨statusMask, mask⟩ ∈ assigned mask state := by simp [assigned]
    rw [send, CANMessage.read_payload (by decide) layout_assigned given]
  currentState := by
    have given : ⟨currentState, state⟩ ∈ assigned mask state := by simp [assigned]
    rw [send, CANMessage.read_payload (by decide) layout_assigned given]

/-- The payload shows `reserved`, which is not assigned. -/
theorem payload_send_eq_iff : (send mask state smsg memory).payload =
    (send mask state smsg' memory').payload ↔ reserved.read smsg = reserved.read smsg' := by
  have bare : ∀ i < 8 * 4, ¬ Covers [statusMask, currentState] i ↔ reserved.Has i := by decide
  exact (CANMessage.payload_ofUnion_eq_iff (by decide)).trans (store_eq_iff_read (by decide) bare)

end StatusMessageService

/-- The six arguments of `ContactorInfoMessageService::send`. -/
structure ContactorInfo where
  negDriven : Bool
  negFeedback : Bool
  negHwerr : Bool
  posDriven : Bool
  posFeedback : Bool
  posHwerr : Bool
  deriving DecidableEq, Repr

namespace ContactorInfoMessageService

open MmCanContactorInfo

/-- The assignments to `cinfo`. -/
def assigned (info : ContactorInfo) : List Assignment :=
  [⟨negDriven, .ofBool info.negDriven⟩, ⟨negFeedback, .ofBool info.negFeedback⟩,
    ⟨negHwerr, .ofBool info.negHwerr⟩, ⟨posDriven, .ofBool info.posDriven⟩,
    ⟨posFeedback, .ofBool info.posFeedback⟩, ⟨posHwerr, .ofBool info.posHwerr⟩]

/-- The message that is passed to `Transceiver::write`; `cinfo` is what the stack has held. -/
def send (info : ContactorInfo) (cinfo : BitVec (8 * 1)) (memory : Vector (BitVec 8) 8) :
    CANMessage :=
  .ofUnion canidAmsContactorInfo (assigned info) cinfo memory

/-- The contactor bits to which a payload decodes. -/
def decode (payload : List (BitVec 8)) : ContactorInfo where
  negDriven := negDriven.read (ofBytes 1 payload) != 0
  negFeedback := negFeedback.read (ofBytes 1 payload) != 0
  negHwerr := negHwerr.read (ofBytes 1 payload) != 0
  posDriven := posDriven.read (ofBytes 1 payload) != 0
  posFeedback := posFeedback.read (ofBytes 1 payload) != 0
  posHwerr := posHwerr.read (ofBytes 1 payload) != 0

variable {info : ContactorInfo} {cinfo cinfo' : BitVec (8 * 1)}

theorem layout_assigned : Layout (8 * 1) (fields (assigned info)) :=
  (by decide : Layout (8 * 1) [negDriven, negFeedback, negHwerr, posDriven, posFeedback, posHwerr])

theorem decode_bit {k : ℕ} {b : Bool} (given : ⟨⟨k, 1⟩, .ofBool b⟩ ∈ assigned info) :
    ((⟨k, 1⟩ : Field).read (ofBytes 1 (send info cinfo memory).payload) != 0) = b := by
  rw [send, CANMessage.read_payload (by decide) layout_assigned given]
  cases b <;> rfl

theorem decode_send : decode (send info cinfo memory).payload = info := by
  obtain ⟨b₀, b₁, b₂, b₃, b₄, b₅⟩ := info
  simp only [decode, ContactorInfo.mk.injEq]
  refine ⟨?_, ?_, ?_, ?_, ?_, ?_⟩ <;>
    exact decode_bit (by simp [assigned, negDriven, negFeedback, negHwerr, posDriven, posFeedback,
      posHwerr])

/-- The payload shows the two bits that belong to no field. -/
theorem payload_send_eq_iff : (send info cinfo memory).payload = (send info cinfo' memory').payload ↔
    padding.read cinfo = padding.read cinfo' := by
  have bare : ∀ i < 8 * 1, ¬ Covers [negDriven, negFeedback, negHwerr, posDriven, posFeedback,
      posHwerr] i ↔ padding.Has i := by decide
  exact (CANMessage.payload_ofUnion_eq_iff (by decide)).trans (store_eq_iff_read (by decide) bare)

end ContactorInfoMessageService

/-! ## Two runs -/

/-- What the three stacks have held. -/
structure Stacks where
  hb : BitVec (8 * 6)
  smsg : BitVec (8 * 4)
  cinfo : BitVec (8 * 1)

/-- The three payloads are the same in two runs that differ in what the memory has held, and decode
to what has been sent, if and only if the stacks agree in `reserved` and in the two bits after the
bit-fields. -/
theorem payloads_carry_iff (count : BitVec 32) (rderrors tderrors : BitVec 8) (mask : BitVec 16)
    (state : BitVec 8) (info : ContactorInfo) (s s' : Stacks) (memory memory' : Vector (BitVec 8) 8) :
    (let hb := (HeartbeatMessageService.send count rderrors tderrors s.hb memory).payload
     let smsg := (StatusMessageService.send mask state s.smsg memory).payload
     let cinfo := (ContactorInfoMessageService.send info s.cinfo memory).payload
     (hb = (HeartbeatMessageService.send count rderrors tderrors s'.hb memory').payload ∧
        smsg = (StatusMessageService.send mask state s'.smsg memory').payload ∧
        cinfo = (ContactorInfoMessageService.send info s'.cinfo memory').payload) ∧
      HeartbeatMessageService.Carries count rderrors tderrors hb ∧
      StatusMessageService.Carries mask state smsg ∧
      ContactorInfoMessageService.decode cinfo = info) ↔
    MmCanStatus.reserved.read s.smsg = MmCanStatus.reserved.read s'.smsg ∧
      MmCanContactorInfo.padding.read s.cinfo = MmCanContactorInfo.padding.read s'.cinfo := by
  dsimp only
  rw [StatusMessageService.payload_send_eq_iff, ContactorInfoMessageService.payload_send_eq_iff]
  refine ⟨fun carried => carried.1.2, fun agree => ⟨⟨?_, agree⟩, ?_, ?_, ?_⟩⟩
  · exact HeartbeatMessageService.payload_send
  · exact HeartbeatMessageService.carries_send
  · exact StatusMessageService.carries_send
  · exact ContactorInfoMessageService.decode_send

/-- A status payload shows what the stack has held. -/
theorem not_payloads_carry :
    (StatusMessageService.send 0 0 0 (.replicate 8 0)).payload = [0, 0, 0, 0] ∧
      (StatusMessageService.send 0 0 (.allOnes _) (.replicate 8 0)).payload = [0, 0, 0xFF, 0] := by
  decide

end Ams
