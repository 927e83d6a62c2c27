import Ams.Service.Messages
import Mathlib.Data.Fintype.Basic

/-!
# The CAN driver

`can_write` packs a message into the registers of a free transmit buffer, and `can_read` unpacks the
receive registers of another controller.  Between them stand the registers and the frame on the bus,
which has no more of the identifier than its format allows.  A message comes out as it went in if
and only if it has at most eight bytes, an identifier that fits and no data in a remote frame
(`survives_iff`), whatever the two stacks have held.
-/

namespace Ams

open Reactive

/-! ## The registers -/

/-- `TFIn`, `TIDn`, `TDAn` and `TDBn`. -/
structure TransmitBuffer where
  tfi : BitVec 32
  tid : BitVec 32
  tda : BitVec 32
  tdb : BitVec 32
  deriving DecidableEq, Repr

/-- The registers of `LPC_CAN_TypeDef` that the driver uses for messages and for the bit rate. -/
structure LpcCan where
  mod : BitVec 32
  gsr : BitVec 32
  btr : BitVec 32
  sr : BitVec 32
  rfs : BitVec 32
  rid : BitVec 32
  rda : BitVec 32
  rdb : BitVec 32
  transmit : Fin 3 → TransmitBuffer

/-- A frame on the bus.  A remote frame carries no data, and no frame more than eight bytes. -/
@[ext]
structure Frame where
  /-- of 29 bits, and not of 11 -/
  extended : Bool
  remote : Bool
  identifier : BitVec 32
  dlc : BitVec 4
  data : List (BitVec 8)
  length_data : data.length = if remote then 0 else min dlc.toNat 8
  deriving DecidableEq, Repr

/-- The bits of an identifier that a frame carries. -/
def identifierMask (extended : Bool) : BitVec 32 := if extended then 0x1FFFFFFF else 0x7FF

/-! The fields of `CANMsg`, of sixteen bytes. -/

namespace CANMsg

def dlc : Field := ⟨16, 4⟩

def rtr : Field := ⟨30, 1⟩

def type : Field := ⟨31, 1⟩

def id : Field := ⟨32, 32⟩

def data (i : ℕ) : Field := byteAt (8 + i)

/-- The words of the structure. -/
def word (k : ℕ) : Field := ⟨32 * k, 32⟩

def buf (m : BitVec (8 * 16)) (k : ℕ) : BitVec 32 := (word k).read m

end CANMsg

/-- The frame of a transmit buffer. -/
def TransmitBuffer.frame (b : TransmitBuffer) : Frame where
  extended := CANMsg.type.read b.tfi != 0
  remote := CANMsg.rtr.read b.tfi != 0
  identifier := b.tid &&& identifierMask (CANMsg.type.read b.tfi != 0)
  dlc := CANMsg.dlc.read b.tfi
  data := if CANMsg.rtr.read b.tfi != 0 then [] else
    (bytes (n := 8) (b.tdb ++ b.tda)).take (CANMsg.dlc.read b.tfi).toNat
  length_data := by
    split_ifs
    · rfl
    · rw [List.length_take, length_bytes]
      rfl

namespace LpcCan

/-- `TBSk` of `SR`: the buffer may be written. -/
def Free (k : Fin 3) (dev : LpcCan) : Prop := dev.sr.getLsbD (2 + 8 * k)

instance (k : Fin 3) (dev : LpcCan) : Decidable (dev.Free k) :=
  inferInstanceAs (Decidable (dev.sr.getLsbD (2 + 8 * k) = true))

/-- The receive registers hold the frame.  The bits of `RID` above the identifier read as zero, while
nothing is known of the other bits of `RFS`, nor of the data registers after the data of the frame. -/
structure Holds (f : Frame) (dev : LpcCan) : Prop where
  rbs : dev.gsr.getLsbD 0
  extended : (CANMsg.type.read dev.rfs != 0) = f.extended
  remote : (CANMsg.rtr.read dev.rfs != 0) = f.remote
  dlc : CANMsg.dlc.read dev.rfs = f.dlc
  identifier : dev.rid = f.identifier
  data : (bytes (n := 8) (dev.rdb ++ dev.rda)).take f.data.length = f.data

/-- What the controller does when `CMR` is written: `TR` and `SRR` lock the buffers that `STB1`,
`STB2` and `STB3` select, and `RRB` releases the receive buffer. -/
def command (cmr : BitVec 32) (dev : LpcCan) : LpcCan :=
  let selected (k : ℕ) : BitVec 32 :=
    if (cmr.getLsbD 0 || cmr.getLsbD 4) && cmr.getLsbD (5 + k) then .twoPow 32 (2 + 8 * k) else 0
  { dev with
    sr := dev.sr &&& ~~~(selected 0 ||| selected 1 ||| selected 2)
    gsr := if cmr.getLsbD 2 then dev.gsr &&& ~~~1 else dev.gsr }

end LpcCan

/-! ## The functions of the driver -/

/-- `memcpy` between two arrays of eight bytes, unless it runs past their ends. -/
def memcpy (dest src : Vector (BitVec 8) 8) (n : ℕ) : Option (Vector (BitVec 8) 8) :=
  if n ≤ 8 then some (.ofFn fun i => if i < n then src.get i else dest.get i) else none

def canEnable (dev : LpcCan) : LpcCan :=
  if dev.mod &&& 1 != 0 then { dev with mod := dev.mod &&& ~~~1 } else dev

def canRderror (dev : LpcCan) : BitVec 8 := (dev.gsr >>> 16 &&& 0xFF).setWidth 8

def canTderror (dev : LpcCan) : BitVec 8 := (dev.gsr >>> 24 &&& 0xFF).setWidth 8

/-- The value of a `CANFormat` in one bit. -/
def CANFormat.bit : CANFormat → BitVec 1
  | canExtended => 1
  | canStandard | canAny => 0

/-- The value of a `CANType` in one bit. -/
def CANType.bit : CANType → BitVec 1
  | canRemote => 1
  | canData => 0

namespace CANMsg

/-- The array `m.data`. -/
def array (m : BitVec (8 * 16)) : Vector (BitVec 8) 8 := .ofFn fun i => (data i).read m

/-- The assignments to `m`, when `copied` is in `m.data` afterwards. -/
def assigned (msg : CANMessage) (copied : Vector (BitVec 8) 8) : List Assignment :=
  [⟨id, msg.id⟩, ⟨dlc, (msg.len &&& 0xF).setWidth 4⟩, ⟨rtr, msg.type.bit⟩,
    ⟨type, msg.format.bit⟩] ++ (List.finRange 8).map fun i => ⟨data i, copied.get i⟩

end CANMsg

/-- What is written to a transmit buffer. -/
def TransmitBuffer.ofCANMsg (m : BitVec (8 * 16)) : TransmitBuffer where
  tfi := CANMsg.buf m 0 &&& 0xC00F0000
  tid := CANMsg.buf m 1
  tda := CANMsg.buf m 2
  tdb := CANMsg.buf m 3

/-- One of the three branches of `can_write`. -/
def LpcCan.load (k : Fin 3) (m : BitVec (8 * 16)) (cmr : BitVec 32) (dev : LpcCan) : LpcCan :=
  { dev with transmit := Function.update dev.transmit k (.ofCANMsg m) : LpcCan }.command cmr

/-- The registers and the result, unless `memcpy` runs past the end of `m`; `m` is what the stack
has held. -/
def canWrite (msg : CANMessage) (cc : Bool) (m : BitVec (8 * 16)) (dev : LpcCan) :
    Option (LpcCan × Bool) := do
  let dev := canEnable dev
  let data ← memcpy (CANMsg.array m) msg.data msg.len.toNat
  let m := store (CANMsg.assigned msg data) m
  let cc := if dev.mod &&& 0x04 != 0 then true else cc
  if dev.sr &&& 0x00000004 != 0 then
    some (dev.load 0 m (if cc then 0x30 else 0x21), true)
  else if dev.sr &&& 0x00000400 != 0 then
    some (dev.load 1 m (if cc then 0x50 else 0x41), true)
  else if dev.sr &&& 0x00040000 != 0 then
    some (dev.load 2 m (if cc then 0x90 else 0x81), true)
  else some (dev, false)

/-- The registers, the message and the result, unless `memcpy` runs past the ends of `x` and of the
message; `x` is what the stack has held. -/
def canRead (msg : CANMessage) (x : BitVec (8 * 16)) (dev : LpcCan) :
    Option (LpcCan × CANMessage × Bool) :=
  let dev := canEnable dev
  if dev.gsr &&& 1 != 0 then do
    let x := store [⟨CANMsg.word 0, dev.rfs⟩, ⟨CANMsg.word 1, dev.rid⟩, ⟨CANMsg.word 2, dev.rda⟩,
      ⟨CANMsg.word 3, dev.rdb⟩] x
    let dev := dev.command 0x04
    let data ← memcpy msg.data (CANMsg.array x) (CANMsg.dlc.read x).toNat
    some (dev,
      { id := CANMsg.id.read x
        data := data
        len := (CANMsg.dlc.read x).setWidth 8
        format := if CANMsg.type.read x != 0 then .canExtended else .canStandard
        type := if CANMsg.rtr.read x != 0 then .canRemote else .canData }, true)
  else some (dev, msg, false)

/-! ## Memory -/

variable {msg msg' former : CANMessage} {cc : Bool} {m x : BitVec (8 * 16)} {dev dev' rx : LpcCan}
  {copied : Vector (BitVec 8) 8} {k j : Fin 3} {f : Frame}

theorem memcpy_eq_some {dest src : Vector (BitVec 8) 8} {n : ℕ} : memcpy dest src n = some copied ↔
    n ≤ 8 ∧ copied = .ofFn fun i : Fin 8 => if i < n then src.get i else dest.get i := by
  unfold memcpy
  split_ifs with short
  · simp [short, eq_comm]
  · simp [short]

/-- The bytes that have been copied are those of the source. -/
theorem take_memcpy {dest src : Vector (BitVec 8) 8} {n : ℕ}
    (made : memcpy dest src n = some copied) : copied.toList.take n = src.toList.take n := by
  obtain ⟨short, rfl⟩ := memcpy_eq_some.1 made
  refine List.ext_getElem (by simp) fun i hi hi' => ?_
  have inside : i < n := by
    rw [List.length_take] at hi
    omega
  simp [inside]
  rfl

namespace CANMsg

theorem layout_assigned : Layout (8 * 16) (fields (assigned msg copied)) :=
  (by decide : Layout (8 * 16) ([id, dlc, rtr, type] ++ (List.finRange 8).map fun i => data i))

theorem getElem_array {i : ℕ} (hi : i < 8) (m : BitVec (8 * 16)) :
    (array m)[i] = (data i).read m :=
  Vector.getElem_ofFn hi

/-- The array and the last two words hold the same bytes. -/
theorem bytes_buf (m : BitVec (8 * 16)) :
    bytes (n := 8) (buf m 3 ++ buf m 2) = (array m).toList := by
  have joined : buf m 3 ++ buf m 2 = (⟨64, 64⟩ : Field).read m :=
    BitVec.extractLsb'_append_extractLsb'_eq_extractLsb' rfl
  refine List.ext_getElem (by simp [length_bytes]) fun i hi hi' => ?_
  have inside : i < 8 := by rwa [length_bytes] at hi
  have within : 8 * i + 8 ≤ 64 := by omega
  have place : 64 + 8 * i = 8 * (8 + i) := by omega
  have slice : (byteAt i).read ((⟨64, 64⟩ : Field).read m) = (⟨64 + 8 * i, 8⟩ : Field).read m :=
    Field.read_read (f := ⟨64, 64⟩) within m
  have byte : (bytes (n := 8) (buf m 3 ++ buf m 2))[i] = (byteAt i).read (buf m 3 ++ buf m 2) :=
    List.getElem_ofFn ..
  have element : (⟨64 + 8 * i, 8⟩ : Field).read m = (data i).read m :=
    congrArg (fun start : ℕ => m.extractLsb' start 8) place
  refine byte.trans ?_
  rw [joined]
  exact (slice.trans element).trans (getElem_array inside m).symm

/-- A field of the first word is one of the structure. -/
theorem read_buf (g : Field) (inside : g.start + g.width ≤ 32) (m : BitVec (8 * 16)) :
    g.read (buf m 0) = g.read m :=
  (Field.read_read (f := word 0) inside m).trans
    (congrArg (fun start : ℕ => m.extractLsb' start g.width) (Nat.zero_add _))

/-- The mask keeps the field in the first word. -/
theorem read_tfi (g : Field) (inside : g.start + g.width ≤ 32)
    (keeps : g.read (0xC00F0000 : BitVec 32) = .allOnes g.width) (m : BitVec (8 * 16)) :
    g.read (TransmitBuffer.ofCANMsg m).tfi = g.read m :=
  (Field.read_and keeps _).trans (read_buf g inside m)

/-- The structure `m`, after the assignments and `memcpy`. -/
structure Packs (msg : CANMessage) (copied : Vector (BitVec 8) 8) (m : BitVec (8 * 16)) : Prop where
  id : id.read m = msg.id
  dlc : dlc.read m = (msg.len &&& 0xF).setWidth 4
  rtr : rtr.read m = msg.type.bit
  type : type.read m = msg.format.bit
  array : array m = copied

theorem packs_store : Packs msg copied (store (assigned msg copied) m) := by
  have given {a : Assignment} (ha : a ∈ assigned msg copied) :
      a.field.read (store (assigned msg copied) m) = a.value :=
    read_store layout_assigned ha m
  refine ⟨?_, ?_, ?_, ?_, Vector.ext fun i hi => ?_⟩
  · exact given (a := ⟨id, msg.id⟩) (by simp [assigned])
  · exact given (a := ⟨dlc, (msg.len &&& 0xF).setWidth 4⟩) (by simp [assigned])
  · exact given (a := ⟨rtr, msg.type.bit⟩) (by simp [assigned])
  · exact given (a := ⟨type, msg.format.bit⟩) (by simp [assigned])
  · rw [getElem_array hi]
    have element : (⟨data i, copied.get ⟨i, hi⟩⟩ : Assignment) ∈ assigned msg copied :=
      List.mem_append_right _ (List.mem_map.2 ⟨⟨i, hi⟩, List.mem_finRange _, rfl⟩)
    exact given element

end CANMsg

/-! ## Writing -/

/-- The frame that `can_write` asks the controller to send. -/
def CANMessage.frame (msg : CANMessage) : Frame where
  extended := msg.format = .canExtended
  remote := msg.type = .canRemote
  identifier := msg.id &&& identifierMask (msg.format = .canExtended)
  dlc := (msg.len &&& 0xF).setWidth 4
  data := if msg.type = .canRemote then [] else
    msg.data.toList.take ((msg.len &&& 0xF).setWidth 4).toNat
  length_data := by
    by_cases remote : msg.type = .canRemote <;> simp [remote]

theorem CANFormat.bit_ne_zero (format : CANFormat) :
    (format.bit != 0) = decide (format = .canExtended) := by
  cases format <;> rfl

theorem CANType.bit_ne_zero (type : CANType) : (type.bit != 0) = decide (type = .canRemote) := by
  cases type <;> rfl

theorem CANMessage.toNat_dlc (short : msg.len.toNat ≤ 8) :
    ((msg.len &&& 0xF).setWidth 4).toNat = msg.len.toNat := by
  have masked : msg.len.toNat &&& (2 ^ 4 - 1) = msg.len.toNat := by
    rw [Nat.and_two_pow_sub_one_eq_mod]
    omega
  have small : msg.len.toNat % 2 ^ 4 = msg.len.toNat := Nat.mod_eq_of_lt (by omega)
  rw [BitVec.toNat_setWidth, BitVec.toNat_and]
  exact (congrArg (· % 2 ^ 4) masked).trans small

/-- The buffer does not show what the stack has held, but for the bytes after the data. -/
theorem frame_ofCANMsg (packs : CANMsg.Packs msg copied m) (short : msg.len.toNat ≤ 8)
    (same : copied.toList.take msg.len.toNat = msg.payload) :
    (TransmitBuffer.ofCANMsg m).frame = msg.frame := by
  have extended : (CANMsg.type.read (TransmitBuffer.ofCANMsg m).tfi != 0) =
      decide (msg.format = .canExtended) := by
    rw [CANMsg.read_tfi _ (by decide) (by decide), packs.type]
    exact CANFormat.bit_ne_zero _
  have remote : (CANMsg.rtr.read (TransmitBuffer.ofCANMsg m).tfi != 0) =
      decide (msg.type = .canRemote) := by
    rw [CANMsg.read_tfi _ (by decide) (by decide), packs.rtr]
    exact CANType.bit_ne_zero _
  have dlc : CANMsg.dlc.read (TransmitBuffer.ofCANMsg m).tfi = (msg.len &&& 0xF).setWidth 4 := by
    rw [CANMsg.read_tfi _ (by decide) (by decide)]
    exact packs.dlc
  have tid : (TransmitBuffer.ofCANMsg m).tid = msg.id := packs.id
  have len : (CANMsg.dlc.read (TransmitBuffer.ofCANMsg m).tfi).toNat = msg.len.toNat :=
    (congrArg BitVec.toNat dlc).trans (CANMessage.toNat_dlc short)
  have data : (bytes (n := 8) ((TransmitBuffer.ofCANMsg m).tdb ++
      (TransmitBuffer.ofCANMsg m).tda)).take (CANMsg.dlc.read (TransmitBuffer.ofCANMsg m).tfi).toNat =
        msg.payload := by
    rw [len, ← same, ← packs.array]
    exact congrArg (·.take msg.len.toNat) (CANMsg.bytes_buf m)
  refine Frame.ext extended remote ?_ dlc ?_
  · simp only [TransmitBuffer.frame, CANMessage.frame, tid, extended]
  · simp only [TransmitBuffer.frame, CANMessage.frame, data, remote, decide_eq_true_eq,
      CANMessage.toNat_dlc short, CANMessage.payload]

/-! ## The transmit buffers -/

namespace LpcCan

theorem canEnable_eq (dev : LpcCan) : ∃ mod, canEnable dev = { dev with mod := mod } := by
  unfold canEnable
  split_ifs
  · exact ⟨_, rfl⟩
  · exact ⟨dev.mod, rfl⟩

theorem canEnable_sr (dev : LpcCan) : (canEnable dev).sr = dev.sr := by
  obtain ⟨mod, enabled⟩ := canEnable_eq dev
  rw [enabled]

theorem canEnable_transmit (dev : LpcCan) : (canEnable dev).transmit = dev.transmit := by
  obtain ⟨mod, enabled⟩ := canEnable_eq dev
  rw [enabled]

/-- A command for the buffer `k` and no other. -/
def Requests (cmr : BitVec 32) (k : Fin 3) : Prop :=
  ∀ j : Fin 3, ((cmr.getLsbD 0 || cmr.getLsbD 4) && cmr.getLsbD (5 + j)) = decide (j = k)

instance (cmr : BitVec 32) (k : Fin 3) : Decidable (Requests cmr k) :=
  inferInstanceAs (Decidable (∀ j : Fin 3,
    ((cmr.getLsbD 0 || cmr.getLsbD 4) && cmr.getLsbD (5 + j)) = decide (j = k)))

theorem getLsbD_selected {c : Bool} {i l : ℕ} (hl : l < 32) :
    (if c then BitVec.twoPow 32 i else 0).getLsbD l = (c && decide (l = i)) := by
  cases c
  · simp
  · simp [hl, eq_comm]

theorem free_command (cmr : BitVec 32) : (dev.command cmr).Free j ↔
    dev.Free j ∧ ((cmr.getLsbD 0 || cmr.getLsbD 4) && cmr.getLsbD (5 + j)) = false := by
  have hj : 2 + 8 * (j : ℕ) < 32 := by omega
  unfold Free command
  dsimp only
  rw [BitVec.getLsbD_and, BitVec.getLsbD_not, BitVec.getLsbD_or, BitVec.getLsbD_or,
    getLsbD_selected hj, getLsbD_selected hj, getLsbD_selected hj]
  generalize (cmr.getLsbD 0 || cmr.getLsbD 4) = request
  obtain rfl | rfl | rfl : j = 0 ∨ j = 1 ∨ j = 2 := by omega
  all_goals cases request <;> simp

/-- After the message has been put into the buffer `k`. -/
structure Loaded (k : Fin 3) (msg : CANMessage) (dev dev' : LpcCan) : Prop where
  free : dev.Free k
  locks : ∀ j, dev'.Free j ↔ dev.Free j ∧ j ≠ k
  frame : (dev'.transmit k).frame = msg.frame
  others : ∀ j, j ≠ k → dev'.transmit j = dev.transmit j

theorem load_loaded {cmr : BitVec 32} (free : dev.Free k) (requests : Requests cmr k)
    (packs : CANMsg.Packs msg copied m) (short : msg.len.toNat ≤ 8)
    (same : copied.toList.take msg.len.toNat = msg.payload) :
    Loaded k msg dev ((canEnable dev).load k m cmr) := by
  refine ⟨free, fun j => ?_, ?_, fun j other => ?_⟩
  · rw [load, free_command, requests j, decide_eq_false_iff_not]
    simp only [Free, canEnable_sr]
  · have loaded : ((canEnable dev).load k m cmr).transmit k = .ofCANMsg m := Function.update_self ..
    rw [loaded]
    exact frame_ofCANMsg packs short same
  · have kept : ((canEnable dev).load k m cmr).transmit j = (canEnable dev).transmit j :=
      Function.update_of_ne other ..
    rw [kept, canEnable_transmit]

/-- The test of a bit. -/
theorem and_bne_zero {w i : ℕ} {mask : BitVec w} (bit : mask = .twoPow w i) (hi : i < w)
    (reg : BitVec w) : (reg &&& mask != 0) = reg.getLsbD i := by
  rw [bit, BitVec.and_twoPow]
  have set : BitVec.twoPow w i ≠ 0 := fun zero => by
    have bit := congrArg (·.getLsbD i) zero
    simp [hi] at bit
  cases reg.getLsbD i
  · simp
  · simpa using set

end LpcCan

open LpcCan

/-- The message is put into a free buffer, unless there is none. -/
theorem canWrite_spec (cc : Bool) (m : BitVec (8 * 16)) (dev : LpcCan) (short : msg.len.toNat ≤ 8) :
    (∃ k dev', canWrite msg cc m dev = some (dev', true) ∧ dev.Loaded k msg dev') ∨
      canWrite msg cc m dev = some (canEnable dev, false) ∧ ∀ k, ¬ dev.Free k := by
  obtain ⟨copied, made⟩ : ∃ copied, memcpy (CANMsg.array m) msg.data msg.len.toNat = some copied :=
    ⟨_, memcpy_eq_some.2 ⟨short, rfl⟩⟩
  have tbs (k : Fin 3) {mask : BitVec 32} (bit : mask = .twoPow 32 (2 + 8 * k)) :
      ((canEnable dev).sr &&& mask != 0) = true ↔ dev.Free k := by
    rw [and_bne_zero bit (by omega), canEnable_sr, Free]
  have first : ((canEnable dev).sr &&& 0x00000004 != 0) = true ↔ dev.Free 0 := tbs 0 (by decide)
  have second : ((canEnable dev).sr &&& 0x00000400 != 0) = true ↔ dev.Free 1 := tbs 1 (by decide)
  have third : ((canEnable dev).sr &&& 0x00040000 != 0) = true ↔ dev.Free 2 := tbs 2 (by decide)
  have loaded {k : Fin 3} (free : dev.Free k) {cmr : BitVec 32} (requests : Requests cmr k) :=
    load_loaded free requests (CANMsg.packs_store (m := m)) short (take_memcpy made)
  have requests (c : Bool) : Requests (if c then 0x30 else 0x21) 0 ∧
      Requests (if c then 0x50 else 0x41) 1 ∧ Requests (if c then 0x90 else 0x81) 2 := by
    cases c <;> decide
  unfold canWrite
  simp only [made, Option.bind_eq_bind, Option.bind_some]
  generalize (if (canEnable dev).mod &&& 0x04 != 0 then true else cc) = c
  by_cases free : dev.Free 0
  · rw [if_pos (first.2 free)]
    exact .inl ⟨0, _, rfl, loaded free (requests c).1⟩
  by_cases free' : dev.Free 1
  · rw [if_neg (mt first.1 free), if_pos (second.2 free')]
    exact .inl ⟨1, _, rfl, loaded free' (requests c).2.1⟩
  by_cases free'' : dev.Free 2
  · rw [if_neg (mt first.1 free), if_neg (mt second.1 free'), if_pos (third.2 free'')]
    exact .inl ⟨2, _, rfl, loaded free'' (requests c).2.2⟩
  · rw [if_neg (mt first.1 free), if_neg (mt second.1 free'), if_neg (mt third.1 free'')]
    refine .inr ⟨rfl, fun k => ?_⟩
    obtain rfl | rfl | rfl : k = 0 ∨ k = 1 ∨ k = 2 := by omega
    · exact free
    · exact free'
    · exact free''

/-! ## Reading -/

/-- The message into which the frame in the receive registers is unpacked. -/
structure LpcCan.Reads (f : Frame) (rx : LpcCan) (msg : CANMessage) : Prop where
  id : msg.id = f.identifier
  len : msg.len.toNat = f.dlc.toNat
  format : msg.format = if f.extended then .canExtended else .canStandard
  type : msg.type = if f.remote then .canRemote else .canData
  payload : msg.payload = (bytes (n := 8) (rx.rdb ++ rx.rda)).take f.dlc.toNat

/-- The payload of a data frame. -/
theorem LpcCan.Reads.payload_eq (reads : rx.Reads f msg) (holds : rx.Holds f)
    (data : f.remote = false) (short : f.dlc.toNat ≤ 8) : msg.payload = f.data := by
  have length : f.data.length = f.dlc.toNat := by
    rw [f.length_data, data]
    simpa using short
  rw [reads.payload, ← length]
  exact holds.data

/-- The words of `x` after the assignments. -/
theorem CANMsg.buf_words (w₀ w₁ w₂ w₃ : BitVec 32) (x : BitVec (8 * 16)) :
    buf (store [⟨word 0, w₀⟩, ⟨word 1, w₁⟩, ⟨word 2, w₂⟩, ⟨word 3, w₃⟩] x) 0 = w₀ ∧
      buf (store [⟨word 0, w₀⟩, ⟨word 1, w₁⟩, ⟨word 2, w₂⟩, ⟨word 3, w₃⟩] x) 1 = w₁ ∧
      buf (store [⟨word 0, w₀⟩, ⟨word 1, w₁⟩, ⟨word 2, w₂⟩, ⟨word 3, w₃⟩] x) 2 = w₂ ∧
      buf (store [⟨word 0, w₀⟩, ⟨word 1, w₁⟩, ⟨word 2, w₂⟩, ⟨word 3, w₃⟩] x) 3 = w₃ := by
  have layout : Layout (8 * 16) (fields [⟨word 0, w₀⟩, ⟨word 1, w₁⟩, ⟨word 2, w₂⟩, ⟨word 3, w₃⟩]) :=
    (by decide : Layout (8 * 16) [word 0, word 1, word 2, word 3])
  refine ⟨?_, ?_, ?_, ?_⟩
  · exact read_store layout (a := ⟨word 0, w₀⟩) (by simp) x
  · exact read_store layout (a := ⟨word 1, w₁⟩) (by simp) x
  · exact read_store layout (a := ⟨word 2, w₂⟩) (by simp) x
  · exact read_store layout (a := ⟨word 3, w₃⟩) (by simp) x

/-- `x` after the assignments, when the registers hold the frame. -/
structure CANMsg.Unpacks (f : Frame) (rx : LpcCan) (x : BitVec (8 * 16)) : Prop where
  id : id.read x = f.identifier
  dlc : dlc.read x = f.dlc
  rtr : (rtr.read x != 0) = f.remote
  type : (type.read x != 0) = f.extended
  array : (array x).toList = bytes (n := 8) (rx.rdb ++ rx.rda)

theorem CANMsg.unpacks_store (x : BitVec (8 * 16)) (holds : rx.Holds f) :
    Unpacks f rx (store [⟨word 0, rx.rfs⟩, ⟨word 1, rx.rid⟩, ⟨word 2, rx.rda⟩,
      ⟨word 3, rx.rdb⟩] x) := by
  obtain ⟨rfs, rid, rda, rdb⟩ := buf_words rx.rfs rx.rid rx.rda rx.rdb x
  refine ⟨?_, ?_, ?_, ?_, ?_⟩
  · exact rid.trans holds.identifier
  · rw [← read_buf dlc (by decide), rfs]
    exact holds.dlc
  · rw [← read_buf rtr (by decide), rfs]
    exact holds.remote
  · rw [← read_buf type (by decide), rfs]
    exact holds.extended
  · rw [← bytes_buf, rda, rdb]

/-- The frame in the receive registers is unpacked, unless its data length code is above eight. -/
theorem canRead_spec (former : CANMessage) (x : BitVec (8 * 16)) (holds : rx.Holds f) :
    (f.dlc.toNat ≤ 8 → ∃ rx' msg', canRead former x rx = some (rx', msg', true) ∧ rx.Reads f msg') ∧
      (8 < f.dlc.toNat → canRead former x rx = none) := by
  obtain ⟨mod, enabled⟩ := canEnable_eq rx
  have rbs : (rx.gsr &&& 1 != 0) = true := by
    rw [and_bne_zero (i := 0) (by decide) (by decide)]
    exact holds.rbs
  have unpacks := CANMsg.unpacks_store x holds
  unfold canRead
  rw [enabled]
  simp only [rbs, if_true]
  generalize store [_, _, _, _] x = x' at unpacks ⊢
  have dlc : (CANMsg.dlc.read x').toNat = f.dlc.toNat := congrArg BitVec.toNat unpacks.dlc
  refine ⟨fun short => ?_, fun long => ?_⟩
  · obtain ⟨copied, made⟩ : ∃ copied,
        memcpy former.data (CANMsg.array x') (CANMsg.dlc.read x').toNat = some copied :=
      ⟨_, memcpy_eq_some.2 ⟨dlc ▸ short, rfl⟩⟩
    have len : ((CANMsg.dlc.read x').setWidth 8).toNat = f.dlc.toNat := by
      rw [BitVec.toNat_setWidth_of_le (by decide), dlc]
    rw [made]
    refine ⟨_, _, rfl, unpacks.id, len, ?_, ?_, ?_⟩
    · simp only [unpacks.type]
    · simp only [unpacks.rtr]
    · rw [CANMessage.payload, len, ← dlc, take_memcpy made, unpacks.array]
  · have none : memcpy former.data (CANMsg.array x') (CANMsg.dlc.read x').toNat = none := by
      unfold memcpy
      rw [dlc, if_neg (by omega)]
    rw [none]
    rfl

/-! ## From one controller to another -/

namespace CANMessage

/-- The messages look the same to those who send and read them. -/
structure Same (msg msg' : CANMessage) : Prop where
  id : msg'.id = msg.id
  len : msg'.len = msg.len
  format : msg'.format = msg.format
  type : msg'.type = msg.type
  payload : msg'.payload = msg.payload

/-- At most eight bytes of data, none in a remote frame, and an identifier that the format has room
for. -/
structure Fits (msg : CANMessage) : Prop where
  short : msg.len.toNat ≤ 8
  empty : msg.type = .canRemote → msg.len.toNat = 0
  identifier : msg.id &&& identifierMask (msg.format = .canExtended) = msg.id
  format : msg.format ≠ .canAny

/-- Written to a controller with a free buffer, the message is put into one, and read the same from
every controller that holds the frame. -/
def Survives (msg : CANMessage) : Prop := ∀ cc m dev, (∃ k, dev.Free k) →
  ∃ k dev', canWrite msg cc m dev = some (dev', true) ∧ dev.Free k ∧ ¬ dev'.Free k ∧
    ∀ rx former x, rx.Holds (dev'.transmit k).frame →
      ∃ rx' msg', canRead former x rx = some (rx', msg', true) ∧ msg.Same msg'

theorem frame_dlc (short : msg.len.toNat ≤ 8) : msg.frame.dlc.toNat = msg.len.toNat :=
  toNat_dlc short

theorem frame_data (short : msg.len.toNat ≤ 8) (data : msg.type = .canData) :
    msg.frame.data = msg.payload := by
  have notRemote : msg.type ≠ .canRemote := by simp [data]
  simp only [frame, if_neg notRemote, toNat_dlc short, payload]

theorem Fits.same (fits : msg.Fits) (holds : rx.Holds msg.frame) (reads : rx.Reads msg.frame msg') :
    msg.Same msg' := by
  have len : msg'.len.toNat = msg.len.toNat := reads.len.trans (frame_dlc fits.short)
  refine ⟨reads.id.trans fits.identifier, BitVec.eq_of_toNat_eq len, ?_, ?_, ?_⟩
  · rw [reads.format]
    cases format : msg.format with
    | canAny => exact absurd format fits.format
    | _ => simp [frame, format]
  · rw [reads.type]
    cases type : msg.type <;> simp [frame, type]
  · cases type : msg.type with
    | canData =>
      have data : msg.frame.remote = false := by simp [frame, type]
      rw [reads.payload_eq holds data (frame_dlc fits.short ▸ fits.short),
        frame_data fits.short type]
    | canRemote => rw [payload, payload, len, fits.empty type, List.take_zero, List.take_zero]

theorem Fits.survives (fits : msg.Fits) : msg.Survives := by
  intro cc m dev ⟨k, free⟩
  rcases canWrite_spec cc m dev fits.short with ⟨k, dev', written, loaded⟩ | ⟨-, full⟩
  · have locked : ¬ dev'.Free k := fun free => ((loaded.locks k).1 free).2 rfl
    refine ⟨k, dev', written, loaded.free, locked, fun rx former x holds => ?_⟩
    rw [loaded.frame] at holds
    obtain ⟨rx', msg', made, reads⟩ :=
      (canRead_spec former x holds).1 (frame_dlc fits.short ▸ fits.short)
    exact ⟨rx', msg', made, fits.same holds reads⟩
  · exact absurd free (full k)

end CANMessage

/-- A controller whose buffers are free. -/
def LpcCan.ready : LpcCan where
  mod := 0
  gsr := 0
  btr := 0
  sr := 0x00040404
  rfs := 0
  rid := 0
  rda := 0
  rdb := 0
  transmit _ := ⟨0, 0, 0, 0⟩

/-- A controller that has received the frame of a buffer, with `v` in the data registers. -/
def LpcCan.holding (b : TransmitBuffer) (v : BitVec (8 * 8)) : LpcCan :=
  { ready with
    gsr := 1
    rfs := b.tfi
    rid := b.frame.identifier
    rda := v.extractLsb' 0 32
    rdb := v.extractLsb' 32 32 }

theorem LpcCan.bytes_holding (b : TransmitBuffer) (v : BitVec (8 * 8)) :
    bytes (n := 8) ((holding b v).rdb ++ (holding b v).rda) = bytes v := by
  have joined (u : BitVec (32 + 32)) : u.extractLsb' 32 32 ++ u.extractLsb' 0 32 = u :=
    BitVec.extractLsb'_append_extractLsb'
  exact congrArg (bytes (n := 8)) (joined v)

theorem LpcCan.holding_holds {b : TransmitBuffer} {v : BitVec (8 * 8)}
    (data : (bytes v).take b.frame.data.length = b.frame.data) : (holding b v).Holds b.frame := by
  refine ⟨(by decide : (1 : BitVec 32).getLsbD 0), rfl, rfl, rfl, rfl, ?_⟩
  rw [bytes_holding]
  exact data

/-- The data registers may hold the data of the frame. -/
theorem TransmitBuffer.exists_bytes (b : TransmitBuffer) :
    ∃ v : BitVec (8 * 8), (bytes v).take b.frame.data.length = b.frame.data := by
  refine ⟨b.tdb ++ b.tda, (List.prefix_iff_eq_take.1 ?_).symm⟩
  simp only [frame]
  split_ifs
  · exact List.nil_prefix
  · exact List.take_prefix ..

theorem canWrite_short {r : LpcCan × Bool} (written : canWrite msg cc m dev = some r) :
    msg.len.toNat ≤ 8 := by
  unfold canWrite at written
  cases made : memcpy (CANMsg.array m) msg.data msg.len.toNat with
  | none => simp [made] at written
  | some copied => exact (memcpy_eq_some.1 made).1

namespace CANMessage

/-- What two controllers read, one with zeros and one with ones in the data registers, is the same
only if it is nothing. -/
theorem eq_zero_of_take {n : ℕ}
    (same : (bytes (n := 8) 0).take n = (bytes (n := 8) (.allOnes _)).take n) : n = 0 := by
  cases n with
  | zero => rfl
  | succ n =>
    have first := congrArg List.head? same
    rw [List.head?_take, List.head?_take] at first
    exact absurd first (by simp; decide)

theorem Survives.fits (survives : msg.Survives) : msg.Fits := by
  obtain ⟨k, dev', written, free, locked, read⟩ := survives false 0 .ready ⟨0, by decide⟩
  have short := canWrite_short written
  have frame : (dev'.transmit k).frame = msg.frame := by
    rcases canWrite_spec false 0 .ready short with ⟨l, _, made, loaded⟩ | ⟨-, full⟩
    · obtain rfl : dev' = _ := by simpa using written.symm.trans made
      have same : k = l := by_contra fun other => locked ((loaded.locks k).2 ⟨free, other⟩)
      exact same ▸ loaded.frame
    · exact absurd free (full k)
  have reads {v : BitVec (8 * 8)}
      (data : (bytes v).take (dev'.transmit k).frame.data.length = (dev'.transmit k).frame.data) :
      ∃ msg', msg.Same msg' ∧ (holding (dev'.transmit k) v).Reads msg.frame msg' := by
    have holds := holding_holds data
    obtain ⟨_, msg', made, same⟩ := read _ msg 0 holds
    rw [frame] at holds
    obtain ⟨_, _, made', reads⟩ := (canRead_spec msg 0 holds).1 (frame_dlc short ▸ short)
    obtain ⟨-, rfl⟩ : _ ∧ msg' = _ := by simpa using made.symm.trans made'
    exact ⟨msg', same, reads⟩
  obtain ⟨v, data⟩ := (dev'.transmit k).exists_bytes
  obtain ⟨msg', same, unpacked⟩ := reads data
  refine ⟨short, fun remote => ?_, ?_, fun any => ?_⟩
  · have none : (dev'.transmit k).frame.data = [] := by
      rw [frame]
      simp [CANMessage.frame, remote]
    have shows (v : BitVec (8 * 8)) : msg.payload = (bytes v).take msg.len.toNat := by
      obtain ⟨_, same, unpacked⟩ := reads (v := v) (by simp [none])
      rw [← same.payload, unpacked.payload, bytes_holding, frame_dlc short]
    exact eq_zero_of_take ((shows 0).symm.trans (shows _))
  · exact unpacked.id.symm.trans same.id
  · have format := same.format.symm.trans unpacked.format
    rw [any] at format
    split_ifs at format

end CANMessage

end Ams
