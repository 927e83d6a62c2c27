import Ams.Dispatcher.Status
import Ams.Lib.Run
import Ams.Net.Driver
import Mathlib.Data.Finset.Insert
import Mathlib.Data.Fintype.Defs
import Mathlib.Data.Multiset.ZeroCons

/-!
# Telemetry

The three dispatchers sample what they report and write it to the controller of the bus, which sends
the frames in its buffers in whatever order it likes, or gives them up when it goes off the bus.
`CANTransceiver::write` runs under the lock of the driver, so one write is one step; all else
interleaves.  Every frame is one sample that has been written, and every node that receives it
decodes this sample and takes it for no command (`telemetry_conserves`).
-/

namespace Ams

open Reactive

/-! ## Samples -/

/-- What a message of the three services says. -/
inductive Sample where
  | heartbeat (counter : BitVec 16) (rxerrors txerrors : BitVec 8)
  | status (statusMask : BitVec 16) (currentState : BitVec 8)
  | contactorInfo (info : ContactorInfo)
  deriving DecidableEq, Repr

/-- The message of the service; the three unions are in `held`. -/
def Sample.message (held : Stacks) (memory : Vector (BitVec 8) 8) : Sample → CANMessage
  | heartbeat counter rxerrors txerrors =>
    HeartbeatMessageService.send (counter.setWidth 32) rxerrors txerrors held.hb memory
  | status statusMask currentState =>
    StatusMessageService.send statusMask currentState held.smsg memory
  | contactorInfo info => ContactorInfoMessageService.send info held.cinfo memory

namespace Sample

def ofHeartbeat (payload : List (BitVec 8)) : Sample :=
  let hb := ofBytes 6 payload
  .heartbeat (MmCanHeartbeat.counter.read hb) ((MmCanHeartbeat.rxerrors.read hb).setWidth 8)
    ((MmCanHeartbeat.txerrors.read hb).setWidth 8)

def ofStatus (payload : List (BitVec 8)) : Sample :=
  let smsg := ofBytes 4 payload
  .status (MmCanStatus.statusMask.read smsg) (MmCanStatus.currentState.read smsg)

/-- What a receiver makes of a payload, by the identifier. -/
def decode (id : BitVec 32) (payload : List (BitVec 8)) : Option Sample :=
  if id = canidAmsHeartbeat then some (ofHeartbeat payload)
  else if id = canidAmsStatus then some (ofStatus payload)
  else if id = canidAmsContactorInfo then
    some (.contactorInfo (ContactorInfoMessageService.decode payload))
  else none

end Sample

variable {sample : Sample} {held : Stacks} {memory : Vector (BitVec 8) 8} {msg msg' : CANMessage}

theorem setWidth_of_toNat {v : BitVec 16} {b : BitVec 8} (same : v.toNat = b.toNat) :
    v.setWidth 8 = b := by
  refine BitVec.eq_of_toNat_eq ?_
  rw [BitVec.toNat_setWidth, same]
  exact Nat.mod_eq_of_lt b.isLt

theorem Sample.ofHeartbeat_send (counter : BitVec 16) (rxerrors txerrors : BitVec 8) :
    ofHeartbeat (HeartbeatMessageService.send (counter.setWidth 32) rxerrors txerrors held.hb
      memory).payload = .heartbeat counter rxerrors txerrors := by
  obtain ⟨count, rx, tx⟩ : HeartbeatMessageService.Carries (counter.setWidth 32) rxerrors
      txerrors (HeartbeatMessageService.send (counter.setWidth 32) rxerrors txerrors held.hb
        memory).payload :=
    HeartbeatMessageService.carries_send
  have small : (counter.setWidth 32).toNat % 0x10000 = counter.toNat := by
    rw [BitVec.toNat_setWidth_of_le (by decide)]
    exact Nat.mod_eq_of_lt counter.isLt
  have counts := BitVec.eq_of_toNat_eq (count.trans small)
  have received := setWidth_of_toNat rx
  have transmitted := setWidth_of_toNat tx
  exact (congrArg (heartbeat · _ _) counts).trans
    (congrArg₂ (heartbeat counter) received transmitted)

theorem Sample.decode_message : decode (sample.message held memory).id
    (sample.message held memory).payload = some sample := by
  cases sample with
  | heartbeat counter rxerrors txerrors =>
    exact congrArg some (ofHeartbeat_send counter rxerrors txerrors)
  | status statusMask currentState =>
    obtain ⟨mask, state⟩ : StatusMessageService.Carries statusMask currentState
        (StatusMessageService.send statusMask currentState held.smsg memory).payload :=
      StatusMessageService.carries_send
    exact congrArg some (congrArg₂ Sample.status mask state)
  | contactorInfo info =>
    exact congrArg (fun info => some (Sample.contactorInfo info))
      ContactorInfoMessageService.decode_send

theorem CANMessage.ofUnion_fits {n : ℕ} {id : BitVec 32} {as : List Assignment}
    {storage : BitVec (8 * n)} (hn : n ≤ 8) (hid : id &&& 0x7FF = id) :
    (CANMessage.ofUnion id as storage memory).Fits := by
  have short : ∀ n ≤ 8, (BitVec.ofNat 8 n &&& 0xF).toNat ≤ 8 := by decide
  refine ⟨?_, fun remote => ?_, hid, fun any => ?_⟩
  · simp only [ofUnion, ofData, length_bytes]
    exact short n hn
  · cases remote
  · cases any

theorem Sample.fits : (sample.message held memory).Fits := by
  cases sample
  all_goals exact CANMessage.ofUnion_fits (by decide) (by decide)

/-! ## The dispatchers -/

inductive HeartbeatPlace where
  | waiting
  | counted (rxerrors : BitVec 8)
  | sampled (rxerrors txerrors : BitVec 8)
  deriving DecidableEq, Repr

inductive StatusPlace where
  | waiting
  | masked (statusMask : BitVec 16)
  | sampled (statusMask : BitVec 16) (currentState : BitVec 8)
  deriving DecidableEq, Repr

/-- The controller of the bus and the three tasks that write to it. -/
structure Telemetry where
  dev : LpcCan
  heartbeatCounter : BitVec 16
  heartbeat : HeartbeatPlace
  status : StatusPlace
  contactorInfo : Option ContactorInfo

inductive Sender where
  | heartbeat
  | status
  | contactorInfo
  deriving DecidableEq, Repr

namespace Telemetry

/-- What the task is about to write. -/
def ready (s : Telemetry) : Sender → Option Sample
  | .heartbeat => match s.heartbeat with
    | .sampled rxerrors txerrors => some (.heartbeat s.heartbeatCounter rxerrors txerrors)
    | _ => none
  | .status => match s.status with
    | .sampled statusMask currentState => some (.status statusMask currentState)
    | _ => none
  | .contactorInfo => s.contactorInfo.map .contactorInfo

/-- The task has written, and counts its heartbeats whether or not there has been a free buffer. -/
def wrote (dev : LpcCan) (s : Telemetry) : Sender → Telemetry
  | .heartbeat =>
    { s with dev := dev, heartbeat := .waiting, heartbeatCounter := s.heartbeatCounter + 1 }
  | .status => { s with dev := dev, status := .waiting }
  | .contactorInfo => { s with dev := dev, contactorInfo := none }

end Telemetry

namespace LpcCan

/-- The controller has sent the frame of the buffer, or given it up. -/
def release (k : Fin 3) (dev : LpcCan) : LpcCan :=
  { dev with sr := dev.sr ||| .twoPow 32 (2 + 8 * k) }

/-- The transmit buffers and their locks are the same. -/
structure KeepsBuffers (dev dev' : LpcCan) : Prop where
  free : ∀ k, dev'.Free k ↔ dev.Free k
  transmit : dev'.transmit = dev.transmit

end LpcCan

inductive TelemetryAction where
  | rderrors
  | tderrors
  | generateStatusMask (pins : Pins)
  | getState (state : StateControllerState)
  | contactorStatus (info : ContactorInfo)
  | write (sample : Sample) (written : Bool)
  | read
  | transmit (f : Frame)
  | abort (f : Frame)
  /-- anything else that the controller or the bus does -/
  | control

inductive TelemetryStep : Telemetry → TelemetryAction → Telemetry → Prop where
  | rderrors {s : Telemetry} : s.heartbeat = .waiting →
      TelemetryStep s .rderrors { s with heartbeat := .counted (canRderror s.dev) }
  | tderrors {s : Telemetry} {rxerrors : BitVec 8} : s.heartbeat = .counted rxerrors →
      TelemetryStep s .tderrors { s with heartbeat := .sampled rxerrors (canTderror s.dev) }
  | generateStatusMask {s : Telemetry} (pins : Pins) : s.status = .waiting →
      TelemetryStep s (.generateStatusMask pins)
        { s with status := .masked (StatusDispatcher.generateStatusMask pins) }
  | getState {s : Telemetry} {statusMask : BitVec 16} (state : StateControllerState) :
      s.status = .masked statusMask →
      TelemetryStep s (.getState state)
        { s with status := .sampled statusMask (.ofNat 8 state.code) }
  | contactorStatus {s : Telemetry} (info : ContactorInfo) : s.contactorInfo = none →
      TelemetryStep s (.contactorStatus info) { s with contactorInfo := some info }
  | write {s : Telemetry} {sender : Sender} {sample : Sample} {dev : LpcCan} {written : Bool}
      (held : Stacks) (memory : Vector (BitVec 8) 8) (m : BitVec (8 * 16)) :
      s.ready sender = some sample →
      canWrite (sample.message held memory) false m s.dev = some (dev, written) →
      TelemetryStep s (.write sample written) (s.wrote dev sender)
  | read {s : Telemetry} {r : LpcCan × CANMessage × Bool} (former : CANMessage)
      (x : BitVec (8 * 16)) : canRead former x s.dev = some r →
      TelemetryStep s .read { s with dev := r.1 }
  | transmit {s : Telemetry} {k : Fin 3} : ¬ s.dev.Free k →
      TelemetryStep s (.transmit (s.dev.transmit k).frame) { s with dev := s.dev.release k }
  | abort {s : Telemetry} {k : Fin 3} : ¬ s.dev.Free k →
      TelemetryStep s (.abort (s.dev.transmit k).frame) { s with dev := s.dev.release k }
  | control {s : Telemetry} {dev : LpcCan} : s.dev.KeepsBuffers dev →
      TelemetryStep s .control { s with dev := dev }

/-- After the start of the tasks, with all buffers free. -/
def telemetry : System Telemetry TelemetryAction where
  init s := (∀ k, s.dev.Free k) ∧ s.heartbeatCounter = 0 ∧ s.heartbeat = .waiting ∧
    s.status = .waiting ∧ s.contactorInfo = none
  step := TelemetryStep

/-! ## Observations -/

/-- Some node receives the frame, and every node that does reads a message that decodes to the sample
and that it does not act on. -/
structure Frame.Conveys (f : Frame) (sample : Sample) : Prop where
  received : ∃ rx : LpcCan, rx.Holds f
  read : ∀ rx : LpcCan, rx.Holds f → ∀ former x, ∃ rx' msg,
    canRead former x rx = some (rx', msg, true) ∧ Sample.decode msg.id msg.payload = some sample ∧
      ∀ n s, CANTransceiver.dispatchMessage n msg s = some s

/-- The frames in the locked buffers. -/
def LpcCan.pending (dev : LpcCan) : Multiset Frame :=
  (Finset.univ.filter fun k => ¬ dev.Free k).val.map fun k => (dev.transmit k).frame

namespace TelemetryAction

def transmitted : TelemetryAction → Option Frame
  | transmit f => some f
  | _ => none

def aborted : TelemetryAction → Option Frame
  | abort f => some f
  | _ => none

/-- The sample, unless there has been no free buffer. -/
def written : TelemetryAction → Option Sample
  | write sample true => some sample
  | _ => none

/-- The counter of a heartbeat, written or not. -/
def counter : TelemetryAction → Option (BitVec 16)
  | write (.heartbeat counter _ _) _ => some counter
  | _ => none

end TelemetryAction

def transmittedFrames (ts : List (Transition Telemetry TelemetryAction)) : List Frame :=
  ts.filterMap fun τ => τ.label.transmitted

def abortedFrames (ts : List (Transition Telemetry TelemetryAction)) : List Frame :=
  ts.filterMap fun τ => τ.label.aborted

def writtenSamples (ts : List (Transition Telemetry TelemetryAction)) : List Sample :=
  ts.filterMap fun τ => τ.label.written

def heartbeatCounters (ts : List (Transition Telemetry TelemetryAction)) : List (BitVec 16) :=
  ts.filterMap fun τ => τ.label.counter

/-! ## Frames -/

variable {dev dev' : LpcCan} {k : Fin 3}

/-- The identifiers of the services are not that of the command. -/
theorem Sample.id_ne_command : (sample.message held memory).id ≠ canidAmsCommandMessage := by
  cases sample with
  | heartbeat _ _ _ => exact (by decide : canidAmsHeartbeat ≠ canidAmsCommandMessage)
  | status _ _ => exact (by decide : canidAmsStatus ≠ canidAmsCommandMessage)
  | contactorInfo _ => exact (by decide : canidAmsContactorInfo ≠ canidAmsCommandMessage)

theorem LpcCan.Loaded.conveys (loaded : dev.Loaded k (sample.message held memory) dev') :
    (dev'.transmit k).frame.Conveys sample := by
  have fits : (sample.message held memory).Fits := Sample.fits
  refine ⟨?_, fun rx holds former x => ?_⟩
  · obtain ⟨v, data⟩ := (dev'.transmit k).exists_bytes
    exact ⟨_, LpcCan.holding_holds data⟩
  rw [loaded.frame] at holds
  obtain ⟨rx', msg, made, reads⟩ :=
    (canRead_spec former x holds).1 (CANMessage.frame_dlc fits.short ▸ fits.short)
  have same := fits.same holds reads
  refine ⟨rx', msg, made, ?_, fun n s => ?_⟩
  · rw [same.id, same.payload]
    exact Sample.decode_message
  · refine dispatchMessage_of_not_isCommand fun command => ?_
    exact Sample.id_ne_command (same.id.symm.trans command.1)

/-! ## Buffers -/

namespace LpcCan

/-- One buffer more is locked. -/
theorem pending_cons (locked : ¬ dev'.Free k) (free : dev.Free k)
    (others : ∀ j, j ≠ k → (dev'.Free j ↔ dev.Free j) ∧ dev'.transmit j = dev.transmit j) :
    dev'.pending = (dev'.transmit k).frame ::ₘ dev.pending := by
  have buffers : (Finset.univ.filter fun j => ¬ dev'.Free j) =
      insert k (Finset.univ.filter fun j => ¬ dev.Free j) := by
    ext j
    by_cases same : j = k
    · simp [same, locked]
    · simp [same, (others j same).1]
  have fresh : k ∉ Finset.univ.filter fun j => ¬ dev.Free j := by simp [free]
  rw [pending, buffers, Finset.insert_val_of_notMem fresh, Multiset.map_cons, pending]
  refine congrArg _ (Multiset.map_congr rfl fun j busy => ?_)
  have other : j ≠ k := fun same => fresh (same ▸ busy)
  rw [(others j other).2]

theorem Loaded.pending (loaded : dev.Loaded k msg dev') :
    dev'.pending = (dev'.transmit k).frame ::ₘ dev.pending := by
  refine pending_cons (fun free => ((loaded.locks k).1 free).2 rfl) loaded.free fun j other => ?_
  refine ⟨?_, loaded.others j other⟩
  rw [loaded.locks j]
  exact and_iff_left other

theorem free_release (j : Fin 3) : (dev.release k).Free j ↔ dev.Free j ∨ j = k := by
  have bit : (2 + 8 * (k : ℕ) = 2 + 8 * j) ↔ j = k := by omega
  have inside : 2 + 8 * (k : ℕ) < 32 := by omega
  unfold Free release
  rw [BitVec.getLsbD_or, Bool.or_eq_true, BitVec.getLsbD_twoPow]
  simp only [inside, decide_true, Bool.true_and, decide_eq_true_eq, bit]

theorem pending_release (locked : ¬ dev.Free k) :
    dev.pending = (dev.transmit k).frame ::ₘ (dev.release k).pending := by
  refine pending_cons locked ((free_release k).2 (.inr rfl)) fun j other => ⟨?_, rfl⟩
  rw [free_release]
  exact (or_iff_left other).symm

theorem KeepsBuffers.pending (keeps : dev.KeepsBuffers dev') : dev'.pending = dev.pending := by
  unfold LpcCan.pending
  simp only [keeps.free, keeps.transmit]

end LpcCan

theorem canEnable_keeps (dev : LpcCan) : dev.KeepsBuffers (canEnable dev) := by
  refine ⟨fun k => ?_, LpcCan.canEnable_transmit dev⟩
  rw [LpcCan.Free, LpcCan.canEnable_sr, LpcCan.Free]

/-- `can_read` leaves the transmit buffers alone. -/
theorem canRead_keeps {former : CANMessage} {x : BitVec (8 * 16)} {r : LpcCan × CANMessage × Bool}
    (made : canRead former x dev = some r) : dev.KeepsBuffers r.1 := by
  have enabled := canEnable_keeps dev
  have released : dev.KeepsBuffers ((canEnable dev).command 0x04) := by
    refine ⟨fun k => ?_, enabled.transmit⟩
    rw [LpcCan.free_command, enabled.free]
    exact and_iff_left rfl
  unfold canRead at made
  dsimp only at made
  by_cases rbs : ((canEnable dev).gsr &&& 1 != 0) = true
  · rw [if_pos rbs, Option.bind_eq_bind] at made
    obtain ⟨copied, -, result⟩ := Option.bind_eq_some_iff.1 made
    obtain rfl := Option.some.inj result
    exact released
  · rw [if_neg rbs] at made
    obtain rfl := Option.some.inj made
    exact enabled

/-! ## Runs -/

/-- After the frames `sent`, transmitted or given up, the samples `written` and the counters of the
heartbeats. -/
structure Telemetry.Inv (sent : Multiset Frame) (written : Multiset Sample)
    (counters : List (BitVec 16)) (s : Telemetry) : Prop where
  conveys : Multiset.Rel Frame.Conveys (sent + s.dev.pending) written
  numbered : counters = (List.range counters.length).map (BitVec.ofNat 16)
  counter : s.heartbeatCounter = .ofNat 16 counters.length

variable {s t : Telemetry} {a : TelemetryAction} {sent : Multiset Frame} {written : Multiset Sample}
  {counters : List (BitVec 16)} {ts : List (Transition Telemetry TelemetryAction)}

/-- A step that leaves the buffers and the counter alone. -/
theorem Telemetry.Inv.keep (inv : s.Inv sent written counters)
    (pending : t.dev.pending = s.dev.pending) (counter : t.heartbeatCounter = s.heartbeatCounter) :
    t.Inv sent written counters :=
  ⟨pending ▸ inv.conveys, inv.numbered, counter.trans inv.counter⟩

theorem Telemetry.Inv.release {k : Fin 3} (inv : s.Inv sent written counters)
    (locked : ¬ s.dev.Free k) :
    Telemetry.Inv (sent + {(s.dev.transmit k).frame}) written counters
      { s with dev := s.dev.release k } := by
  refine ⟨?_, inv.numbered, inv.counter⟩
  have conveys := inv.conveys
  rw [LpcCan.pending_release locked] at conveys
  rwa [Multiset.add_assoc, Multiset.singleton_add]

theorem Telemetry.wrote_dev (sender : Sender) (dev : LpcCan) : (s.wrote dev sender).dev = dev := by
  cases sender <;> rfl

theorem Telemetry.ready_heartbeat (ready : s.ready .heartbeat = some sample) :
    ∃ rxerrors txerrors, sample = .heartbeat s.heartbeatCounter rxerrors txerrors := by
  unfold Telemetry.ready at ready
  cases place : s.heartbeat with
  | sampled rxerrors txerrors =>
    rw [place] at ready
    exact ⟨rxerrors, txerrors, (Option.some.inj ready).symm⟩
  | _ =>
    rw [place] at ready
    cases ready

theorem Telemetry.ready_status (ready : s.ready .status = some sample) :
    ∃ statusMask currentState, sample = .status statusMask currentState := by
  unfold Telemetry.ready at ready
  cases place : s.status with
  | sampled statusMask currentState =>
    rw [place] at ready
    exact ⟨statusMask, currentState, (Option.some.inj ready).symm⟩
  | _ =>
    rw [place] at ready
    cases ready

/-- Only a heartbeat is counted, and it carries the counter. -/
theorem Telemetry.counter_wrote {sender : Sender} (ready : s.ready sender = some sample)
    (dev : LpcCan) (b : Bool) :
    (TelemetryAction.write sample b).counter = none ∧
        (s.wrote dev sender).heartbeatCounter = s.heartbeatCounter ∨
      (TelemetryAction.write sample b).counter = some s.heartbeatCounter ∧
        (s.wrote dev sender).heartbeatCounter = s.heartbeatCounter + 1 := by
  cases sender with
  | heartbeat =>
    obtain ⟨rxerrors, txerrors, rfl⟩ := Telemetry.ready_heartbeat ready
    exact .inr ⟨rfl, rfl⟩
  | status =>
    obtain ⟨statusMask, currentState, rfl⟩ := Telemetry.ready_status ready
    exact .inl ⟨rfl, rfl⟩
  | contactorInfo =>
    obtain ⟨info, -, rfl⟩ := Option.map_eq_some_iff.1 ready
    exact .inl ⟨rfl, rfl⟩

theorem Telemetry.Inv.write {sender : Sender} {dev : LpcCan} {b : Bool} {m : BitVec (8 * 16)}
    (inv : s.Inv sent written counters) (ready : s.ready sender = some sample)
    (made : canWrite (sample.message held memory) false m s.dev = some (dev, b)) :
    (s.wrote dev sender).Inv sent (↑(TelemetryAction.write sample b).written.toList + written)
      (counters ++ (TelemetryAction.write sample b).counter.toList) := by
  have frames : Multiset.Rel Frame.Conveys (sent + dev.pending)
      (↑(TelemetryAction.write sample b).written.toList + written) := by
    rcases canWrite_spec false m s.dev Sample.fits.short with ⟨k, dev', loads, loaded⟩ | ⟨full, -⟩
    · obtain ⟨rfl, rfl⟩ : dev = dev' ∧ b = true := by simpa using made.symm.trans loads
      rw [loaded.pending, Multiset.add_cons]
      exact inv.conveys.cons loaded.conveys
    · obtain ⟨rfl, rfl⟩ : dev = canEnable s.dev ∧ b = false := by simpa using made.symm.trans full
      rw [(canEnable_keeps s.dev).pending]
      simpa [TelemetryAction.written] using inv.conveys
  rcases Telemetry.counter_wrote ready dev b with ⟨none, kept⟩ | ⟨some, counted⟩
  · rw [none]
    refine ⟨?_, ?_, ?_⟩
    · rwa [Telemetry.wrote_dev]
    · simpa using inv.numbered
    · simpa using kept.trans inv.counter
  · rw [some, inv.counter]
    refine ⟨?_, ?_, ?_⟩
    · rwa [Telemetry.wrote_dev]
    · rw [Option.toList_some, List.length_append, List.length_singleton, List.range_succ,
        List.map_append, ← inv.numbered, List.map_singleton]
    · rw [counted, inv.counter, List.length_append]
      simp [BitVec.ofNat_add]

/-- A step that shows nothing. -/
theorem Telemetry.Inv.silent (inv : t.Inv sent written counters) (transmitted : a.transmitted = none)
    (aborted : a.aborted = none) (nothing : a.written = none) (counter : a.counter = none) :
    t.Inv (sent + (↑a.transmitted.toList + ↑a.aborted.toList)) (↑a.written.toList + written)
      (counters ++ a.counter.toList) := by
  rw [transmitted, aborted, nothing, counter]
  simpa using inv

theorem TelemetryStep.inv (made : TelemetryStep s a t) (inv : s.Inv sent written counters) :
    t.Inv (sent + (↑a.transmitted.toList + ↑a.aborted.toList)) (↑a.written.toList + written)
      (counters ++ a.counter.toList) := by
  cases made with
  | write held memory m ready made =>
    simpa [TelemetryAction.transmitted, TelemetryAction.aborted] using inv.write ready made
  | transmit locked =>
    simpa [TelemetryAction.transmitted, TelemetryAction.aborted, TelemetryAction.written,
      TelemetryAction.counter] using inv.release locked
  | abort locked =>
    simpa [TelemetryAction.transmitted, TelemetryAction.aborted, TelemetryAction.written,
      TelemetryAction.counter] using inv.release locked
  | read former x made =>
    refine Telemetry.Inv.silent ?_ rfl rfl rfl rfl
    exact inv.keep (canRead_keeps made).pending rfl
  | control keeps =>
    refine Telemetry.Inv.silent ?_ rfl rfl rfl rfl
    exact inv.keep keeps.pending rfl
  | _ =>
    refine Telemetry.Inv.silent ?_ rfl rfl rfl rfl
    exact inv.keep rfl rfl

theorem Telemetry.Inv.init (h : telemetry.init s) : s.Inv 0 0 [] := by
  obtain ⟨free, counter, -, -, -⟩ := h
  refine ⟨?_, rfl, counter⟩
  have empty : s.dev.pending = 0 := by simp [LpcCan.pending, free]
  rw [empty, Multiset.zero_add]
  exact .zero

theorem TelemetryStep.drops (made : TelemetryStep s (.write sample false) t) (k : Fin 3) :
    ¬ s.dev.Free k := by
  cases made with
  | write held memory m ready made =>
    rcases canWrite_spec false m s.dev Sample.fits.short with ⟨k, dev', loads, -⟩ | ⟨-, full⟩
    · cases made.symm.trans loads
    · exact full k

/-- What a run shows after one more step. -/
theorem filterMap_snoc {α : Type} (f : TelemetryAction → Option α)
    (ts : List (Transition Telemetry TelemetryAction)) (τ : Transition Telemetry TelemetryAction) :
    (ts ++ [τ]).filterMap (fun τ => f τ.label) =
      ts.filterMap (fun τ => f τ.label) ++ (f τ.label).toList := by
  cases h : f τ.label <;> simp [h]

theorem telemetry_inv (exec : telemetry.Execution ts s) :
    s.Inv (↑(transmittedFrames ts) + ↑(abortedFrames ts)) ↑(writtenSamples ts)
      (heartbeatCounters ts) := by
  refine exec.history (I := fun ts s => s.Inv (↑(transmittedFrames ts) + ↑(abortedFrames ts))
    ↑(writtenSamples ts) (heartbeatCounters ts)) ?_ ?_
  · exact fun s init => .init init
  · intro ts s a t _ inv made
    have next := TelemetryStep.inv made inv
    have sent : (↑(transmittedFrames (ts ++ [⟨s, a, t⟩])) + ↑(abortedFrames (ts ++ [⟨s, a, t⟩])) :
        Multiset Frame) = ↑(transmittedFrames ts) + ↑(abortedFrames ts) +
          (↑a.transmitted.toList + ↑a.aborted.toList) := by
      rw [transmittedFrames, abortedFrames, filterMap_snoc, filterMap_snoc]
      simp only [Multiset.coe_add, List.append_assoc]
      exact Multiset.coe_eq_coe.2 ((List.perm_append_comm_assoc _ _ _).append_left _)
    have written : (↑(writtenSamples (ts ++ [⟨s, a, t⟩])) : Multiset Sample) =
        ↑a.written.toList + ↑(writtenSamples ts) := by
      rw [writtenSamples, filterMap_snoc, ← Multiset.coe_add]
      exact Multiset.add_comm _ _
    have counters : heartbeatCounters (ts ++ [⟨s, a, t⟩]) =
        heartbeatCounters ts ++ a.counter.toList := by
      rw [heartbeatCounters, filterMap_snoc]
      rfl
    rw [sent, written, counters]
    exact next

/-- The frames that have been transmitted or given up and those in the locked buffers are, each as
often as it was written, the samples for which there was a free buffer; a node that receives one
decodes the sample and does not act on it.  The heartbeats carry their own number, and a sample is
dropped only while all buffers are locked. -/
theorem telemetry_conserves (exec : telemetry.Execution ts s) :
    Multiset.Rel Frame.Conveys
        (↑(transmittedFrames ts) + ↑(abortedFrames ts) + s.dev.pending) ↑(writtenSamples ts) ∧
      heartbeatCounters ts =
        (List.range (heartbeatCounters ts).length).map (BitVec.ofNat 16) ∧
      ∀ τ ∈ ts, ∀ sample, τ.label = .write sample false → ∀ k, ¬ τ.src.dev.Free k := by
  have inv := telemetry_inv exec
  refine ⟨inv.conveys, inv.numbered, fun τ taken sample dropped k => ?_⟩
  obtain ⟨-, made, -⟩ := exec.reachable_of_mem taken
  rw [dropped] at made
  exact made.drops k

/-- The tasks before their first samples. -/
def Telemetry.started : Telemetry where
  dev := .ready
  heartbeatCounter := 0
  heartbeat := .waiting
  status := .waiting
  contactorInfo := none

/-- A sample is written while a buffer is free. -/
theorem telemetry_writes (sender : Sender) {k : Fin 3} (exec : telemetry.Execution ts s)
    (ready : s.ready sender = some sample) (free : s.dev.Free k) : ∃ l dev, s.dev.Free l ∧
      (∀ j, dev.Free j ↔ s.dev.Free j ∧ j ≠ l) ∧
      telemetry.Execution (ts ++ [⟨s, .write sample true, s.wrote dev sender⟩]) (s.wrote dev sender) := by
  have short : (sample.message ⟨0, 0, 0⟩ (.replicate 8 0)).len.toNat ≤ 8 := Sample.fits.short
  rcases canWrite_spec false 0 s.dev short with ⟨l, dev, made, loaded⟩ | ⟨-, full⟩
  · exact ⟨l, dev, loaded.free, loaded.locks, exec.snoc (TelemetryStep.write _ _ _ ready made)⟩
  · exact absurd free (full k)

/-- A sample is dropped while no buffer is free. -/
theorem telemetry_drops (sender : Sender) (exec : telemetry.Execution ts s)
    (ready : s.ready sender = some sample) (full : ∀ k, ¬ s.dev.Free k) : ∃ dev,
      (∀ j, dev.Free j ↔ s.dev.Free j) ∧
      telemetry.Execution (ts ++ [⟨s, .write sample false, s.wrote dev sender⟩])
        (s.wrote dev sender) := by
  have short : (sample.message ⟨0, 0, 0⟩ (.replicate 8 0)).len.toNat ≤ 8 := Sample.fits.short
  rcases canWrite_spec false 0 s.dev short with ⟨l, dev, made, loaded⟩ | ⟨made, -⟩
  · exact absurd loaded.free (full l)
  · refine ⟨_, fun j => ?_, exec.snoc (TelemetryStep.write _ _ _ ready made)⟩
    unfold LpcCan.Free
    rw [LpcCan.canEnable_sr]

/-- Three samples fill the buffers, one more is dropped, and then a frame is transmitted. -/
theorem telemetry_conserves_full : ∃ ts s f, telemetry.Execution ts s ∧
    writtenSamples ts = [.heartbeat 0 0 0, .contactorInfo ⟨true, true, false, false, false, false⟩,
      .status (StatusDispatcher.generateStatusMask .allGood) 9] ∧
    transmittedFrames ts = [f] ∧ heartbeatCounters ts = [0, 1] ∧
    (∃ τ ∈ ts, ∃ rx tx, τ.label = .write (.heartbeat 1 rx tx) false ∧ ∀ k, ¬ τ.src.dev.Free k) ∧
    Multiset.Rel Frame.Conveys
      (↑(transmittedFrames ts) + ↑(abortedFrames ts) + s.dev.pending) ↑(writtenSamples ts) := by
  have start : telemetry.Execution [] .started := .init ⟨by decide, rfl, rfl, rfl, rfl⟩
  have heartbeat := (start.snoc (TelemetryStep.rderrors rfl)).snoc (TelemetryStep.tderrors rfl)
  have info := heartbeat.snoc
    (TelemetryStep.contactorStatus ⟨true, true, false, false, false, false⟩ rfl)
  have status := (info.snoc (TelemetryStep.generateStatusMask .allGood rfl)).snoc
    (TelemetryStep.getState .scsTractiveSystemRaceReady rfl)
  obtain ⟨a, dev, -, locks, one⟩ := telemetry_writes .heartbeat status rfl (k := 0) (by decide)
  have ready : ∀ j, LpcCan.ready.Free j := by decide
  have free (j : Fin 3) (ne : j ≠ a) : dev.Free j := (locks j).2 ⟨ready j, ne⟩
  obtain ⟨j, ja⟩ : ∃ j, j ≠ a := exists_ne a
  obtain ⟨b, dev', free', locks', two⟩ := telemetry_writes .contactorInfo one rfl (free j ja)
  have ba : b ≠ a := ((locks b).1 free').2
  have third : ∀ a b : Fin 3, ∃ j, j ≠ a ∧ j ≠ b := by decide
  obtain ⟨j, ja, jb⟩ := third a b
  obtain ⟨c, dev'', free'', locks'', three⟩ := telemetry_writes .status two rfl
    ((locks' j).2 ⟨free j ja, jb⟩)
  have counted := (three.snoc (TelemetryStep.rderrors rfl)).snoc (TelemetryStep.tderrors rfl)
  have full (j : Fin 3) : ¬ dev''.Free j := by
    intro still
    obtain ⟨still', jc⟩ := (locks'' j).1 still
    obtain ⟨still'', jb⟩ := (locks' j).1 still'
    have ja : j ≠ a := ((locks j).1 still'').2
    obtain ⟨freeC, cb⟩ := (locks' c).1 free''
    have ca : c ≠ a := ((locks c).1 freeC).2
    omega
  obtain ⟨last, same, four⟩ := telemetry_drops .heartbeat counted rfl full
  have sent := four.snoc (TelemetryStep.transmit (k := a) (mt (same a).1 (full a)))
  obtain ⟨conveys, -, drops⟩ := telemetry_conserves sent
  refine ⟨_, _, _, sent, rfl, rfl, rfl, ?_, conveys⟩
  exact ⟨_, List.mem_append_left _ (List.mem_append_right _ List.mem_cons_self), _, _, rfl,
    drops _ (List.mem_append_left _ (List.mem_append_right _ List.mem_cons_self)) _ rfl⟩

end Ams
