import Ams.Lib.Ring
import Ams.Net.Reception

/-!
# Mail of the kernel

`Mail` keeps its blocks in a free list that goes through the first words of the blocks themselves, and
its queue in a ring.  A message that an interrupt puts goes to the post-service queue first, from where
the kernel passes it to the waiting task or moves it to the ring once the interrupts are served.
-/

namespace Ams

open Reactive CANTransceiver

/-! ## Memory blocks -/

/-- `OS_BM` -/
structure OsBm where
  free : ℕ
  boxEnd : ℕ
  blkSize : ℕ

def sizeofOsBm : ℕ := 12

/-- The loop of `_init_box`: `last` is the address of the last block. -/
def linkBlocks (blkSize last : ℕ) : ℕ → ℕ → (ℕ → ℕ) → ℕ → ℕ
  | 0, _, word => word
  | fuel + 1, blk, word =>
    let next := blk + blkSize
    if last < next then Function.update word blk 0
    else linkBlocks blkSize last fuel next (Function.update word blk next)

/-- `word` holds the first words of the blocks. -/
def initBox (boxMem boxSize blkSize : ℕ) (word : ℕ → ℕ) : Option (OsBm × (ℕ → ℕ)) :=
  let blkSize := (blkSize + 3) / 4 * 4
  if blkSize = 0 ∨ boxSize < blkSize + sizeofOsBm then none
  else
    let boxEnd := boxMem + boxSize
    some (⟨boxMem + sizeofOsBm, boxEnd, blkSize⟩,
      linkBlocks blkSize (boxEnd - blkSize) boxSize (boxMem + sizeofOsBm) word)

/-- `0` if there is no block left. -/
def rtAllocBox (box : OsBm) (word : ℕ → ℕ) : ℕ × OsBm :=
  if box.free ≠ 0 then (box.free, { box with free := word box.free }) else (box.free, box)

/-- `none` if the block does not belong to the box. -/
def rtFreeBox (boxMem blk : ℕ) (box : OsBm) (word : ℕ → ℕ) : Option (OsBm × (ℕ → ℕ)) :=
  if blk < boxMem ∨ box.boxEnd ≤ blk then none
  else some ({ box with free := blk }, Function.update word blk box.free)

/-! ## The message box -/

/-- A message but for its first word, the id. -/
structure MessageBody where
  data : Vector (BitVec 8) 8
  len : BitVec 8
  format : CANFormat
  type : CANType

/-- An entry of `os_psq`: a message for the message box, or a request of another interrupt. -/
inductive PostService where
  | mail (msg : ℕ)
  | other

/-- The place of the task in its loop. -/
inductive MailProcedure where
  | calling
  /-- in `message_box.get` -/
  | waiting
  | got (msg : ℕ)
  | dispatched (msg : ℕ)

structure MailReception where
  box : OsBm
  word : ℕ → ℕ
  body : ℕ → MessageBody
  mbx : RingBuffer ℕ
  psq : RingBuffer PostService
  nextMessage : ℕ
  trashcan : CANMessage
  interrupt : RxInterrupt
  procedure : MailProcedure

namespace MailReception

/-- The message at the address `msg`. -/
def message (s : MailReception) (msg : ℕ) : CANMessage where
  id := .ofNat 32 (s.word msg)
  data := (s.body msg).data
  len := (s.body msg).len
  format := (s.body msg).format
  type := (s.body msg).type

def store (msg : ℕ) (frame : CANMessage) (s : MailReception) : MailReception :=
  { s with
    word := Function.update s.word msg frame.id.toNat
    body := Function.update s.body msg ⟨frame.data, frame.len, frame.format, frame.type⟩ }

end MailReception

/-- `rt_mbx_init`; `OS_MCB` takes 20 bytes, 4 of them for the first message. -/
def rtMbxInit (mbxSize : ℕ) : RingBuffer ℕ where
  cells _ := 0
  first := 0
  last := 0
  count := 0
  size := (mbxSize - (20 - 4)) / 4

/-- `OS_FIFOSZ` -/
def osFifosz : ℕ := 16

/-- `osMailPut` in an interrupt.  Nobody looks at the result `osErrorResource` of a full message box;
`none` for a full post-service queue, as the kernel halts in `os_error`. -/
def osMailPut (msg : ℕ) (s : MailReception) : Option MailReception :=
  if s.mbx.size - s.mbx.count = 0 then some s
  else (s.psq.enqueue (.mail msg)).map fun psq => { s with psq := psq }

/-- The second `if` of `rx_interrupt` and the end of its loop. -/
def mailRead (frame : Option CANMessage) (s : MailReception) : Option MailReception :=
  if s.nextMessage ≠ 0 then
    match frame with
    | some frame => (osMailPut s.nextMessage (s.store s.nextMessage frame)).map fun s =>
        { s with nextMessage := 0, interrupt := .looping }
    | none => some { s with interrupt := .idle }
  else
    let (message, messagesRemaining) := driverRead frame s.trashcan
    some { s with
      trashcan := message
      interrupt := if messagesRemaining then .looping else .idle }

/-- `none` for a full message box, as the kernel halts in `os_error`. -/
def rtMbxPsh (msg : ℕ) (s : MailReception) : Option MailReception :=
  match s.procedure with
  | .waiting => some { s with procedure := .got msg }
  | _ => (s.mbx.enqueue msg).map fun mbx => { s with mbx := mbx }

/-- One round of the loop of `rt_pop_req`. -/
def rtPopReq (s : MailReception) : Option MailReception :=
  match s.psq.dequeue with
  | none => some s
  | some (.other, psq) => some { s with psq := psq }
  | some (.mail msg, psq) => rtMbxPsh msg { s with psq := psq }

/-- `osMailGet` -/
def osMailGet (s : MailReception) : MailReception :=
  match s.mbx.dequeue with
  | some (msg, mbx) => { s with mbx := mbx, procedure := .got msg }
  | none => { s with procedure := .waiting }

/-- `osMailFree`, whose result nobody looks at. -/
def osMailFree (boxMem msg : ℕ) (s : MailReception) : MailReception :=
  match rtFreeBox boxMem msg s.box s.word with
  | some (box, word) => { s with box := box, word := word }
  | none => s

inductive MailAction where
  | reception (a : ReceptionAction)
  /-- the message box is empty, and the task waits -/
  | wait
  /-- an entry of the post-service queue is served -/
  | serve
  /-- another interrupt makes a request -/
  | post

/-- `_mail_m` and the size of a message. -/
structure MailPool where
  base : ℕ
  itemSz : ℕ
  pos : 0 < itemSz

namespace MailPool

/-- As `svcMailCreate` computes it. -/
def blkSz (pool : MailPool) : ℕ := (pool.itemSz + 3) / 4 * 4

/-- The address of a block. -/
def addr (pool : MailPool) (b : Block) : ℕ := pool.base + sizeofOsBm + b * pool.blkSz

end MailPool

inductive MailStep (pool : MailPool) : MailReception → MailAction → MailReception → Prop where
  | rxInterrupt {s : MailReception} : s.interrupt = .idle →
      MailStep pool s (.reception .rxInterrupt) { s with interrupt := .looping }
  | alloc {s : MailReception} : s.interrupt = .looping → s.nextMessage = 0 →
      MailStep pool s (.reception .alloc) { s with
        nextMessage := (rtAllocBox s.box s.word).1
        box := (rtAllocBox s.box s.word).2
        interrupt := .reading }
  | keep {s : MailReception} : s.interrupt = .looping → s.nextMessage ≠ 0 →
      MailStep pool s (.reception .alloc) { s with interrupt := .reading }
  | read {s t : MailReception} (frame : Option CANMessage) : s.interrupt = .reading →
      mailRead frame s = some t → MailStep pool s (.reception (.read frame)) t
  | get {s : MailReception} : s.interrupt = .idle → s.procedure = .calling →
      s.mbx.dequeue.isSome = true → MailStep pool s (.reception .get) (osMailGet s)
  | wait {s : MailReception} : s.interrupt = .idle → s.procedure = .calling →
      s.mbx.dequeue = none → MailStep pool s .wait (osMailGet s)
  | serve {s t : MailReception} : s.interrupt = .idle → rtPopReq s = some t →
      MailStep pool s .serve t
  | post {s : MailReception} {psq : RingBuffer PostService} : s.psq.enqueue .other = some psq →
      MailStep pool s .post { s with psq := psq }
  | dispatch {s : MailReception} {msg : ℕ} : s.interrupt = .idle → s.procedure = .got msg →
      MailStep pool s (.reception (.dispatch (s.message msg))) { s with procedure := .dispatched msg }
  | free {s : MailReception} {msg : ℕ} : s.interrupt = .idle → s.procedure = .dispatched msg →
      MailStep pool s (.reception .free) { osMailFree pool.base msg s with procedure := .calling }

/-- From the construction of the message box. -/
def mailReception (pool : MailPool) : System MailReception MailAction where
  init s := (∃ word, initBox pool.base (sizeofOsBm + canTransceiverBufferSize * pool.blkSz)
      pool.blkSz word = some (s.box, s.word)) ∧
    s.mbx = rtMbxInit (4 * (canTransceiverBufferSize + 4)) ∧
    s.psq.first = 0 ∧ s.psq.last = 0 ∧ s.psq.count = 0 ∧ s.psq.size = osFifosz ∧
    s.nextMessage = 0 ∧ s.interrupt = .idle ∧ s.procedure = .calling
  step := MailStep pool

/-! ## The free list after the construction -/

/-- The blocks before the loop keep their words. -/
theorem linkBlocks_of_lt {blkSize last fuel blk a : ℕ} (h : a < blk) (word : ℕ → ℕ) :
    linkBlocks blkSize last fuel blk word a = word a := by
  induction fuel generalizing blk word with
  | zero => rfl
  | succ fuel ih =>
    have ne : a ≠ blk := h.ne
    simp only [linkBlocks]
    split_ifs
    · rw [Function.update_of_ne ne]
    · rw [ih (by omega), Function.update_of_ne ne]

/-- The loop links all blocks, from the first to the last. -/
theorem chain_linkBlocks {blkSize last fuel n blk : ℕ} (pos : 0 < blkSize) (nonnull : 0 < blk)
    (reach : blk + n * blkSize ≤ last) (stop : last < blk + (n + 1) * blkSize) (enough : n < fuel)
    (word : ℕ → ℕ) :
    Chain (linkBlocks blkSize last fuel blk word) 0 blk
      ((List.range (n + 1)).map fun i => blk + i * blkSize) := by
  induction n generalizing blk fuel word with
  | zero =>
    obtain ⟨fuel, rfl⟩ : ∃ m, fuel = m + 1 := ⟨fuel - 1, by omega⟩
    have done : last < blk + blkSize := by simpa using stop
    simp [Chain, linkBlocks, done, nonnull.ne']
  | succ n ih =>
    obtain ⟨fuel, rfl⟩ : ∃ m, fuel = m + 1 := ⟨fuel - 1, by omega⟩
    have more : ¬ last < blk + blkSize := by
      rw [Nat.succ_mul] at reach
      have := Nat.zero_le (n * blkSize)
      omega
    have shift (i : ℕ) : blk + blkSize + i * blkSize = blk + (i + 1) * blkSize := by
      rw [Nat.succ_mul]
      omega
    have rest : Chain (linkBlocks blkSize last fuel (blk + blkSize)
        (Function.update word blk (blk + blkSize))) 0 (blk + blkSize)
          ((List.range (n + 1)).map fun i => blk + blkSize + i * blkSize) :=
      ih (by omega) (by rw [shift]; exact reach) (by rw [shift]; exact stop) (by omega) _
    rw [List.range_succ_eq_map, List.map_cons, List.map_map]
    simp only [linkBlocks, if_neg more, Function.comp_def, Nat.succ_eq_add_one, Nat.zero_mul,
      Nat.add_zero]
    simp only [shift] at rest
    refine ⟨rfl, nonnull.ne', ?_⟩
    rw [linkBlocks_of_lt (by omega), Function.update_self]
    exact rest

/-! ## Addresses -/

namespace MailPool

variable {pool : MailPool} {b c : Block}

theorem blkSz_pos : 0 < pool.blkSz := by
  have := pool.pos
  unfold blkSz
  omega

theorem addr_ne_zero : pool.addr b ≠ 0 := by
  unfold addr sizeofOsBm
  omega

theorem addr_injective : Function.Injective pool.addr := by
  intro b c same
  unfold addr at same
  exact Fin.ext (Nat.eq_of_mul_eq_mul_right pool.blkSz_pos (by omega))

/-- The end of the box. -/
def boxEnd (pool : MailPool) : ℕ :=
  pool.base + (sizeofOsBm + canTransceiverBufferSize * pool.blkSz)

theorem addr_lt_boxEnd : pool.addr b < pool.boxEnd := by
  have within := Nat.mul_lt_mul_of_pos_right b.isLt pool.blkSz_pos
  unfold addr boxEnd
  omega

theorem map_addr_blocks : blocks.map pool.addr =
    (List.range canTransceiverBufferSize).map fun i =>
      pool.base + sizeofOsBm + i * pool.blkSz := by
  rw [← List.map_coe_finRange_eq_range, List.map_map]
  rfl

end MailPool

/-- `Mail` gets a box of 32 blocks in a row. -/
theorem initBox_chain {pool : MailPool} {box : OsBm} {word word' : ℕ → ℕ}
    (made : initBox pool.base (sizeofOsBm + canTransceiverBufferSize * pool.blkSz) pool.blkSz word =
      some (box, word')) :
    box.boxEnd = pool.boxEnd ∧ Chain word' 0 box.free (blocks.map pool.addr) := by
  have pos : 0 < pool.blkSz := MailPool.blkSz_pos
  have aligned : (pool.blkSz + 3) / 4 * 4 = pool.blkSz := by
    unfold MailPool.blkSz
    omega
  simp only [initBox, aligned, canTransceiverBufferSize] at made
  rw [if_neg (by omega)] at made
  obtain ⟨rfl, rfl⟩ := Prod.mk.inj (Option.some.inj made)
  refine ⟨rfl, ?_⟩
  rw [MailPool.map_addr_blocks]
  refine chain_linkBlocks (n := 31) pos ?_ ?_ ?_ ?_ word <;> unfold sizeofOsBm <;> omega

/-! ## The refinement -/

/-- The message for the message box, if the entry is one. -/
def PostService.msg : PostService → Option ℕ
  | mail msg => some msg
  | other => none

/-- The messages on their way to the message box, oldest first. -/
def MailReception.mails (s : MailReception) : List ℕ := s.psq.contents.filterMap PostService.msg

/-- The task is at the same place, with the same block. -/
inductive MailProcedure.Refines (pool : MailPool) : MailProcedure → Procedure → Prop where
  | calling : Refines pool .calling .waiting
  | waiting : Refines pool .waiting .waiting
  | got (b : Block) : Refines pool (.got (pool.addr b)) (.got b)
  | dispatched (b : Block) : Refines pool (.dispatched (pool.addr b)) (.dispatched b)

structure MailRefines (pool : MailPool) (s : MailReception) (a : Reception) : Prop where
  unused : Chain s.word 0 s.box.free (a.messageBox.unused.map pool.addr)
  boxEnd : s.box.boxEnd = pool.boxEnd
  mbx : s.mbx.Inv
  mbxSize : s.mbx.size = canTransceiverBufferSize
  psq : s.psq.Inv
  queue : s.mbx.contents ++ s.mails = a.messageBox.queue.map pool.addr
  nextMessage : s.nextMessage = a.nextMessage.elim 0 pool.addr
  procedure : s.procedure.Refines pool a.procedure
  /-- the task waits for an empty message box only -/
  empty : s.procedure = .waiting → s.mbx.count = 0
  interrupt : s.interrupt = a.interrupt
  trashcan : s.trashcan = a.trashcan
  memory : ∀ b, b ∈ a.messageBox.queue ∨ a.procedure = .got b → s.message (pool.addr b) = a.memory b

/-- What is seen of a run: frames that are received into blocks, and messages that are dispatched. -/
inductive MailEvent where
  | received (frame : CANMessage)
  | dispatched (msg : CANMessage)

/-- The frame read by an action into a block. -/
def MailAction.received (s : MailReception) : MailAction → Option CANMessage
  | reception (.read frame) => if s.nextMessage ≠ 0 then frame else none
  | _ => none

def MailAction.dispatched : MailAction → Option CANMessage
  | reception a => a.dispatched
  | _ => none

def mailEvents (τ : Transition MailReception MailAction) : List MailEvent :=
  (τ.label.received τ.src).toList.map .received ++ τ.label.dispatched.toList.map .dispatched

def receptionEvents (τ : Transition Reception ReceptionAction) : List MailEvent :=
  (τ.label.accepted τ.src).toList.map .received ++ τ.label.dispatched.toList.map .dispatched

section Refinement

variable {pool : MailPool} {s t : MailReception} {a : Reception} {b c : Block}
  {dispatched accepted : List CANMessage}

theorem MailReception.store_message (s : MailReception) (frame : CANMessage) (msg : ℕ) :
    (s.store msg frame).message msg = frame := by
  simp [store, message]

/-- A block keeps its message while another one is filled. -/
theorem MailReception.store_message_ne (s : MailReception) (frame : CANMessage) (ne : c ≠ b) :
    (s.store (pool.addr b) frame).message (pool.addr c) = s.message (pool.addr c) := by
  have other : pool.addr c ≠ pool.addr b := MailPool.addr_injective.ne ne
  simp [store, message, other]

theorem MailRefines.init (h : (mailReception pool).init s) :
    ∃ a, reception.init a ∧ MailRefines pool s a := by
  obtain ⟨⟨word, made⟩, mbx, first, last, count, size, next, idle, calling⟩ := h
  obtain ⟨boxEnd, chain⟩ := initBox_chain made
  let a : Reception := ⟨.empty blocks, none, fun b => s.message (pool.addr b), s.trashcan, .idle,
    .waiting⟩
  refine ⟨a, ⟨rfl, rfl, rfl, rfl⟩, ?_⟩
  have psq : s.psq.Inv := by
    refine ⟨?_, ?_, ?_⟩
    · rw [last, size]
      decide
    · rw [count]
      exact Nat.zero_le _
    · rw [first, last, count]
      rfl
  exact {
    unused := chain
    boxEnd := boxEnd
    mbx := by rw [mbx]; exact ⟨by decide, by decide, rfl⟩
    mbxSize := by rw [mbx]; rfl
    psq := psq
    queue := by
      rw [MailReception.mails, RingBuffer.contents_empty count, mbx]
      rfl
    nextMessage := next
    procedure := by rw [calling]; exact .calling
    empty := by rw [calling]; exact nofun
    interrupt := idle
    trashcan := rfl
    memory := fun b _ => rfl }

/-! ### The interrupt -/

theorem MailRefines.nextMessage_eq_zero (refines : MailRefines pool s a) :
    s.nextMessage = 0 ↔ a.nextMessage = none := by
  rw [refines.nextMessage]
  cases a.nextMessage with
  | none => simp
  | some b => simpa using MailPool.addr_ne_zero

theorem MailRefines.count_le (refines : MailRefines pool s a) :
    s.mbx.count ≤ a.messageBox.queue.length := by
  have length := congrArg List.length refines.queue
  rw [List.length_append, RingBuffer.length_contents, List.length_map] at length
  omega

/-- A block put into the message box is never refused. -/
theorem MailRefines.room (refines : MailRefines pool s a) (inv : a.Inv dispatched accepted)
    (held : s.nextMessage ≠ 0) : s.mbx.count < canTransceiverBufferSize := by
  obtain ⟨b, next⟩ := Option.ne_none_iff_exists'.1 fun none => held (refines.nextMessage_eq_zero.2 none)
  exact refines.count_le.trans_lt (inv.queue_length_lt next)

theorem MailRefines.alloc (refines : MailRefines pool s a) (looping : s.interrupt = .looping)
    (unfilled : s.nextMessage = 0) :
    ∃ a', ReceptionStep a .alloc a' ∧ MailRefines pool { s with
      nextMessage := (rtAllocBox s.box s.word).1
      box := (rtAllocBox s.box s.word).2
      interrupt := .reading } a' := by
  have looping' := refines.interrupt ▸ looping
  have unfilled' := refines.nextMessage_eq_zero.1 unfilled
  have unused := refines.unused
  unfold rtAllocBox
  cases free : a.messageBox.unused with
  | nil =>
    rw [free, List.map_nil] at unused
    have exhausted : s.box.free = 0 := unused
    rw [if_neg (not_not.2 exhausted)]
    exact ⟨_, .alloc looping' unfilled' (.exhausted free), { refines with
      nextMessage := exhausted
      interrupt := rfl }⟩
  | cons b rest =>
    rw [free, List.map_cons] at unused
    obtain ⟨head, ne, tail⟩ := unused
    have block : b ∈ a.messageBox.unused := free ▸ List.mem_cons_self
    have erased : a.messageBox.unused.erase b = rest := by rw [free, List.erase_cons_head]
    rw [head, if_pos ne]
    exact ⟨_, .alloc looping' unfilled' (.block block), { refines with
      unused := by rw [erased]; exact tail
      nextMessage := rfl
      interrupt := rfl }⟩

/-- A frame is stored in the block, which is put into the message box. -/
theorem mailRead_some {frame : CANMessage} (held : s.nextMessage ≠ 0)
    (room : s.mbx.count < s.mbx.size) (made : mailRead (some frame) s = some t) :
    ∃ psq, s.psq.enqueue (.mail s.nextMessage) = some psq ∧
      t = { s.store s.nextMessage frame with psq := psq, nextMessage := 0, interrupt := .looping } := by
  have space : (s.store s.nextMessage frame).mbx.size - (s.store s.nextMessage frame).mbx.count ≠ 0 :=
    Nat.sub_ne_zero_of_lt room
  simp only [mailRead, if_pos held, osMailPut, if_neg space, Option.map_map,
    Option.map_eq_some_iff] at made
  obtain ⟨psq, enqueued, rfl⟩ := made
  exact ⟨psq, enqueued, rfl⟩

theorem MailRefines.read_some (refines : MailRefines pool s a) (inv : a.Inv dispatched accepted)
    (next : a.nextMessage = some b) {frame : CANMessage} (made : mailRead (some frame) s = some t) :
    MailRefines pool t (readMessage (some frame) a) := by
  have next' : s.nextMessage = pool.addr b := by rw [refines.nextMessage, next]; rfl
  have held : s.nextMessage ≠ 0 := next' ▸ MailPool.addr_ne_zero
  obtain ⟨psq, enqueued, rfl⟩ := mailRead_some held (refines.mbxSize ▸ refines.room inv held) made
  rw [next'] at enqueued ⊢
  obtain ⟨psqInv, -, contents⟩ := refines.psq.enqueue enqueued
  have outside : pool.addr b ∉ a.messageBox.unused.map pool.addr := by
    rw [List.mem_map_of_injective MailPool.addr_injective]
    exact inv.accounts.not_mem_unused blocks_nodup (Reception.Inv.mem_held next)
  obtain ⟨notQueued, notHeld⟩ := inv.fresh next
  rw [readMessage_some next, Mailbox.put_of_lt (inv.queue_length_lt next)]
  exact {
    unused := refines.unused.update outside
    boxEnd := refines.boxEnd
    mbx := refines.mbx
    mbxSize := refines.mbxSize
    psq := psqInv
    queue := by
      have queue := refines.queue
      unfold MailReception.mails at queue ⊢
      rw [contents, List.filterMap_append, List.map_append, ← queue, List.append_assoc]
      rfl
    nextMessage := rfl
    procedure := refines.procedure
    empty := refines.empty
    interrupt := rfl
    trashcan := refines.trashcan
    memory := fun c hc => by
      rcases eq_or_ne c b with rfl | ne
      · dsimp only
        rw [Function.update_self]
        exact s.store_message frame _
      · have kept : c ∈ a.messageBox.queue ∨ a.procedure = .got c := by
          simpa [ne] using hc
        dsimp only
        rw [Function.update_of_ne ne]
        exact (s.store_message_ne frame ne).trans (refines.memory c kept) }

theorem MailRefines.read (refines : MailRefines pool s a) (inv : a.Inv dispatched accepted)
    (frame : Option CANMessage) (made : mailRead frame s = some t) :
    MailRefines pool t (readMessage frame a) := by
  cases next : a.nextMessage with
  | some b =>
    cases frame with
    | some frame => exact refines.read_some inv next made
    | none =>
      have held : s.nextMessage ≠ 0 := fun zero => by
        simp [refines.nextMessage_eq_zero.1 zero] at next
      simp only [mailRead, if_pos held] at made
      obtain rfl := Option.some.inj made
      rw [readMessage_none next]
      exact { refines with interrupt := rfl }
  | none =>
    have unheld : ¬ s.nextMessage ≠ 0 := not_not.2 (refines.nextMessage_eq_zero.2 next)
    simp only [mailRead, if_neg unheld] at made
    obtain rfl := Option.some.inj made
    rw [readMessage_trashcan next]
    exact { refines with
      interrupt := by rw [refines.trashcan]
      trashcan := by rw [refines.trashcan] }

/-! ### The task -/

theorem MailProcedure.Refines.of_calling {q : Procedure} (h : MailProcedure.Refines pool .calling q) :
    q = .waiting := by
  cases h
  rfl

theorem MailProcedure.Refines.of_waiting {q : Procedure} (h : MailProcedure.Refines pool .waiting q) :
    q = .waiting := by
  cases h
  rfl

theorem MailProcedure.Refines.of_got {q : Procedure} {msg : ℕ}
    (h : MailProcedure.Refines pool (.got msg) q) : ∃ b, q = .got b ∧ msg = pool.addr b := by
  cases h with
  | got b => exact ⟨b, rfl, rfl⟩

theorem MailProcedure.Refines.of_dispatched {q : Procedure} {msg : ℕ}
    (h : MailProcedure.Refines pool (.dispatched msg) q) :
    ∃ b, q = .dispatched b ∧ msg = pool.addr b := by
  cases h with
  | dispatched b => exact ⟨b, rfl, rfl⟩

/-- The task gets the oldest message. -/
theorem MailRefines.get {msg : ℕ} {mbx : RingBuffer ℕ} {psq : RingBuffer PostService}
    (refines : MailRefines pool s a) (before : a.procedure = .waiting) (idle : s.interrupt = .idle)
    (mbxInv : mbx.Inv) (mbxSize : mbx.size = canTransceiverBufferSize) (psqInv : psq.Inv)
    (oldest : s.mbx.contents ++ s.mails =
      msg :: (mbx.contents ++ psq.contents.filterMap PostService.msg)) :
    ∃ a', ReceptionStep a .get a' ∧
      MailRefines pool { s with mbx := mbx, psq := psq, procedure := .got msg } a' := by
  have idle' := refines.interrupt ▸ idle
  have whole := refines.queue
  rw [oldest] at whole
  obtain ⟨b, tail, queued, rfl, rest⟩ := List.map_eq_cons_iff.1 whole.symm
  have got : a.messageBox.get = some (b, ⟨a.messageBox.unused, tail⟩) :=
    Mailbox.get_eq_some.2 ⟨queued, rfl⟩
  refine ⟨_, .get idle' before got, ?_⟩
  exact { refines with
    mbx := mbxInv
    mbxSize := mbxSize
    psq := psqInv
    queue := rest.symm
    procedure := .got b
    empty := fun waiting => by cases waiting
    memory := fun c hc => refines.memory c <| .inl <| by
      rw [queued]
      rcases hc with mem | held
      · exact List.mem_cons_of_mem b mem
      · obtain rfl := Procedure.got.inj held
        exact List.mem_cons_self }

theorem MailRefines.osMailGet_some (refines : MailRefines pool s a) (idle : s.interrupt = .idle)
    (calling : s.procedure = .calling) (some : s.mbx.dequeue.isSome = true) :
    ∃ a', ReceptionStep a .get a' ∧ MailRefines pool (osMailGet s) a' := by
  have before := (calling ▸ refines.procedure).of_calling
  obtain ⟨⟨msg, mbx⟩, dequeued⟩ := Option.isSome_iff_exists.1 some
  obtain ⟨mbxInv, size, contents⟩ := refines.mbx.dequeue dequeued
  unfold osMailGet
  rw [dequeued]
  refine refines.get before idle mbxInv (size.trans refines.mbxSize) refines.psq ?_
  exact congrArg (· ++ s.mails) contents

/-- An empty message box is waited for. -/
theorem MailRefines.osMailGet_none (refines : MailRefines pool s a) (calling : s.procedure = .calling)
    (none : s.mbx.dequeue = none) : MailRefines pool (osMailGet s) a := by
  have before := (calling ▸ refines.procedure).of_calling
  unfold osMailGet
  rw [none]
  exact { refines with
    procedure := by
      rw [before]
      exact .waiting
    empty := fun _ => by
      by_contra some
      unfold RingBuffer.dequeue at none
      rw [if_neg some] at none
      cases none }

theorem MailReception.mails_of_dequeue {msg : ℕ} {psq : RingBuffer PostService} (inv : s.psq.Inv)
    (dequeued : s.psq.dequeue = some (.mail msg, psq)) :
    s.mails = msg :: psq.contents.filterMap PostService.msg := by
  obtain ⟨-, -, contents⟩ := inv.dequeue dequeued
  rw [mails, contents]
  rfl

/-- A message moves from the post-service queue to the message box, or to the task that waits. -/
theorem MailRefines.rtMbxPsh {msg : ℕ} {psq : RingBuffer PostService} (refines : MailRefines pool s a)
    (idle : s.interrupt = .idle) (dequeued : s.psq.dequeue = some (.mail msg, psq))
    (made : rtMbxPsh msg { s with psq := psq } = some t) :
    MailRefines pool t a ∨ ∃ a', ReceptionStep a .get a' ∧ MailRefines pool t a' := by
  obtain ⟨psqInv, -, -⟩ := refines.psq.dequeue dequeued
  have mails := MailReception.mails_of_dequeue refines.psq dequeued
  unfold Ams.rtMbxPsh at made
  split at made
  case h_1 waiting =>
    obtain rfl := Option.some.inj made
    have before := (waiting ▸ refines.procedure).of_waiting
    refine .inr (refines.get before idle refines.mbx refines.mbxSize psqInv ?_)
    rw [mails, RingBuffer.contents_empty (refines.empty waiting), List.nil_append, List.nil_append]
  case h_2 busy =>
    obtain ⟨mbx, enqueued, rfl⟩ := Option.map_eq_some_iff.1 made
    obtain ⟨mbxInv, size, entries⟩ := refines.mbx.enqueue enqueued
    refine .inl { refines with
      mbx := mbxInv
      mbxSize := size.trans refines.mbxSize
      psq := psqInv
      queue := ?_
      empty := fun waiting => absurd waiting busy }
    rw [← refines.queue, mails, entries, List.append_assoc]
    rfl

theorem MailRefines.rtPopReq (refines : MailRefines pool s a) (idle : s.interrupt = .idle)
    (made : rtPopReq s = some t) :
    MailRefines pool t a ∨ ∃ a', ReceptionStep a .get a' ∧ MailRefines pool t a' := by
  unfold Ams.rtPopReq at made
  split at made
  case h_1 =>
    obtain rfl := Option.some.inj made
    exact .inl refines
  case h_2 psq dequeued =>
    obtain rfl := Option.some.inj made
    obtain ⟨psqInv, -, contents⟩ := refines.psq.dequeue dequeued
    have queue := refines.queue
    rw [MailReception.mails, contents] at queue
    exact .inl { refines with
      psq := psqInv
      queue := queue }
  case h_3 msg psq dequeued => exact refines.rtMbxPsh idle dequeued made

theorem MailRefines.dispatch {msg : ℕ} (refines : MailRefines pool s a) (idle : s.interrupt = .idle)
    (got : s.procedure = .got msg) : ∃ a', ReceptionStep a (.dispatch (s.message msg)) a' ∧
      MailRefines pool { s with procedure := .dispatched msg } a' := by
  obtain ⟨b, got', rfl⟩ := (got ▸ refines.procedure).of_got
  rw [refines.memory b (.inr got')]
  exact ⟨_, .dispatch (refines.interrupt ▸ idle) got', { refines with
    procedure := .dispatched b
    empty := fun waiting => by cases waiting
    memory := fun c hc => refines.memory c <| .inl <| by simpa using hc }⟩

theorem MailRefines.free {msg : ℕ} (refines : MailRefines pool s a) (idle : s.interrupt = .idle)
    (inv : a.Inv dispatched accepted) (done : s.procedure = .dispatched msg) :
    ∃ a', ReceptionStep a .free a' ∧
      MailRefines pool { osMailFree pool.base msg s with procedure := .calling } a' := by
  obtain ⟨b, done', rfl⟩ := (done ▸ refines.procedure).of_dispatched
  have held : b ∈ a.held := by simp [Reception.held, done', Procedure.block]
  have within : ¬ (pool.addr b < pool.base ∨ s.box.boxEnd ≤ pool.addr b) := by
    have : pool.addr b < pool.boxEnd := MailPool.addr_lt_boxEnd
    rw [refines.boxEnd]
    unfold MailPool.addr at this ⊢
    omega
  have outside : pool.addr b ∉ a.messageBox.unused.map pool.addr := by
    rw [List.mem_map_of_injective MailPool.addr_injective]
    exact inv.accounts.not_mem_unused blocks_nodup held
  unfold osMailFree rtFreeBox
  rw [if_neg within]
  exact ⟨_, .free (refines.interrupt ▸ idle) done', { refines with
    unused := refines.unused.push outside MailPool.addr_ne_zero
    procedure := .calling
    empty := fun waiting => by cases waiting
    memory := fun c hc => by
      have queued : c ∈ a.messageBox.queue := by simpa [Mailbox.free] using hc
      have other : c ≠ b := by
        rintro rfl
        exact inv.accounts.not_mem_queue blocks_nodup held queued
      rw [← refines.memory c (.inl queued)]
      simp [MailReception.message, MailPool.addr_injective.ne other] }⟩

/-! ### The system -/

theorem MailStep.refines {l : MailAction} (step : MailStep pool s l t)
    (inv : a.Inv dispatched accepted) (refines : MailRefines pool s a) :
    mailEvents ⟨s, l, t⟩ = [] ∧ MailRefines pool t a ∨
      ∃ l' a', ReceptionStep a l' a' ∧ receptionEvents ⟨a, l', a'⟩ = mailEvents ⟨s, l, t⟩ ∧
        MailRefines pool t a' := by
  have interrupt := refines.interrupt
  cases step with
  | rxInterrupt idle =>
    exact .inr ⟨_, _, .rxInterrupt (interrupt ▸ idle), rfl, { refines with interrupt := rfl }⟩
  | alloc looping unfilled =>
    obtain ⟨a', made, refines'⟩ := refines.alloc looping unfilled
    exact .inr ⟨_, a', made, rfl, refines'⟩
  | keep looping held =>
    have held' : a.nextMessage ≠ none := fun none => held (refines.nextMessage_eq_zero.2 none)
    exact .inr ⟨_, _, .keep (interrupt ▸ looping) held', rfl, { refines with interrupt := rfl }⟩
  | read frame reading made =>
    have reading' := interrupt ▸ reading
    refine .inr ⟨_, _, .read frame reading', ?_, refines.read inv frame made⟩
    have room : a.HasRoom ↔ s.nextMessage ≠ 0 := by
      rw [Reception.HasRoom, Ne, Ne, Ne, refines.nextMessage_eq_zero]
      exact ⟨fun room none => room.elim (· none) (· (inv.exhausted reading' none)), .inl⟩
    simp only [receptionEvents, mailEvents, ReceptionAction.accepted, MailAction.received, room,
      MailAction.dispatched, ReceptionAction.dispatched]
  | get idle calling some =>
    obtain ⟨a', made, refines'⟩ := refines.osMailGet_some idle calling some
    exact .inr ⟨_, a', made, rfl, refines'⟩
  | wait idle calling none => exact .inl ⟨rfl, refines.osMailGet_none calling none⟩
  | serve idle made =>
    rcases refines.rtPopReq idle made with refines' | ⟨a', got, refines'⟩
    · exact .inl ⟨rfl, refines'⟩
    · exact .inr ⟨_, a', got, rfl, refines'⟩
  | post enqueued =>
    obtain ⟨psqInv, -, contents⟩ := refines.psq.enqueue enqueued
    have queue := refines.queue
    refine .inl ⟨rfl, { refines with
      psq := psqInv
      queue := ?_ }⟩
    rw [← queue, MailReception.mails, contents, List.filterMap_append]
    exact congrArg (_ ++ ·) (List.append_nil _)
  | dispatch idle got =>
    obtain ⟨a', made, refines'⟩ := refines.dispatch idle got
    exact .inr ⟨_, a', made, rfl, refines'⟩
  | free idle done =>
    obtain ⟨a', made, refines'⟩ := refines.free idle inv done
    exact .inr ⟨_, a', made, rfl, refines'⟩

theorem mail_refines (pool : MailPool) :
    Refinement (mailReception pool) reception mailEvents receptionEvents (MailRefines pool) where
  init _ h := MailRefines.init h
  step s l t a reachable refines step := by
    obtain ⟨ts, exec⟩ := reachable
    exact MailStep.refines step (reception_inv exec) refines

end Refinement

/-! ## Runs -/

/-- The frames that are received into blocks in a run. -/
def receivedFrames (ts : List (Transition MailReception MailAction)) : List CANMessage :=
  ts.filterMap fun τ => τ.label.received τ.src

/-- The messages that are dispatched in a run. -/
def dispatchedMails (ts : List (Transition MailReception MailAction)) : List CANMessage :=
  ts.filterMap fun τ => τ.label.dispatched

namespace MailEvent

def asReceived : MailEvent → Option CANMessage
  | received frame => some frame
  | dispatched _ => none

def asDispatched : MailEvent → Option CANMessage
  | received _ => none
  | dispatched msg => some msg

variable {T : Type} (f g : T → Option CANMessage) (ts : List T)

theorem filterMap_asReceived :
    (ts.flatMap fun τ => (f τ).toList.map received ++ (g τ).toList.map dispatched).filterMap
      asReceived = ts.filterMap f := by
  induction ts with
  | nil => rfl
  | cons τ ts ih =>
    rw [List.flatMap_cons, List.filterMap_append, ih]
    cases hf : f τ <;> cases g τ <;> simp [hf, List.filterMap_cons, asReceived]

theorem filterMap_asDispatched :
    (ts.flatMap fun τ => (f τ).toList.map received ++ (g τ).toList.map dispatched).filterMap
      asDispatched = ts.filterMap g := by
  induction ts with
  | nil => rfl
  | cons τ ts ih =>
    rw [List.flatMap_cons, List.filterMap_append, ih]
    cases f τ <;> cases hg : g τ <;> simp [hg, List.filterMap_cons, asDispatched]

end MailEvent

namespace MailReception

/-- The messages that are received and not dispatched yet, oldest first. -/
def pending (s : MailReception) : List ℕ :=
  match s.procedure with
  | .got msg => msg :: (s.mbx.contents ++ s.mails)
  | _ => s.mbx.contents ++ s.mails

/-- The blocks outside the free list and the queues. -/
def held (s : MailReception) : List ℕ :=
  (if s.nextMessage ≠ 0 then [s.nextMessage] else []) ++
    match s.procedure with
    | .got msg | .dispatched msg => [msg]
    | _ => []

end MailReception

section Runs

variable {pool : MailPool} {s : MailReception} {a : Reception}
  {ts : List (Transition MailReception MailAction)}

theorem MailRefines.held (refines : MailRefines pool s a) : s.held = a.held.map pool.addr := by
  have interrupt : (if s.nextMessage ≠ 0 then [s.nextMessage] else []) =
      a.nextMessage.toList.map pool.addr := by
    rw [refines.nextMessage]
    cases a.nextMessage with
    | none => rfl
    | some b => exact if_pos MailPool.addr_ne_zero
  unfold MailReception.held Reception.held
  rw [interrupt, List.map_append]
  have place := refines.procedure
  revert place
  generalize s.procedure = p
  generalize a.procedure = q
  rintro (_ | _ | _ | _) <;> rfl

theorem MailRefines.pending (refines : MailRefines pool s a) :
    s.pending.map s.message = a.beingDispatched ++ a.queued := by
  have queued : (s.mbx.contents ++ s.mails).map s.message = a.queued := by
    rw [refines.queue, List.map_map]
    exact List.map_congr_left fun b hb => refines.memory b (.inl hb)
  unfold MailReception.pending Reception.beingDispatched
  have place := refines.procedure
  cases h : s.procedure with
  | got msg =>
    obtain ⟨b, got, rfl⟩ := (h ▸ place).of_got
    rw [List.map_cons, queued, refines.memory b (.inr got), got]
    rfl
  | dispatched msg =>
    obtain ⟨b, done, rfl⟩ := (h ▸ place).of_dispatched
    rw [queued, done]
    rfl
  | calling =>
    have before := (h ▸ place).of_calling
    rw [queued, before]
    rfl
  | waiting =>
    have before := (h ▸ place).of_waiting
    rw [queued, before]
    rfl

/-- The message box has room for every message in the post-service queue. -/
theorem MailRefines.rtPopReq_isSome {dispatched accepted : List CANMessage}
    (refines : MailRefines pool s a) (inv : a.Inv dispatched accepted) :
    (Ams.rtPopReq s).isSome = true := by
  unfold Ams.rtPopReq
  split
  case h_1 => rfl
  case h_2 => rfl
  case h_3 msg psq dequeued =>
    have length := congrArg List.length refines.queue
    have all := inv.accounts.length_eq
    rw [MailReception.mails_of_dequeue refines.psq dequeued] at length
    simp only [List.length_append, List.length_cons, RingBuffer.length_contents, List.length_map,
      blocks_length] at length all
    unfold Ams.rtMbxPsh
    split
    · rfl
    · rw [Option.isSome_map, RingBuffer.enqueue_isSome]
      have := refines.mbxSize
      dsimp only
      omega

/-- Over the kernel's own lists and rings, every block is in one place at all times, no message is
refused by the message box, neither in the interrupt nor when the kernel serves the post-service queue,
and the messages are dispatched as they are received, in this order, whatever was freed and used again
in between. -/
theorem mail_conserves (exec : (mailReception pool).Execution ts s) :
    (∃ unused, Chain s.word 0 s.box.free unused ∧
      (unused ++ ((s.mbx.contents ++ s.mails) ++ s.held)).Perm
        ((List.finRange canTransceiverBufferSize).map pool.addr)) ∧
    (s.nextMessage ≠ 0 → s.mbx.count < s.mbx.size) ∧ (rtPopReq s).isSome = true ∧
    dispatchedMails ts ++ s.pending.map s.message = receivedFrames ts := by
  obtain ⟨us, a, abstract, refines, seen⟩ := (mail_refines pool).execution exec
  have inv := reception_inv abstract
  have received := congrArg (List.filterMap MailEvent.asReceived) seen
  have dispatched := congrArg (List.filterMap MailEvent.asDispatched) seen
  unfold mailEvents receptionEvents at received dispatched
  rw [MailEvent.filterMap_asReceived, MailEvent.filterMap_asReceived] at received
  rw [MailEvent.filterMap_asDispatched, MailEvent.filterMap_asDispatched] at dispatched
  refine ⟨⟨_, refines.unused, ?_⟩, fun held => ?_, refines.rtPopReq_isSome inv, ?_⟩
  · rw [refines.queue, refines.held, ← List.map_append, ← List.map_append]
    exact inv.accounts.map _
  · exact refines.mbxSize ▸ refines.room inv held
  · rw [refines.pending]
    calc dispatchedMails ts ++ (a.beingDispatched ++ a.queued)
        _ = dispatchedFrames us ++ (a.beingDispatched ++ a.queued) :=
          congrArg (· ++ _) dispatched.symm
        _ = acceptedFrames us := inv.frames
        _ = receivedFrames ts := received

/-- `Mail` at the address `0x10000000`, of messages of 16 bytes. -/
def MailPool.sample : MailPool := ⟨268435456, 16, by decide⟩

/-- The state after the construction. -/
def MailReception.constructed : MailReception :=
  let made := (initBox MailPool.sample.base
    (sizeofOsBm + canTransceiverBufferSize * MailPool.sample.blkSz) MailPool.sample.blkSz
      fun _ => 0).getD (⟨0, 0, 0⟩, fun _ => 0)
  { box := made.1
    word := made.2
    body := fun _ => ⟨#v[0, 0, 0, 0, 0, 0, 0, 0], 0, .canStandard, .canData⟩
    mbx := rtMbxInit (4 * (canTransceiverBufferSize + 4))
    psq := ⟨fun _ => .other, 0, 0, 0, osFifosz⟩
    nextMessage := 0
    trashcan := remoteFrame
    interrupt := .idle
    procedure := .calling }

/-- Two frames are received, one while the task waits and one while it dispatches the other. -/
theorem mail_conserves_two : ∃ ts s, (mailReception .sample).Execution ts s ∧
    receivedFrames ts = [extendedFrame, remoteFrame] ∧
    dispatchedMails ts ++ s.pending.map s.message = [extendedFrame, remoteFrame] := by
  have start : (mailReception .sample).Execution [] .constructed :=
    .init ⟨⟨fun _ => 0, rfl⟩, rfl, rfl, rfl, rfl, rfl, rfl, rfl, rfl⟩
  have waiting := start.snoc (MailStep.wait rfl rfl rfl)
  have entered := waiting.snoc (MailStep.rxInterrupt rfl)
  have allocated := entered.snoc (MailStep.alloc rfl rfl)
  have filled := allocated.snoc (MailStep.read (some extendedFrame) rfl rfl)
  have next := filled.snoc (MailStep.alloc rfl rfl)
  have left := next.snoc (MailStep.read none rfl rfl)
  have served := left.snoc (MailStep.serve rfl rfl)
  have dispatched := served.snoc (MailStep.dispatch rfl rfl)
  have again := dispatched.snoc (MailStep.rxInterrupt rfl)
  have kept := again.snoc (MailStep.keep rfl (by decide))
  have second := kept.snoc (MailStep.read (some remoteFrame) rfl rfl)
  exact ⟨_, _, second, rfl, (mail_conserves second).2.2.2.trans rfl⟩

end Runs

end Ams
