import Ams.Lib.Nesting
import Ams.Net.Driver
import Mathlib.Order.Bounds.Basic

/-!
# The bit rate

`can_speed` looks for a prescaler and a number of time quanta whose product is the width of a bit in
clocks.  It tries the prescalers in ascending order, from an `uint16_t` that it compares with a
quotient of 32 bits: it finds the least divisor in its range (`canFrequency_finds`), and where the
quotient is out of the range of the counter it returns only if some divisor is in it
(`canFrequency_returns_iff`).
-/

namespace Ams

open Reactive

/-! ## The functions -/

/-- `CANName`, of the two controllers. -/
inductive CANName where
  | can1
  | can2
  deriving DecidableEq, Repr

/-- The clock of the core, and the register that divides it for the peripherals. -/
structure Clocks where
  systemCoreClock : BitVec 32
  pclksel0 : BitVec 32

def canPclk (clocks : Clocks) (name : CANName) : BitVec 32 :=
  let value := match name with
    | .can1 => (clocks.pclksel0 &&& 0x3 <<< 26) >>> 26
    | .can2 => (clocks.pclksel0 &&& 0x3 <<< 28) >>> 28
  if value = 1 then 1 else if value = 2 then 2 else if value = 3 then 6 else 4

/-- `TSEG1` and `TSEG2`. -/
def timingPts : List (BitVec 32 × BitVec 32) :=
  [(0x0, 0x0), (0x1, 0x0), (0x2, 0x0), (0x3, 0x0), (0x3, 0x1), (0x4, 0x1), (0x5, 0x1), (0x6, 0x1),
    (0x6, 0x2), (0x7, 0x2), (0x8, 0x2), (0x9, 0x2), (0x9, 0x3), (0xA, 0x3), (0xB, 0x3), (0xC, 0x3),
    (0xD, 0x3), (0xD, 0x4), (0xE, 0x4), (0xF, 0x4), (0xF, 0x5), (0xF, 0x6), (0xF, 0x7)]

/-- The inner loop, from `bits` down to `1`.  The product is below `2 ^ 32`. -/
def calcbit (bitwidth : BitVec 32) (brp : BitVec 16) : ℕ → Option ℕ
  | 0 => none
  | bits + 1 =>
    if (bits + 1 + 3) * (brp.toNat + 1) = bitwidth.toNat then some (bits + 1)
    else calcbit bitwidth brp bits

/-- The outer loop, at most `n` times: `brp` and `bits` if there is a hit. -/
def search (bitwidth : BitVec 32) : ℕ → BitVec 16 → Option (Option (BitVec 16 × ℕ))
  | 0, _ => none
  | n + 1, brp =>
    if brp.toNat < (bitwidth / 4).toNat then
      match calcbit bitwidth (brp + 1) 22 with
      | some bits => some (some (brp + 1, bits))
      | none => search bitwidth n (brp + 1)
    else some none

/-- `(value << shift) & mask`. -/
def part (value : BitVec 32) (shift : ℕ) (mask : BitVec 32) : BitVec 32 := value <<< shift &&& mask

def packBtr (psjw : BitVec 8) (brp : BitVec 16) (bits : ℕ) : BitVec 32 :=
  let (tseg1, tseg2) := timingPts.getD bits (0, 0)
  part tseg2 20 0x00700000 ||| part tseg1 16 0x000F0000 |||
    part (psjw.setWidth 32) 14 0x0000C000 ||| part (brp.setWidth 32) 0 0x000003FF

/-- A division by zero has the result zero. -/
def canSpeed (n : ℕ) (sclk pclk cclk : BitVec 32) (psjw : BitVec 8) : Option (BitVec 32) := do
  let bitwidth := sclk / (pclk * cclk)
  let hit ← search bitwidth n ((bitwidth / 0x18).setWidth 16)
  match hit with
  | some (brp, bits) => some (packBtr psjw brp bits)
  | none => some 0xFFFFFFFF

/-- `can_disable`: the registers and `sm`. -/
def canDisable (dev : LpcCan) : LpcCan × BitVec 32 := ({ dev with mod := dev.mod ||| 1 }, dev.mod)

/-- `btr` is an `int`. -/
def canFrequency (n : ℕ) (clocks : Clocks) (name : CANName) (f : BitVec 32) (dev : LpcCan) :
    Option (LpcCan × Bool) := do
  let btr ← canSpeed n clocks.systemCoreClock (canPclk clocks name) f 1
  if (0 : BitVec 32).slt btr then
    let (dev, modmask) := canDisable dev
    some ({ dev with btr := btr, mod := modmask }, true)
  else some (dev, false)

/-! The fields of `BTR`. -/

namespace Btr

def brp : Field := ⟨0, 10⟩

def sjw : Field := ⟨14, 2⟩

def tseg1 : Field := ⟨16, 4⟩

def tseg2 : Field := ⟨20, 3⟩

/-- The clocks of a bit: one quantum to synchronise, and one more than each of the fields has. -/
def bitTime (btr : BitVec 32) : ℕ :=
  ((tseg1.read btr).toNat + (tseg2.read btr).toNat + 3) * ((brp.read btr).toNat + 1)

end Btr

/-! ## Divisors -/

section

variable {w : BitVec 32} {brp b : BitVec 16} {bits n k : ℕ}

theorem calcbit_eq_some : calcbit w brp n = some bits ↔
    1 ≤ bits ∧ bits ≤ n ∧ (bits + 3) * (brp.toNat + 1) = w.toNat := by
  induction n with
  | zero => simp [calcbit]; omega
  | succ n ih =>
    unfold calcbit
    split_ifs with hit
    · refine ⟨fun same => ?_, fun ⟨_, _, product⟩ => ?_⟩
      · obtain rfl := Option.some.inj same
        exact ⟨by omega, le_rfl, hit⟩
      · have := Nat.eq_of_mul_eq_mul_right (Nat.succ_pos _) (hit.trans product.symm)
        exact congrArg some (by omega)
    · rw [ih]
      refine ⟨fun ⟨pos, le, product⟩ => ⟨pos, by omega, product⟩, fun ⟨pos, le, product⟩ => ?_⟩
      have ne : bits ≠ n + 1 := fun same => hit (same ▸ product)
      exact ⟨pos, by omega, product⟩

/-- `brp + 1` divides the width of a bit into a number of quanta that is in the table. -/
def Hits (w : BitVec 32) (brp : BitVec 16) : Prop :=
  brp.toNat + 1 ∣ w.toNat ∧ 4 ≤ w.toNat / (brp.toNat + 1) ∧ w.toNat / (brp.toNat + 1) ≤ 25

theorem calcbit_of_hits (hits : Hits w brp) :
    calcbit w brp 22 = some (w.toNat / (brp.toNat + 1) - 3) := by
  obtain ⟨divides, four, most⟩ := hits
  have product : w.toNat / (brp.toNat + 1) * (brp.toNat + 1) = w.toNat := Nat.div_mul_cancel divides
  refine calcbit_eq_some.2 ⟨by omega, by omega, ?_⟩
  rwa [Nat.sub_add_cancel (by omega)]

theorem calcbit_of_not_hits (miss : ¬ Hits w brp) : calcbit w brp 22 = none := by
  refine Option.eq_none_iff_forall_not_mem.2 fun bits found => miss ?_
  obtain ⟨pos, le, product⟩ := calcbit_eq_some.1 found
  have quotient : w.toNat / (brp.toNat + 1) = bits + 3 :=
    Nat.div_eq_of_eq_mul_left (Nat.succ_pos _) product.symm
  exact ⟨⟨bits + 3, by rw [← product, Nat.mul_comm]⟩, by omega, by omega⟩

/-! ## The outer loop -/

theorem add_ofNat_succ (brp : BitVec 16) (k : ℕ) :
    brp + 1 + .ofNat 16 k = brp + .ofNat 16 (k + 1) := by
  rw [Nat.add_comm k 1, BitVec.ofNat_add, BitVec.add_assoc]
  rfl

theorem search_of_hits (below : brp.toNat < (w / 4).toNat) (hits : Hits w (brp + 1)) (n : ℕ) :
    search w (n + 1) brp = some (some (brp + 1, w.toNat / ((brp + 1).toNat + 1) - 3)) := by
  rw [search, if_pos below, calcbit_of_hits hits]

theorem search_of_not_hits (below : brp.toNat < (w / 4).toNat) (miss : ¬ Hits w (brp + 1)) (n : ℕ) :
    search w (n + 1) brp = search w n (brp + 1) := by
  rw [search, if_pos below, calcbit_of_not_hits miss]

/-- The loop goes past the prescalers that do not hit. -/
theorem search_skip (below : ∀ i < k, (brp + .ofNat 16 i).toNat < (w / 4).toNat)
    (miss : ∀ i, 1 ≤ i → i ≤ k → ¬ Hits w (brp + .ofNat 16 i)) (n : ℕ) :
    search w (n + k) brp = search w n (brp + .ofNat 16 k) := by
  induction k generalizing brp with
  | zero => simp
  | succ k ih =>
    have first := below 0 (Nat.succ_pos k)
    have second := miss 1 le_rfl (by omega)
    simp only [BitVec.ofNat_eq_ofNat, BitVec.add_zero] at first
    rw [← Nat.add_assoc, search_of_not_hits first second, ih, add_ofNat_succ]
    · intro i hi
      rw [add_ofNat_succ]
      exact below (i + 1) (by omega)
    · intro i pos le
      rw [add_ofNat_succ]
      exact miss (i + 1) (by omega) (by omega)

theorem search_returns_some {i : ℕ} (pos : 1 ≤ i)
    (below : ∀ j < i, (brp + .ofNat 16 j).toNat < (w / 4).toNat)
    (hits : Hits w (brp + .ofNat 16 i)) (miss : ∀ j, 1 ≤ j → j < i → ¬ Hits w (brp + .ofNat 16 j)) :
    Returns (fun n => search w n brp) (some (brp + .ofNat 16 i,
      w.toNat / ((brp + .ofNat 16 i).toNat + 1) - 3)) := by
  obtain ⟨k, rfl⟩ : ∃ k, i = k + 1 := ⟨i - 1, by omega⟩
  have last : brp + .ofNat 16 k + 1 = brp + .ofNat 16 (k + 1) := by
    rw [BitVec.ofNat_add, BitVec.add_assoc]
    rfl
  refine returns_of_add (1 + k) fun n => ?_
  rw [← Nat.add_assoc, search_skip (fun j hj => below j (by omega)) fun j pos le =>
    miss j pos (by omega), search_of_hits (below k (by omega)) (last ▸ hits), last]

theorem search_returns_none (below : ∀ i < k, (brp + .ofNat 16 i).toNat < (w / 4).toNat)
    (stop : ¬ (brp + .ofNat 16 k).toNat < (w / 4).toNat)
    (miss : ∀ i, 1 ≤ i → i ≤ k → ¬ Hits w (brp + .ofNat 16 i)) :
    Returns (fun n => search w n brp) none := by
  refine returns_of_add (1 + k) fun n => ?_
  rw [← Nat.add_assoc, search_skip below miss, search, if_neg stop]

/-- Where the counter cannot reach the quotient, the loop ends only with a hit. -/
theorem search_eq_none (wide : 0x10000 ≤ (w / 4).toNat) (miss : ∀ b, ¬ Hits w b) (n : ℕ)
    (brp : BitVec 16) : search w n brp = none := by
  induction n generalizing brp with
  | zero => rfl
  | succ n ih =>
    have below : brp.toNat < (w / 4).toNat := lt_of_lt_of_le brp.isLt wide
    rw [search_of_not_hits below (miss _), ih]

end

/-! ## The register -/

open Btr

theorem timingPts_quanta : ∀ bits < 23,
    (tseg1.read ((timingPts.getD bits (0, 0)).1 <<< 16)).toNat +
      (tseg2.read ((timingPts.getD bits (0, 0)).2 <<< 20)).toNat = bits := by
  decide

section

variable {f : Field} {shift : ℕ} {mask : BitVec 32}

theorem read_part (keeps : f.read mask = .allOnes f.width) (value : BitVec 32) :
    f.read (part value shift mask) = f.read (value <<< shift) :=
  Field.read_and keeps _

theorem read_part_zero (clears : f.read mask = 0) (value : BitVec 32) :
    f.read (part value shift mask) = 0 :=
  Field.read_and_zero clears _

end

theorem brp_packBtr (psjw : BitVec 8) (prescaler : BitVec 16) (bits : ℕ) :
    (brp.read (packBtr psjw prescaler bits)).toNat = prescaler.toNat % 0x400 := by
  unfold packBtr
  dsimp only
  rw [Field.read_or, Field.read_or, Field.read_or, read_part_zero (by decide),
    read_part_zero (by decide), read_part_zero (by decide), read_part (by decide)]
  simp only [BitVec.ofNat_eq_ofNat, BitVec.zero_or]
  simp [Field.read, brp]

theorem quanta_packBtr (psjw : BitVec 8) (prescaler : BitVec 16) {bits : ℕ} (le : bits < 23) :
    (tseg1.read (packBtr psjw prescaler bits)).toNat +
      (tseg2.read (packBtr psjw prescaler bits)).toNat = bits := by
  have first : tseg1.read (packBtr psjw prescaler bits) =
      tseg1.read ((timingPts.getD bits (0, 0)).1 <<< 16) := by
    unfold packBtr
    dsimp only
    rw [Field.read_or, Field.read_or, Field.read_or, read_part_zero (by decide),
      read_part (by decide), read_part_zero (by decide), read_part_zero (by decide)]
    simp only [BitVec.ofNat_eq_ofNat, BitVec.zero_or, BitVec.or_zero]
  have second : tseg2.read (packBtr psjw prescaler bits) =
      tseg2.read ((timingPts.getD bits (0, 0)).2 <<< 20) := by
    unfold packBtr
    dsimp only
    rw [Field.read_or, Field.read_or, Field.read_or, read_part (by decide),
      read_part_zero (by decide), read_part_zero (by decide), read_part_zero (by decide)]
    simp only [BitVec.ofNat_eq_ofNat, BitVec.or_zero]
  rw [first, second]
  exact timingPts_quanta bits le

/-- The result is positive as an `int`. -/
theorem slt_packBtr (prescaler : BitVec 16) (bits : ℕ) :
    (0 : BitVec 32).slt (packBtr 1 prescaler bits) = true := by
  have positive : (packBtr 1 prescaler bits).msb = false := by
    have top (value : BitVec 32) (shift : ℕ) {mask : BitVec 32} (clear : mask.msb = false) :
        (part value shift mask).msb = false := by
      rw [part, BitVec.msb_and, clear, Bool.and_false]
    unfold packBtr
    dsimp only
    rw [BitVec.msb_or, BitVec.msb_or, BitVec.msb_or, top _ _ (by decide), top _ _ (by decide),
      top _ _ (by decide), top _ _ (by decide)]
    rfl
  have width : sjw.read (packBtr 1 prescaler bits) = 1 := by
    unfold packBtr
    dsimp only
    rw [Field.read_or, Field.read_or, Field.read_or, read_part_zero (by decide),
      read_part_zero (by decide), read_part (by decide), read_part_zero (by decide)]
    decide
  have pos : 0 < (packBtr 1 prescaler bits).toNat := by
    refine Nat.pos_of_ne_zero fun zero => ?_
    rw [BitVec.eq_of_toNat_eq (y := 0) zero] at width
    exact absurd width (by decide)
  rw [BitVec.slt_iff_toInt_lt, BitVec.toInt_eq_toNat_of_msb positive]
  simpa using pos

/-! ## The bit rate -/

/-- The width of a bit in clocks of the controller. -/
def Clocks.bitwidth (clocks : Clocks) (name : CANName) (f : BitVec 32) : BitVec 32 :=
  clocks.systemCoreClock / (canPclk clocks name * f)

/-- `brp` before the loop. -/
def firstBrp (w : BitVec 32) : BitVec 16 := (w / 0x18).setWidth 16

/-- What `can_frequency` leaves and answers after the search. -/
def settled (dev : LpcCan) : Option (BitVec 16 × ℕ) → LpcCan × Bool
  | some (prescaler, bits) => ({ dev with btr := packBtr 1 prescaler bits }, true)
  | none => (dev, false)

/-- A divisor of the width in the range of the prescalers that are tried, counted from one. -/
def Prescales (w d : ℕ) : Prop := w / 24 + 2 ≤ d ∧ 4 * d ≤ w ∧ d ∣ w

instance (w d : ℕ) : Decidable (Prescales w d) :=
  inferInstanceAs (Decidable (w / 24 + 2 ≤ d ∧ 4 * d ≤ w ∧ d ∣ w))

variable {clocks : Clocks} {name : CANName} {w f : BitVec 32} {dev : LpcCan} {b : BitVec 16} {d : ℕ}
  {hit : Option (BitVec 16 × ℕ)}

theorem canFrequency_eq (n : ℕ) : canFrequency n clocks name f dev =
    (search (clocks.bitwidth name f) n (firstBrp (clocks.bitwidth name f))).map (settled dev) := by
  unfold canFrequency canSpeed Clocks.bitwidth firstBrp
  dsimp only
  generalize clocks.systemCoreClock / (canPclk clocks name * f) = w
  cases search w n ((w / 0x18).setWidth 16) with
  | none => rfl
  | some hit =>
    cases hit with
    | none => rfl
    | some hit =>
      obtain ⟨prescaler, bits⟩ := hit
      have positive := slt_packBtr prescaler bits
      simp only [BitVec.ofNat_eq_ofNat] at positive
      simp [positive, settled, canDisable]

theorem canFrequency_returns (found : Returns (fun n =>
    search (clocks.bitwidth name f) n (firstBrp (clocks.bitwidth name f))) hit) :
    Returns (fun n => canFrequency n clocks name f dev) (settled dev hit) := by
  obtain ⟨N, found⟩ := found
  refine ⟨N, fun n hn => (canFrequency_eq n).trans ?_⟩
  exact congrArg (Option.map (settled dev)) (found n hn)

theorem toNat_quarter (w : BitVec 32) : (w / 4).toNat = w.toNat / 4 := by
  rw [BitVec.toNat_udiv]
  rfl

theorem toNat_firstBrp (narrow : w.toNat / 4 < 0x10000) : (firstBrp w).toNat = w.toNat / 24 := by
  have small : w.toNat / 24 < 0x10000 := by omega
  have quotient : (w / 0x18).toNat = w.toNat / 24 := by
    rw [BitVec.toNat_udiv]
    rfl
  rw [firstBrp, BitVec.toNat_setWidth, quotient, Nat.mod_eq_of_lt small]

/-- The counter does not wrap below the quotient. -/
theorem toNat_firstBrp_add (narrow : w.toNat / 4 < 0x10000) {i : ℕ}
    (le : w.toNat / 24 + i ≤ w.toNat / 4) : (firstBrp w + .ofNat 16 i).toNat = w.toNat / 24 + i := by
  rw [BitVec.toNat_add, toNat_firstBrp narrow, BitVec.toNat_ofNat]
  omega

theorem Hits.prescales (hits : Hits w b) (tried : w.toNat / 24 < b.toNat) :
    Prescales w.toNat (b.toNat + 1) := by
  obtain ⟨divides, four, -⟩ := hits
  exact ⟨by omega, (Nat.le_div_iff_mul_le (Nat.succ_pos _)).1 four, divides⟩

theorem Prescales.hits (prescales : Prescales w.toNat d) (same : b.toNat + 1 = d) : Hits w b := by
  obtain ⟨first, last, divides⟩ := prescales
  have quanta : w.toNat / d < 24 := Nat.div_lt_of_lt_mul (by omega)
  rw [Hits, same]
  exact ⟨divides, (Nat.le_div_iff_mul_le (by omega)).2 last, by omega⟩

/-- The least of the divisors is found. -/
theorem search_finds (narrow : w.toNat / 4 < 0x10000) (prescales : Prescales w.toNat d)
    (least : ∀ d', Prescales w.toNat d' → d ≤ d') : ∃ prescaler : BitVec 16,
      prescaler.toNat + 1 = d ∧
      Returns (fun n => search w n (firstBrp w)) (some (prescaler, w.toNat / d - 3)) := by
  obtain ⟨first, last, -⟩ := id prescales
  have place {i : ℕ} (le : w.toNat / 24 + i < d) :
      (firstBrp w + .ofNat 16 i).toNat = w.toNat / 24 + i :=
    toNat_firstBrp_add narrow (by omega)
  have reached : (firstBrp w + .ofNat 16 (d - 1 - w.toNat / 24)).toNat + 1 = d := by
    rw [place (by omega)]
    omega
  refine ⟨_, reached, ?_⟩
  have found : Returns (fun n => search w n (firstBrp w)) (some
      (firstBrp w + .ofNat 16 (d - 1 - w.toNat / 24),
        w.toNat / ((firstBrp w + .ofNat 16 (d - 1 - w.toNat / 24)).toNat + 1) - 3)) := by
    refine search_returns_some (by omega) (fun j hj => ?_) (prescales.hits reached)
      fun j pos lt hits => ?_
    · rw [place (by omega), toNat_quarter]
      omega
    · have tried := place (i := j) (by omega)
      have le := least _ (hits.prescales (by omega))
      omega
  rwa [reached] at found

theorem search_gives_up (narrow : w.toNat / 4 < 0x10000) (without : ∀ d, ¬ Prescales w.toNat d) :
    Returns (fun n => search w n (firstBrp w)) none := by
  have place {i : ℕ} (le : w.toNat / 24 + i ≤ w.toNat / 4) := toNat_firstBrp_add narrow le
  refine search_returns_none (k := w.toNat / 4 - w.toNat / 24) (fun i hi => ?_) ?_
    fun i pos le hits => ?_
  · rw [place (by omega), toNat_quarter]
    omega
  · rw [place (by omega), toNat_quarter]
    omega
  · have tried := place (i := i) (by omega)
    exact without _ (hits.prescales (by omega))

/-- The register for a divisor that is tried: the width is divided into `w / d` quanta, each of `d`
clocks unless the prescaler is cut to its ten bits. -/
theorem fields_packBtr {prescaler : BitVec 16} (prescales : Prescales w.toNat d)
    (same : prescaler.toNat + 1 = d) :
    (brp.read (packBtr 1 prescaler (w.toNat / d - 3))).toNat = (d - 1) % 0x400 ∧
      (tseg1.read (packBtr 1 prescaler (w.toNat / d - 3))).toNat +
        (tseg2.read (packBtr 1 prescaler (w.toNat / d - 3))).toNat + 3 = w.toNat / d := by
  obtain ⟨first, last, -⟩ := prescales
  have four : 4 ≤ w.toNat / d := (Nat.le_div_iff_mul_le (by omega)).2 last
  have quanta : w.toNat / d < 24 := Nat.div_lt_of_lt_mul (by omega)
  rw [quanta_packBtr _ _ (by omega), brp_packBtr]
  omega

theorem bitTime_packBtr {prescaler : BitVec 16} (prescales : Prescales w.toNat d)
    (same : prescaler.toNat + 1 = d) :
    bitTime (packBtr 1 prescaler (w.toNat / d - 3)) = w.toNat ↔ d ≤ 0x400 := by
  obtain ⟨clocks, quanta⟩ := fields_packBtr prescales same
  obtain ⟨-, last, divides⟩ := prescales
  have four : 4 ≤ w.toNat / d := (Nat.le_div_iff_mul_le (by omega)).2 last
  have product : w.toNat / d * d = w.toNat := Nat.div_mul_cancel divides
  rw [bitTime, quanta, clocks]
  have cancel : w.toNat / d * ((d - 1) % 0x400 + 1) = w.toNat ↔ (d - 1) % 0x400 + 1 = d :=
    ⟨fun h => Nat.eq_of_mul_eq_mul_left (by omega) (h.trans product.symm),
      fun h => by rw [h, product]⟩
  rw [cancel]
  omega

/-- Where the quotient is in the range of the counter, `can_frequency` sets the register for the least
divisor of the width of a bit that it tries: to this prescaler, cut to ten bits, and the quotient as
the number of quanta, so that a bit has exactly its width unless the prescaler has been cut.  If there
is no divisor it changes nothing. -/
theorem canFrequency_finds (clocks : Clocks) (name : CANName) (f : BitVec 32) (dev : LpcCan)
    (narrow : (clocks.bitwidth name f).toNat / 4 < 0x10000) :
    (∀ d, IsLeast {d | Prescales (clocks.bitwidth name f).toNat d} d → ∃ btr,
      Returns (fun n => canFrequency n clocks name f dev) ({ dev with btr := btr }, true) ∧
        btr = packBtr 1 (.ofNat 16 (d - 1)) ((clocks.bitwidth name f).toNat / d - 3) ∧
        (brp.read btr).toNat = (d - 1) % 0x400 ∧
        (tseg1.read btr).toNat + (tseg2.read btr).toNat + 3 = (clocks.bitwidth name f).toNat / d ∧
        (bitTime btr = (clocks.bitwidth name f).toNat ↔ d ≤ 0x400)) ∧
      ((∀ d, ¬ Prescales (clocks.bitwidth name f).toNat d) →
        Returns (fun n => canFrequency n clocks name f dev) (dev, false)) := by
  refine ⟨fun d least => ?_, fun without => canFrequency_returns (search_gives_up narrow without)⟩
  obtain ⟨prescaler, same, found⟩ := search_finds narrow least.1 fun d' h => least.2 h
  obtain ⟨clocks, quanta⟩ := fields_packBtr least.1 same
  have value : prescaler = .ofNat 16 (d - 1) := by
    rw [← same, Nat.add_sub_cancel, BitVec.ofNat_toNat, BitVec.setWidth_eq]
  exact ⟨_, canFrequency_returns found, by rw [value], clocks, quanta,
    bitTime_packBtr least.1 same⟩

/-- A clock of 96 MHz, divided by four. -/
def Clocks.reset : Clocks := ⟨96000000, 0⟩

/-- The rate of the transceiver: a prescaler of four and twelve quanta. -/
theorem canFrequency_finds_rate :
    Returns (fun n => canFrequency n .reset .can1 500000 .ready)
      ({ LpcCan.ready with btr := 0x00274003 }, true) ∧ bitTime 0x00274003 = 48 := by
  have least : IsLeast {d | Prescales (Clocks.reset.bitwidth .can1 500000).toNat d} 4 :=
    ⟨by decide, fun d prescales => prescales.1⟩
  obtain ⟨btr, set, register, -, -, exact⟩ :=
    (canFrequency_finds .reset .can1 500000 .ready (by decide)).1 4 least
  obtain rfl : btr = 0x00274003 := register.trans (by decide)
  exact ⟨set, exact.2 (by decide)⟩

/-- The first prescaler that hits, after the counter has wrapped if need be. -/
theorem search_finds_wide (wide : 0x10000 ≤ w.toNat / 4) (hits : Hits w b) :
    ∃ hit, Returns (fun n => search w n (firstBrp w)) hit := by
  have reached : ∃ i, 1 ≤ i ∧ Hits w (firstBrp w + .ofNat 16 i) := by
    refine ⟨(b - firstBrp w).toNat + 0x10000, by omega, ?_⟩
    have round : firstBrp w + .ofNat 16 ((b - firstBrp w).toNat + 0x10000) = b := by
      have whole : BitVec.ofNat 16 (0x10000) = 0 := by decide
      rw [BitVec.ofNat_add, BitVec.ofNat_toNat, BitVec.setWidth_eq, whole, BitVec.ofNat_eq_ofNat,
        BitVec.add_zero, BitVec.add_comm, BitVec.sub_add_cancel]
    rwa [round]
  classical
  obtain ⟨pos, hits⟩ := Nat.find_spec reached
  refine ⟨_, search_returns_some pos (fun j _ => ?_) hits fun j first lt again => ?_⟩
  · rw [toNat_quarter]
    exact lt_of_lt_of_le (BitVec.isLt _) wide
  · exact Nat.find_min reached lt ⟨first, again⟩

/-- `can_frequency` returns if and only if the quotient is in the range of the counter or some
prescaler of sixteen bits divides the width of a bit into a number of quanta from 4 to 25. -/
theorem canFrequency_returns_iff (clocks : Clocks) (name : CANName) (f : BitVec 32) (dev : LpcCan) :
    (∃ r, Returns (fun n => canFrequency n clocks name f dev) r) ↔
      (clocks.bitwidth name f).toNat / 4 < 0x10000 ∨ ∃ d, 1 ≤ d ∧ d ≤ 0x10000 ∧
        d ∣ (clocks.bitwidth name f).toNat ∧ 4 ≤ (clocks.bitwidth name f).toNat / d ∧
          (clocks.bitwidth name f).toNat / d ≤ 25 := by
  generalize width : clocks.bitwidth name f = w
  have hits_iff : (∃ b, Hits w b) ↔
      ∃ d, 1 ≤ d ∧ d ≤ 0x10000 ∧ d ∣ w.toNat ∧ 4 ≤ w.toNat / d ∧ w.toNat / d ≤ 25 := by
    refine ⟨fun ⟨b, hits⟩ => ⟨b.toNat + 1, by omega, b.isLt, hits⟩, fun ⟨d, pos, le, hits⟩ => ?_⟩
    refine ⟨.ofNat 16 (d - 1), ?_⟩
    have same : (BitVec.ofNat 16 (d - 1)).toNat + 1 = d := by
      rw [BitVec.toNat_ofNat]
      omega
    rwa [Hits, same]
  have returns {hit : Option (BitVec 16 × ℕ)}
      (found : Returns (fun n => search w n (firstBrp w)) hit) :
      ∃ r, Returns (fun n => canFrequency n clocks name f dev) r :=
    ⟨_, canFrequency_returns (width ▸ found)⟩
  rw [← hits_iff]
  refine ⟨fun ⟨r, N, answer⟩ => ?_, fun h => ?_⟩
  · by_contra never
    obtain ⟨wide, miss⟩ := not_or.1 never
    have stuck :=
      search_eq_none (toNat_quarter w ▸ not_lt.1 wide) (not_exists.1 miss) N (firstBrp w)
    have value := answer N le_rfl
    simp only [canFrequency_eq, width, stuck, Option.map_none] at value
    cases value
  · by_cases narrow : w.toNat / 4 < 0x10000
    · by_cases some : ∃ d, Prescales w.toNat d
      · obtain ⟨_, -, found⟩ :=
          search_finds narrow (Nat.find_spec some) fun d' h => Nat.find_min' some h
        exact returns found
      · exact returns (search_gives_up narrow (not_exists.1 some))
    · obtain ⟨b, hits⟩ := h.resolve_left narrow
      obtain ⟨_, found⟩ := search_finds_wide (not_lt.1 narrow) hits
      exact returns found

end Ams
