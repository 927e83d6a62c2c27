import Mathlib.Data.List.Induction

/-!
# Packed storage

A block of `n` bytes is a bit vector with the first byte in its low bits, so that both a little-endian
word and a bit-field, allocated from the low bits upwards, are slices of it (`Field`).  To write a
field leaves all other bits as they are.  A list of assignments determines the bits that it covers,
and the others show what the storage has held before (`store_eq_iff`).
-/

namespace Reactive

variable {n : ℕ}

/-- A slice of a bit vector: its first bit and its length. -/
structure Field where
  start : ℕ
  width : ℕ
  deriving DecidableEq, Repr

namespace Field

/-- The bit `i` belongs to the field. -/
def Has (f : Field) (i : ℕ) : Prop := f.start ≤ i ∧ i < f.start + f.width

instance (f : Field) (i : ℕ) : Decidable (f.Has i) :=
  inferInstanceAs (Decidable (f.start ≤ i ∧ i < f.start + f.width))

/-- The field lies within `n` bits. -/
def Fits (n : ℕ) (f : Field) : Prop := f.start + f.width ≤ n

instance (f : Field) : Decidable (f.Fits n) := inferInstanceAs (Decidable (f.start + f.width ≤ n))

/-- No bit belongs to both fields. -/
def Apart (f g : Field) : Prop := f.start + f.width ≤ g.start ∨ g.start + g.width ≤ f.start

instance (f g : Field) : Decidable (f.Apart g) :=
  inferInstanceAs (Decidable (f.start + f.width ≤ g.start ∨ g.start + g.width ≤ f.start))

def read (f : Field) (m : BitVec n) : BitVec f.width := m.extractLsb' f.start f.width

def write (f : Field) (v : BitVec f.width) (m : BitVec n) : BitVec n :=
  m &&& ~~~((BitVec.allOnes f.width).setWidth n <<< f.start) ||| v.setWidth n <<< f.start

variable {f g : Field} {i : ℕ}

theorem getLsbD_read (m : BitVec n) :
    (f.read m).getLsbD i = (decide (i < f.width) && m.getLsbD (f.start + i)) :=
  BitVec.getLsbD_extractLsb' ..

/-- Two storages read the same in a field if and only if they agree in its bits. -/
theorem read_eq_iff {m m' : BitVec n} :
    f.read m = f.read m' ↔ ∀ i, f.Has i → m.getLsbD i = m'.getLsbD i := by
  refine ⟨fun same i has => ?_, fun agree => BitVec.eq_of_getLsbD_eq fun i hi => ?_⟩
  · obtain ⟨start, stop⟩ := has
    have bit (m : BitVec n) : (f.read m).getLsbD (i - f.start) = m.getLsbD i := by
      have inside : i - f.start < f.width := by omega
      rw [getLsbD_read, decide_eq_true inside, Bool.true_and, Nat.add_sub_cancel' start]
    rw [← bit m, same, bit]
  · rw [getLsbD_read, getLsbD_read, agree _ ⟨Nat.le_add_right .., by omega⟩]

theorem getLsbD_write (v : BitVec f.width) (m : BitVec n) (hi : i < n) :
    (f.write v m).getLsbD i = if f.Has i then v.getLsbD (i - f.start) else m.getLsbD i := by
  have inside : f.Has i ↔ f.start ≤ i ∧ i - f.start < f.width := by
    unfold Has
    omega
  have below : i - f.start < n := by omega
  simp only [write, inside, BitVec.getLsbD_or, BitVec.getLsbD_and, BitVec.getLsbD_not,
    BitVec.getLsbD_shiftLeft, BitVec.getLsbD_setWidth, BitVec.getLsbD_allOnes, hi, below]
  by_cases start : i < f.start
  · simp [start, Nat.not_le.2 start]
  by_cases width : i - f.start < f.width
  · simp [start, width, Nat.not_lt.1 start]
  · simp [width, BitVec.getLsbD_of_ge v _ (Nat.not_lt.1 width)]

theorem read_write (fits : f.Fits n) (v : BitVec f.width) (m : BitVec n) :
    f.read (f.write v m) = v := by
  refine BitVec.eq_of_getLsbD_eq fun i hi => ?_
  have within : f.start + i < n := by unfold Fits at fits; omega
  rw [getLsbD_read, getLsbD_write v m within, if_pos ⟨Nat.le_add_right .., by omega⟩]
  simp [hi]

/-- A slice of a slice. -/
theorem read_read (inside : g.start + g.width ≤ f.width) (m : BitVec n) :
    g.read (f.read m) = (⟨f.start + g.start, g.width⟩ : Field).read m := by
  refine BitVec.eq_of_getLsbD_eq fun i hi => ?_
  have within : g.start + i < f.width := by omega
  rw [getLsbD_read, getLsbD_read, getLsbD_read, decide_eq_true within, Bool.true_and, Nat.add_assoc]

/-- A mask does not show in a field whose bits it all keeps. -/
theorem read_and {mask : BitVec n} (keeps : f.read mask = .allOnes f.width) (m : BitVec n) :
    f.read (m &&& mask) = f.read m := by
  have split : f.read (m &&& mask) = f.read m &&& f.read mask := BitVec.extractLsb'_and
  rw [split, keeps, BitVec.and_allOnes]

/-- A mask clears a field of whose bits it keeps none. -/
theorem read_and_zero {mask : BitVec n} (clears : f.read mask = 0) (m : BitVec n) :
    f.read (m &&& mask) = 0 := by
  have split : f.read (m &&& mask) = f.read m &&& f.read mask := BitVec.extractLsb'_and
  rw [split, clears]
  exact BitVec.and_zero

theorem read_or (m m' : BitVec n) : f.read (m ||| m') = f.read m ||| f.read m' :=
  BitVec.extractLsb'_or

/-- A write does not show in a field apart from it. -/
theorem read_write_of_apart (apart : f.Apart g) (fits : f.Fits n) (v : BitVec g.width)
    (m : BitVec n) : f.read (g.write v m) = f.read m := by
  refine BitVec.eq_of_getLsbD_eq fun i hi => ?_
  have within : f.start + i < n := by unfold Fits at fits; omega
  have outside : ¬ g.Has (f.start + i) := by
    unfold Apart at apart
    unfold Has
    omega
  rw [getLsbD_read, getLsbD_read, getLsbD_write v m within, if_neg outside]

end Field

/-! ## Assignments -/

/-- A value for a field. -/
structure Assignment where
  field : Field
  value : BitVec field.width

/-- The storage `m` after the assignments, made one after another. -/
def store (as : List Assignment) (m : BitVec n) : BitVec n :=
  as.foldl (fun m a => a.field.write a.value m) m

/-- The fields that the assignments write. -/
def fields (as : List Assignment) : List Field := as.map Assignment.field

/-- The bit `i` belongs to one of the fields. -/
def Covers (fs : List Field) (i : ℕ) : Prop := ∃ f ∈ fs, f.Has i

instance (fs : List Field) (i : ℕ) : Decidable (Covers fs i) :=
  inferInstanceAs (Decidable (∃ f ∈ fs, f.Has i))

variable {as : List Assignment} {a : Assignment} {m m' : BitVec n} {i : ℕ}

theorem store_snoc (as : List Assignment) (a : Assignment) (m : BitVec n) :
    store (as ++ [a]) m = a.field.write a.value (store as m) := by
  simp [store]

theorem covers_snoc : Covers (fields (as ++ [a])) i ↔ Covers (fields as) i ∨ a.field.Has i := by
  simp [fields, Covers, or_and_right, exists_or]

theorem getLsbD_store_of_not_covers (hi : i < n) (bare : ¬ Covers (fields as) i) :
    (store as m).getLsbD i = m.getLsbD i := by
  induction as using List.reverseRecOn with
  | nil => rfl
  | append_singleton as a ih =>
    rw [covers_snoc, not_or] at bare
    rw [store_snoc, Field.getLsbD_write _ _ hi, if_neg bare.2, ih bare.1]

/-- A covered bit does not depend on the storage. -/
theorem getLsbD_store_of_covers (hi : i < n) (covered : Covers (fields as) i) (m m' : BitVec n) :
    (store as m).getLsbD i = (store as m').getLsbD i := by
  induction as using List.reverseRecOn with
  | nil => obtain ⟨f, none, -⟩ := covered; cases none
  | append_singleton as a ih =>
    rw [store_snoc, store_snoc, Field.getLsbD_write _ _ hi, Field.getLsbD_write _ _ hi]
    split_ifs with last
    · rfl
    · exact ih ((covers_snoc.1 covered).resolve_right last)

/-- Two storages are the same after the assignments if and only if they agree in the bits that no
assignment covers. -/
theorem store_eq_iff : store as m = store as m' ↔
    ∀ i < n, ¬ Covers (fields as) i → m.getLsbD i = m'.getLsbD i := by
  refine ⟨fun same i hi bare => ?_, fun agree => BitVec.eq_of_getLsbD_eq fun i hi => ?_⟩
  · rw [← getLsbD_store_of_not_covers hi bare, same, getLsbD_store_of_not_covers hi bare]
  · by_cases covered : Covers (fields as) i
    · exact getLsbD_store_of_covers hi covered m m'
    · rw [getLsbD_store_of_not_covers hi covered, getLsbD_store_of_not_covers hi covered,
        agree i hi covered]

/-- The bits that no assignment covers are those of the field `gap`. -/
theorem store_eq_iff_read {gap : Field} (fits : gap.Fits n)
    (bare : ∀ i < n, ¬ Covers (fields as) i ↔ gap.Has i) :
    store as m = store as m' ↔ gap.read m = gap.read m' := by
  rw [store_eq_iff, Field.read_eq_iff]
  refine ⟨fun agree i has => ?_, fun agree i hi h => agree i ((bare i hi).1 h)⟩
  have hi : i < n := by
    unfold Field.Fits at fits
    unfold Field.Has at has
    omega
  exact agree i hi ((bare i hi).2 has)

/-- Fields within the storage and apart from each other. -/
def Layout (n : ℕ) (fs : List Field) : Prop := fs.Pairwise Field.Apart ∧ ∀ f ∈ fs, f.Fits n

instance (fs : List Field) : Decidable (Layout n fs) :=
  inferInstanceAs (Decidable (fs.Pairwise Field.Apart ∧ ∀ f ∈ fs, f.Fits n))

theorem Layout.of_snoc (layout : Layout n (fields (as ++ [a]))) :
    Layout n (fields as) ∧ (∀ b ∈ as, b.field.Apart a.field) ∧ a.field.Fits n := by
  obtain ⟨apart, fits⟩ := layout
  simp only [fields, List.map_append, List.map_cons, List.map_nil, List.pairwise_append,
    List.mem_append, List.mem_singleton] at apart fits
  refine ⟨⟨apart.1, fun f hf => fits f (.inl hf)⟩, fun b hb => ?_, fits _ (.inr rfl)⟩
  exact apart.2.2 _ (List.mem_map_of_mem hb) _ rfl

/-- The fields of a layout keep what is assigned to them. -/
theorem read_store (layout : Layout n (fields as)) (ha : a ∈ as) (m : BitVec n) :
    a.field.read (store as m) = a.value := by
  have fits : a.field.Fits n := layout.2 _ (List.mem_map_of_mem ha)
  induction as using List.reverseRecOn with
  | nil => cases ha
  | append_singleton as b ih =>
    obtain ⟨before, apart, -⟩ := layout.of_snoc
    rw [store_snoc]
    rcases List.mem_append.1 ha with earlier | last
    · rw [Field.read_write_of_apart (apart a earlier) fits]
      exact ih before earlier
    · obtain rfl := List.mem_singleton.1 last
      exact Field.read_write fits a.value _

/-! ## Bytes -/

/-- The byte `k`. -/
def byteAt (k : ℕ) : Field := ⟨8 * k, 8⟩

def bytes (m : BitVec (8 * n)) : List (BitVec 8) := List.ofFn fun k : Fin n => (byteAt k).read m

/-- The block of the bytes `bs`, with zeros for those that are missing. -/
def ofBytes (n : ℕ) (bs : List (BitVec 8)) : BitVec (8 * n) :=
  store ((List.range n).map fun k => ⟨byteAt k, bs.getD k 0⟩) 0

theorem length_bytes (m : BitVec (8 * n)) : (bytes m).length = n := List.length_ofFn

theorem eq_of_read_bytes {m m' : BitVec (8 * n)}
    (same : ∀ k < n, (byteAt k).read m = (byteAt k).read m') : m = m' := by
  refine BitVec.eq_of_getLsbD_eq fun i hi => ?_
  have bit (m : BitVec (8 * n)) : ((byteAt (i / 8)).read m).getLsbD (i % 8) = m.getLsbD i := by
    have small : i % 8 < (byteAt (i / 8)).width := Nat.mod_lt i (by decide)
    have whole : (byteAt (i / 8)).start + i % 8 = i := Nat.div_add_mod i 8
    rw [Field.getLsbD_read, whole, decide_eq_true small, Bool.true_and]
  rw [← bit m, same (i / 8) (by omega), bit]

theorem layout_bytes (bs : ℕ → BitVec 8) :
    Layout (8 * n) (fields ((List.range n).map fun k => ⟨byteAt k, bs k⟩)) := by
  refine ⟨?_, fun f hf => ?_⟩
  · rw [fields, List.map_map]
    refine List.pairwise_map.2 (List.pairwise_lt_range.imp fun {j l} lt => .inl ?_)
    simp only [Function.comp_apply, byteAt]
    omega
  · rw [fields, List.map_map] at hf
    obtain ⟨j, hj, rfl⟩ := List.mem_map.1 hf
    have inside := List.mem_range.1 hj
    simp only [Function.comp_apply, Field.Fits, byteAt]
    omega

theorem ofBytes_bytes (m : BitVec (8 * n)) : ofBytes n (bytes m) = m := by
  refine eq_of_read_bytes fun k hk => ?_
  have listing : (⟨byteAt k, (bytes m).getD k 0⟩ : Assignment) ∈
      (List.range n).map fun k => ⟨byteAt k, (bytes m).getD k 0⟩ :=
    List.mem_map.2 ⟨k, List.mem_range.2 hk, rfl⟩
  have written := read_store (layout_bytes fun k => (bytes m).getD k 0) listing 0
  have listed : (bytes m).getD k 0 = (byteAt k).read m := by
    have inside : k < (bytes m).length := by rwa [length_bytes]
    rw [List.getD_eq_getElem?_getD, List.getElem?_eq_getElem inside, Option.getD_some]
    exact List.getElem_ofFn ..
  exact written.trans listed

theorem bytes_injective : Function.Injective (bytes (n := n)) := fun m m' same => by
  rw [← ofBytes_bytes m, same, ofBytes_bytes]

end Reactive
