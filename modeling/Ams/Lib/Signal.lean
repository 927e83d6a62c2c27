import Mathlib.Data.List.Induction

/-!
# Boolean signals over event lists

A signal is driven by the events of a list, oldest first: `write e` is the level that the event `e`
writes, or `none` when it leaves the signal alone.  `level` is the level after a list of events,
`Rises` says that the signal goes from low to high somewhere in the list, `HighSince` picks the
event that raised the signal when no later event has lowered it, and `Switches` picks the events that
change the level.
-/

namespace Reactive

variable {E : Type*} (write : E → Option Bool)

/-- The level after the events `es`, from the level `b`. -/
def level (b : Bool) (es : List E) : Bool := es.foldl (fun v e => (write e).getD v) b

/-- Somewhere in `es` the signal, low, is written high. -/
def Rises (b : Bool) (es : List E) : Prop :=
  ∃ pre e post, es = pre ++ e :: post ∧ write e = some true ∧ level write b pre = false

/-- In `es` the event `e` raised the signal and none of the events `post` after it lowered it. -/
def HighSince (b : Bool) (es : List E) (e : E) (post : List E) : Prop :=
  ∃ pre, es = pre ++ e :: post ∧ write e = some true ∧ level write b pre = false ∧
    ∀ x ∈ post, write x ≠ some false

/-- In `es` the event `e` changes the level. -/
def Switches (b : Bool) (es : List E) (e : E) : Prop :=
  ∃ pre post, es = pre ++ e :: post ∧ write e = some (!level write b pre)

/-- No event of `es` writes another level than `b`. -/
def Held (b : Bool) (es : List E) : Prop := ∀ e ∈ es, ∀ v, write e = some v → v = b

variable {write} {b : Bool} {es fs post : List E} {e : E}

@[simp]
theorem level_append : level write b (es ++ fs) = level write (level write b es) fs := by
  simp [level]

theorem Held.level_eq (held : Held write b es) : level write b es = b := by
  induction es using List.reverseRecOn with
  | nil => rfl
  | append_singleton es x ih =>
    rw [level_append, ih fun y hy => held y (List.mem_append_left _ hy)]
    have hx := held x (by simp)
    cases h : write x with
    | none => simp [level, h]
    | some v => simp [level, h, hx v h]

/-- A signal that is never written keeps its level. -/
theorem level_of_unwritten (unwritten : ∀ x ∈ es, write x = none) : level write b es = b := by
  refine Held.level_eq fun x hx v written => ?_
  rw [unwritten x hx] at written
  cases written

/-- A high signal that is never written low stays high. -/
theorem level_eq_true (held : ∀ x ∈ es, write x ≠ some false) : level write true es = true := by
  refine Held.level_eq fun x hx v written => ?_
  cases v with
  | true => rfl
  | false => exact absurd written (held x hx)

/-- A low signal that is high in the end has risen. -/
theorem rises_of_level (h : level write false es = true) : Rises write false es := by
  induction es using List.reverseRecOn with
  | nil => cases h
  | append_singleton es x ih =>
    rw [level_append] at h
    cases before : level write false es with
    | true =>
      obtain ⟨pre, e, post, rfl, he, low⟩ := ih before
      exact ⟨pre, e, post ++ [x], by simp, he, low⟩
    | false =>
      rw [before] at h
      have hx : write x = some true := by
        cases hx : write x <;> simp_all [level]
      exact ⟨es, x, [], rfl, hx, before⟩

/-- A signal driven by the images of the events. -/
theorem level_map {F : Type*} (f : F → E) (fs : List F) :
    level write b (fs.map f) = level (fun x => write (f x)) b fs := by
  simp [level, List.foldl_map]

/-- An event of a joined list is in the first part or in the second one. -/
theorem split_append {pre : List E} (h : es ++ fs = pre ++ e :: post) :
    (∃ mid, es = pre ++ e :: mid) ∨ ∃ mid, pre = es ++ mid ∧ fs = mid ++ e :: post := by
  rcases List.append_eq_append_iff.1 h with ⟨mid, hpre, hfs⟩ | ⟨mid, hes, hmid⟩
  · exact .inr ⟨mid, hpre, hfs⟩
  · rcases List.cons_eq_append_iff.1 hmid with ⟨rfl, hfs⟩ | ⟨mid', rfl, -⟩
    · exact .inr ⟨[], by simpa using hes.symm, by simpa using hfs⟩
    · exact .inl ⟨mid', hes⟩

/-- A high signal that is never written low does not rise. -/
theorem not_rises_of_held (held : ∀ x ∈ es, write x ≠ some false) : ¬ Rises write true es := by
  rintro ⟨pre, x, post, rfl, -, hlow⟩
  rw [level_eq_true fun y hy => held y (List.mem_append_left _ hy)] at hlow
  exact Bool.noConfusion hlow

theorem HighSince.append (h : HighSince write b es e post) (held : ∀ x ∈ fs, write x ≠ some false) :
    HighSince write b (es ++ fs) e (post ++ fs) := by
  obtain ⟨pre, rfl, he, hlow, hpost⟩ := h
  refine ⟨pre, by simp, he, hlow, fun x hx => ?_⟩
  rcases List.mem_append.1 hx with hx | hx
  · exact hpost x hx
  · exact held x hx

theorem highSince_of_rise (he : write e = some true) (hlow : level write b es = false)
    (held : ∀ x ∈ fs, write x ≠ some false) : HighSince write b (es ++ e :: fs) e fs :=
  ⟨es, rfl, he, hlow, held⟩

/-! ## Switches -/

theorem Held.append (first : Held write b es) (second : Held write b fs) :
    Held write b (es ++ fs) := fun e he =>
  (List.mem_append.1 he).elim (first e) (second e)

theorem Held.not_switches (held : Held write b es) : ¬ Switches write b es e := by
  rintro ⟨pre, post, rfl, written⟩
  have before : Held write b pre := fun x hx => held x (List.mem_append_left _ hx)
  have same := held e (by simp) _ written
  rw [before.level_eq] at same
  cases b <;> cases same

theorem switches_append :
    Switches write b (es ++ fs) e ↔
      Switches write b es e ∨ Switches write (level write b es) fs e := by
  constructor
  · rintro ⟨pre, post, split, written⟩
    rcases split_append split with ⟨mid, rfl⟩ | ⟨mid, rfl, rfl⟩
    · exact .inl ⟨pre, mid, rfl, written⟩
    · exact .inr ⟨mid, post, rfl, by rwa [level_append] at written⟩
  · rintro (⟨pre, post, rfl, written⟩ | ⟨pre, post, rfl, written⟩)
    · exact ⟨pre, post ++ fs, by simp, written⟩
    · exact ⟨es ++ pre, post, by simp, by rwa [level_append]⟩

end Reactive
