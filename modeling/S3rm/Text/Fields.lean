/-
S3rm/Text/Fields.lean

Texts of fields: fields are joined by one separator, the two halves of a field
by another.  Reading goes the other way, each field being cut at its first
inner separator, so the second half may hold that separator and the first may
not.
-/
import Mathlib.Data.List.Basic

namespace S3rm.Text

variable {α : Type} [DecidableEq α]

/-- A list cut at the first `sep`, which goes. -/
def splitFirst (sep : α) (xs : List α) : List α × List α :=
  (xs.takeWhile (· ≠ sep), (xs.dropWhile (· ≠ sep)).tail)

theorem splitFirst_append {sep : α} {left : List α} (h : sep ∉ left) (right : List α) :
    splitFirst sep (left ++ sep :: right) = (left, right) := by
  have hall : ∀ x ∈ left, decide (x ≠ sep) = true := by
    intro x hx
    rw [decide_eq_true_eq]
    rintro rfl
    exact h hx
  rw [splitFirst, List.takeWhile_append_of_pos hall, List.dropWhile_append_of_pos hall]
  simp

def joinFields (sep inner : α) (fields : List (List α × List α)) : List α :=
  [sep].intercalate (fields.map fun field => field.1 ++ inner :: field.2)

def splitFields (sep inner : α) (text : List α) : List (List α × List α) :=
  (text.splitOn sep).map (splitFirst inner)

/-- No half of a field holds the separator of fields, and no first half the
one within a field. -/
def Separable (sep inner : α) (fields : List (List α × List α)) : Prop :=
  ∀ field ∈ fields, sep ∉ field.1 ∧ inner ∉ field.1 ∧ sep ∉ field.2

section fields

variable {sep inner : α} {fields fields' : List (List α × List α)}

theorem splitFields_joinFields (hne : sep ≠ inner) (h : Separable sep inner fields)
    (hfields : fields ≠ []) : splitFields sep inner (joinFields sep inner fields) = fields := by
  have hsep : ∀ piece ∈ fields.map fun field => field.1 ++ inner :: field.2, sep ∉ piece := by
    intro piece hpiece hmem
    obtain ⟨field, hfield, rfl⟩ := List.mem_map.mp hpiece
    obtain ⟨h₁, -, h₂⟩ := h field hfield
    rcases List.mem_append.mp hmem with hmem | hmem
    · exact h₁ hmem
    · rcases List.mem_cons.mp hmem with hmem | hmem
      · exact hne hmem
      · exact h₂ hmem
  rw [splitFields, joinFields, List.splitOn_intercalate _ hsep (by simpa using hfields),
    List.map_map]
  conv_rhs => rw [← List.map_id fields]
  apply List.map_congr_left
  intro field hfield
  exact splitFirst_append (h field hfield).2.1 _

omit [DecidableEq α] in
/-- Some text stands for every field, so only no fields give none. -/
theorem joinFields_eq_nil : joinFields sep inner fields = [] ↔ fields = [] := by
  constructor
  · intro h
    cases fields with
    | nil => rfl
    | cons field fields =>
      cases fields <;> simp [joinFields, List.intercalate] at h
  · rintro rfl
    rfl

theorem joinFields_inj (hne : sep ≠ inner) (h : Separable sep inner fields)
    (h' : Separable sep inner fields')
    (heq : joinFields sep inner fields = joinFields sep inner fields') : fields = fields' := by
  by_cases hf : fields = []
  · rw [hf] at heq ⊢
    exact (joinFields_eq_nil.mp heq.symm).symm
  · have hf' : fields' ≠ [] := by
      rintro rfl
      exact hf (joinFields_eq_nil.mp heq)
    rw [← splitFields_joinFields hne h hf, heq, splitFields_joinFields hne h' hf']

end fields

/-! ### Fields of a type -/

section typed

variable {β : Type} {sep inner : α} {write : β → List α × List α}
  {read : List α × List α → Option β} {xs ys : List β}

/-- A text of fields is read back, when each field is. -/
theorem read_joinFields (hne : sep ≠ inner) (hread : ∀ x, read (write x) = some x)
    (h : Separable sep inner (xs.map write)) (hxs : xs ≠ []) :
    (splitFields sep inner (joinFields sep inner (xs.map write))).mapM read = some xs := by
  have hmap : read ∘ write = pure := by
    funext x
    exact hread x
  rw [splitFields_joinFields hne h (by simpa using hxs), List.mapM_map, hmap, List.mapM_pure]
  show some (xs.map id) = some xs
  rw [List.map_id]

theorem joinFields_map_inj (hne : sep ≠ inner) (hread : ∀ x, read (write x) = some x)
    (h : Separable sep inner (xs.map write)) (h' : Separable sep inner (ys.map write))
    (heq : joinFields sep inner (xs.map write) = joinFields sep inner (ys.map write)) :
    xs = ys := by
  have hinj : Function.Injective write := by
    intro x y hxy
    have hx := hread x
    rw [hxy, hread y] at hx
    exact (Option.some.inj hx).symm
  exact List.map_injective_iff.mpr hinj (joinFields_inj hne h h' heq)

end typed

end S3rm.Text
