/-!
# Cutting text at a character

The parts of a text are what stands between the places of a separator.  There
is one part more than there are separators, so an empty text has one empty part.
-/

namespace JvmMethod

/-- The parts of a text, after a part that has begun (backwards) and the parts
in front of it (backwards). -/
def partsFrom (separator : Char) (begun : List Char)
    (parts : List (List Char)) : List Char → List (List Char)
  | [] => (begun.reverse :: parts).reverse
  | c :: rest =>
      if c = separator then
        partsFrom separator [] (begun.reverse :: parts) rest
      else partsFrom separator (c :: begun) parts rest

/-- The parts of a text between the separators. -/
def partsAt (separator : Char) (text : List Char) : List (List Char) :=
  partsFrom separator [] [] text

theorem partsFrom_eq (separator : Char) (text begun : List Char)
    (parts : List (List Char)) :
    partsFrom separator begun parts text =
      parts.reverse ++ partsFrom separator begun [] text := by
  induction text generalizing begun parts with
  | nil => simp [partsFrom]
  | cons c rest ih =>
    simp only [partsFrom]
    split
    · rw [ih [] (begun.reverse :: parts), ih [] [begun.reverse]]
      simp
    · exact ih (c :: begun) parts

/-- A part ends at a separator. -/
theorem partsFrom_append (separator : Char) (part begun rest : List Char)
    (h : separator ∉ part) :
    partsFrom separator begun [] (part ++ separator :: rest) =
      (begun.reverse ++ part) :: partsAt separator rest := by
  induction part generalizing begun with
  | nil =>
    simp only [List.nil_append, partsFrom, if_true, List.append_nil]
    exact partsFrom_eq separator rest [] [begun.reverse]
  | cons c part ih =>
    rw [List.mem_cons, not_or] at h
    simp only [List.cons_append, partsFrom, if_neg (Ne.symm h.1)]
    rw [ih (c :: begun) h.2]
    simp

/-- Everything about the parts of a text follows from this equation and the
next: the first part ends at the first separator … -/
theorem partsAt_append (separator : Char) (part rest : List Char)
    (h : separator ∉ part) :
    partsAt separator (part ++ separator :: rest) =
      part :: partsAt separator rest :=
  partsFrom_append separator part [] rest h

/-- … and a text without separators is its own and only part. -/
theorem partsAt_of_not_mem (separator : Char) (part : List Char)
    (h : separator ∉ part) : partsAt separator part = [part] := by
  have go (begun : List Char) :
      partsFrom separator begun [] part = [begun.reverse ++ part] := by
    induction part generalizing begun with
    | nil => simp [partsFrom]
    | cons c part ih =>
      rw [List.mem_cons, not_or] at h
      simp only [partsFrom, if_neg (Ne.symm h.1)]
      rw [ih h.2 (c :: begun)]
      simp
  exact go []

end JvmMethod
