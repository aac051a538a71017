import JobAdmission.Text.Blank

/-!
# Comma lists

This module reads the lists of the accounting feed, such as `batch, debug,batch`:
the pieces between the commas, trimmed, without the empty ones, each once and in
the order of its first occurrence.
-/

namespace JobAdmission.Text

/-- The pieces between the commas, of which there is one more than commas. -/
def pieces : List Char → List (List Char)
  | [] => [[]]
  | c :: cs =>
    if c = ',' then [] :: pieces cs
    else match pieces cs with
      | p :: ps => (c :: p) :: ps
      | [] => [[c]]

/-- There is at least one piece. -/
theorem pieces_ne_nil (cs : List Char) : pieces cs ≠ [] := by
  cases cs with
  | nil => simp [pieces]
  | cons c cs =>
    rw [pieces]
    split
    · simp
    · split <;> simp

/-- The trimmed pieces that are not empty, in order. -/
def items (cs : List Char) : List (List Char) := ((pieces cs).map trim).filter (· ≠ [])

/-- The distinct items of a comma list, ordered by first occurrence. -/
def commaList (raw : String) : List String := ((items raw.toList).map String.ofList).eraseDups

end JobAdmission.Text
