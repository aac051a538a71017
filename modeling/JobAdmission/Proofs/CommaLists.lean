import JobAdmission.Text.CommaList
import Mathlib.Data.List.DropRight
import Mathlib.Data.List.Nodup

/-!
# Comma lists

This module proves what the items of a comma list are: texts that are not empty, have no blanks
at their ends and hold no comma (`Text.IsItem`), each once. A list of such items is the one that
is read back from them joined by commas (`Text.commaList_intercalate`), so reading a comma list,
joining its items and reading again changes nothing (`Text.commaList_commaList`).
-/

namespace JobAdmission

/-! ### Lists without repetitions -/

section

variable {α : Type} [BEq α] [LawfulBEq α] {R : α → α → Prop} {l : List α}

/-- Where repetitions are left out, no two elements are equal, and what held of each element and
those after it still holds. -/
theorem pairwise_eraseDups (h : l.Pairwise R) : l.eraseDups.Pairwise fun a b => R a b ∧ a ≠ b := by
  induction hn : l.length using Nat.strong_induction_on generalizing l with
  | _ n ih =>
    cases l with
    | nil => simp
    | cons a as =>
      obtain ⟨first, later⟩ := List.pairwise_cons.mp h
      rw [List.eraseDups_cons, List.pairwise_cons]
      refine ⟨fun b hb => ?_, ?_⟩
      · rw [List.mem_eraseDups, List.mem_filter] at hb
        refine ⟨first b hb.1, ?_⟩
        rintro rfl
        simp at hb
      · have shorter : (as.filter fun b => !b == a).length < n := by
          have := as.length_filter_le fun b => !b == a
          rw [← hn, List.length_cons]
          omega
        exact ih _ shorter (later.filter _) rfl

theorem nodup_eraseDups (l : List α) : l.eraseDups.Nodup := by
  have any : l.Pairwise fun _ _ => True := List.pairwise_of_forall fun _ _ => trivial
  exact (pairwise_eraseDups any).imp And.right

theorem eraseDups_of_nodup (h : l.Nodup) : l.eraseDups = l := by
  induction l with
  | nil => rfl
  | cons a as ih =>
    obtain ⟨new, later⟩ := List.nodup_cons.mp h
    have others : as.filter (fun b => !b == a) = as := by
      refine List.filter_eq_self.mpr fun b hb => ?_
      simp only [Bool.not_eq_eq_eq_not, Bool.not_true, beq_eq_false_iff_ne]
      rintro rfl
      exact new hb
    rw [List.eraseDups_cons, others, ih later]

end

namespace Text

/-! ### Trimming -/

theorem mem_of_mem_trim {c : Char} {cs : List Char} (h : c ∈ trim cs) : c ∈ cs := by
  rw [trim, List.mem_reverse] at h
  have := (List.dropWhile_sublist isBlank).mem h
  rw [List.mem_reverse] at this
  exact (List.dropWhile_sublist isBlank).mem this

/-- Cutting off the end leaves a list that starts with no blank as such. -/
theorem dropWhile_rdropWhile {cs : List Char} (h : cs.dropWhile isBlank = cs) :
    (cs.rdropWhile isBlank).dropWhile isBlank = cs.rdropWhile isBlank := by
  rw [List.dropWhile_eq_self_iff] at h ⊢
  intro hpos
  have front := List.rdropWhile_prefix isBlank cs
  rw [front.getElem hpos]
  exact h (hpos.trans_le front.length_le)

/-- What is trimmed has no blanks at its ends. -/
theorem trim_trim (cs : List Char) : trim (trim cs) = trim cs := by
  have front := dropWhile_rdropWhile (List.dropWhile_idempotent isBlank cs)
  show ((trim cs).dropWhile isBlank).rdropWhile isBlank = trim cs
  calc
    _ = (trim cs).rdropWhile isBlank := congrArg (List.rdropWhile isBlank) front
    _ = trim cs := List.rdropWhile_idempotent isBlank _

/-! ### Pieces -/

/-- A comma stands between two pieces. -/
theorem pieces_append (as bs : List Char) :
    pieces (as ++ ',' :: bs) = pieces as ++ pieces bs := by
  induction as with
  | nil => simp [pieces]
  | cons a as ih =>
    rw [List.cons_append, pieces, pieces, ih]
    split
    · rfl
    · cases hp : pieces as with
      | nil => exact absurd hp (pieces_ne_nil as)
      | cons p ps => rfl

theorem pieces_of_notMem {cs : List Char} (h : ',' ∉ cs) : pieces cs = [cs] := by
  induction cs with
  | nil => rfl
  | cons c cs ih =>
    rw [List.mem_cons, not_or] at h
    rw [pieces, if_neg (Ne.symm h.1), ih h.2]

theorem notMem_of_mem_pieces {p cs : List Char} (h : p ∈ pieces cs) : ',' ∉ p := by
  induction cs generalizing p with
  | nil =>
    obtain rfl := List.mem_singleton.mp h
    exact List.not_mem_nil
  | cons c cs ih =>
    rw [pieces] at h
    split at h
    · rcases List.mem_cons.mp h with rfl | h
      · exact List.not_mem_nil
      · exact ih h
    · rename_i hc
      cases hp : pieces cs with
      | nil => exact absurd hp (pieces_ne_nil cs)
      | cons q qs =>
        rw [hp] at h ih
        rcases List.mem_cons.mp h with rfl | h
        · rw [List.mem_cons, not_or]
          exact ⟨Ne.symm hc, ih List.mem_cons_self⟩
        · exact ih (List.mem_cons_of_mem q h)

/-- Pieces that were joined by commas are found again. -/
theorem pieces_intercalate {p : List Char} {ps : List (List Char)}
    (h : ∀ q ∈ p :: ps, ',' ∉ q) : pieces ([','].intercalate (p :: ps)) = p :: ps := by
  induction ps generalizing p with
  | nil => simpa using pieces_of_notMem (h p List.mem_cons_self)
  | cons q qs ih =>
    have rest := ih fun q' hq' => h q' (List.mem_cons_of_mem p hq')
    rw [List.intercalate_cons_cons, List.append_assoc, List.singleton_append, pieces_append, rest,
      pieces_of_notMem (h p List.mem_cons_self), List.singleton_append]

/-! ### Items -/

/-- A text that a comma list can hold as an item. -/
structure IsItem (s : String) : Prop where
  /-- It is not empty. -/
  nonempty : s ≠ ""
  /-- It has no blanks at its ends. -/
  trimmed : trim s.toList = s.toList
  /-- It holds no comma. -/
  noComma : ',' ∉ s.toList

theorem isItem_of_mem {s raw : String} (h : s ∈ commaList raw) : IsItem s := by
  rw [commaList, List.mem_eraseDups, List.mem_map] at h
  obtain ⟨cs, hcs, rfl⟩ := h
  rw [items, List.mem_filter, List.mem_map] at hcs
  obtain ⟨⟨p, hp, rfl⟩, nonempty⟩ := hcs
  refine ⟨?_, ?_, ?_⟩
  · simpa using nonempty
  · rw [String.toList_ofList, trim_trim]
  · rw [String.toList_ofList]
    exact fun h => notMem_of_mem_pieces hp (mem_of_mem_trim h)

theorem nodup_commaList (raw : String) : (commaList raw).Nodup := nodup_eraseDups _

/-- Distinct items that were joined by commas are read back. -/
theorem commaList_intercalate {ss : List String} (isItem : ∀ s ∈ ss, IsItem s)
    (distinct : ss.Nodup) : commaList (",".intercalate ss) = ss := by
  have read : items (",".intercalate ss).toList = ss.map String.toList := by
    cases ss with
    | nil => rfl
    | cons s ss =>
      have noComma : ∀ p ∈ s.toList :: ss.map String.toList, ',' ∉ p := by
        rw [← List.map_cons, List.forall_mem_map]
        exact fun s' hs' => (isItem s' hs').noComma
      have comma : ",".toList = [','] := rfl
      rw [items, String.toList_intercalate, comma, List.map_cons, pieces_intercalate noComma,
        ← List.map_cons, List.map_map, List.filter_eq_self.mpr]
      · exact List.map_congr_left fun s' hs' => (isItem s' hs').trimmed
      · rw [List.forall_mem_map]
        intro s' hs'
        simpa [(isItem s' hs').trimmed] using (isItem s' hs').nonempty
  rw [commaList, read, List.map_map]
  simpa using eraseDups_of_nodup distinct

/-- Joined by commas, the items of a comma list are read as they were. -/
theorem commaList_commaList (raw : String) :
    commaList (",".intercalate (commaList raw)) = commaList raw :=
  commaList_intercalate (fun _ hs => isItem_of_mem hs) (nodup_commaList raw)

end Text

end JobAdmission
