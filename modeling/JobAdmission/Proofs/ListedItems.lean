import JobAdmission.Proofs.CommaLists
import Mathlib.Data.List.Perm.Basic

/-!
# What a comma list lists

This module says what a comma list lists without following the reader of such lists
(`Text.Lists`). The text is cut at its commas (`Text.CutAtCommas`), each piece is trimmed
(`Text.TrimsTo`), and what is left and not empty is listed once, where it occurs first. There is
exactly one such list, and it is the one that is read (`Text.commaList_eq_iff`). Where two texts
are put together with a comma, the second one adds those of its items that the first one does not
list (`Text.commaList_append`).

Leaving out repetitions is looked at from the end of a list: an element that comes last stays if
it is none of those before it (`eraseDups_concat`).
-/

namespace JobAdmission

/-! ### Lists without repetitions -/

section

variable {α β : Type} [BEq α] [LawfulBEq α]

/-- An element that comes last stays if it is none of those before it. -/
theorem eraseDups_concat (l : List α) (a : α) :
    (l ++ [a]).eraseDups = if a ∈ l then l.eraseDups else l.eraseDups ++ [a] := by
  rw [List.eraseDups_append, List.removeAll]
  split <;> simp_all [List.eraseDups_cons]

/-- Of two elements, the one that stays first has an occurrence before all those of the other. -/
theorem pairwise_eraseDups_first (l : List α) :
    l.eraseDups.Pairwise fun a b => ∃ front back, l = front ++ a :: back ∧ b ∉ front := by
  induction l using List.reverseRecOn with
  | nil => simp
  | append_singleton l c ih =>
    have longer : l.eraseDups.Pairwise fun a b =>
        ∃ front back, l ++ [c] = front ++ a :: back ∧ b ∉ front := by
      refine ih.imp ?_
      rintro a b ⟨front, back, rfl, hb⟩
      exact ⟨front, back ++ [c], by simp, hb⟩
    rw [eraseDups_concat]
    split
    · exact longer
    · rename_i hc
      rw [List.pairwise_append]
      refine ⟨longer, List.pairwise_singleton _ c, fun a ha b hb => ?_⟩
      obtain rfl := List.mem_singleton.mp hb
      obtain ⟨front, back, rfl⟩ := List.append_of_mem (List.mem_eraseDups.mp ha)
      exact ⟨front, back ++ [b], by simp, fun h => hc (List.mem_append_left _ h)⟩

/-- The same of elements that are found in others. -/
theorem pairwise_eraseDups_filterMap (f : β → Option α) (l : List β) :
    (l.filterMap f).eraseDups.Pairwise fun a b =>
      ∃ front x back, l = front ++ x :: back ∧ f x = some a ∧ ∀ y ∈ front, f y ≠ some b := by
  refine (pairwise_eraseDups_first (l.filterMap f)).imp ?_
  rintro a b ⟨front, back, found, hb⟩
  obtain ⟨l₁, l₂, rfl, rfl, rest⟩ := List.filterMap_eq_append_iff.mp found
  obtain ⟨l₃, x, l₄, rfl, between, hx, -⟩ := List.filterMap_eq_cons_iff.mp rest
  refine ⟨l₁ ++ l₃, x, l₄, by simp, hx, fun y hy hyb => ?_⟩
  rcases List.mem_append.mp hy with hy | hy
  · exact hb (List.mem_filterMap.mpr ⟨y, hy, hyb⟩)
  · simp [between y hy] at hyb

theorem eraseDups_filter (l : List α) (p : α → Bool) :
    (l.filter p).eraseDups = l.eraseDups.filter p := by
  induction l using List.reverseRecOn with
  | nil => rfl
  | append_singleton l a ih =>
    rw [List.filter_append, eraseDups_concat, apply_ite (List.filter p), List.filter_append, ← ih]
    by_cases hp : p a = true
    · rw [List.filter_cons_of_pos hp, List.filter_nil, eraseDups_concat]
      simp [hp]
    · rw [List.filter_cons_of_neg hp, List.filter_nil]
      simp

end

/-- Where a list is divided at two elements, they are the same, or one comes before the other. -/
theorem eq_or_mem_of_append_cons {α : Type} {a b : α} {front front' back back' : List α}
    (h : front ++ a :: back = front' ++ b :: back') : a = b ∨ a ∈ front' ∨ b ∈ front := by
  rcases List.append_eq_append_iff.mp h with ⟨between, rfl, rest⟩ | ⟨between, rfl, rest⟩
  · rcases List.cons_eq_append_iff.mp rest with ⟨rfl, same⟩ | ⟨between, rfl, -⟩
    · exact .inl (List.cons.inj same).1.symm
    · exact .inr (.inl (by simp))
  · rcases List.cons_eq_append_iff.mp rest with ⟨rfl, same⟩ | ⟨between, rfl, -⟩
    · exact .inl (List.cons.inj same).1
    · exact .inr (.inr (by simp))

namespace Text

/-! ### Cutting and trimming -/

/-- The text is cut into pieces at its commas. -/
structure CutAtCommas (cs : List Char) (ps : List (List Char)) : Prop where
  /-- There is a piece. -/
  nonempty : ps ≠ []
  /-- Joined by commas, the pieces are the text. -/
  joined : [','].intercalate ps = cs
  /-- No piece holds a comma. -/
  noComma : ∀ p ∈ ps, ',' ∉ p

/-- No blank stands at an end of the text. -/
structure Tight (cs : List Char) : Prop where
  /-- Its first character is not blank. -/
  front : ∀ c ∈ cs.head?, isBlank c = false
  /-- Its last character is not blank. -/
  back : ∀ c ∈ cs.getLast?, isBlank c = false

/-- The second text is left of the first one when the blanks at both ends are cut off. -/
structure TrimsTo (cs t : List Char) : Prop where
  /-- Blanks are cut off. -/
  cut : ∃ front back, cs = front ++ t ++ back ∧ (∀ c ∈ front, isBlank c = true) ∧
    ∀ c ∈ back, isBlank c = true
  /-- No more can be. -/
  tight : Tight t

variable {cs t : List Char} {ps : List (List Char)}

theorem intercalate_pieces (cs : List Char) : [','].intercalate (pieces cs) = cs := by
  induction cs with
  | nil => rfl
  | cons c cs ih =>
    rw [pieces]
    cases hp : pieces cs with
    | nil => exact absurd hp (pieces_ne_nil cs)
    | cons p ps =>
      rw [hp] at ih
      split
      · rename_i hc
        rw [List.intercalate_cons_cons, ih, hc]
        rfl
      · -- the character stands at the front of the first piece
        cases ps with
        | nil => simpa using ih
        | cons q qs =>
          rw [List.intercalate_cons_cons] at ih ⊢
          rw [← ih]
          rfl

/-- There is one way to cut a text. -/
theorem cutAtCommas_iff : CutAtCommas cs ps ↔ pieces cs = ps := by
  constructor
  · rintro ⟨nonempty, rfl, noComma⟩
    obtain ⟨p, ps, rfl⟩ := List.exists_cons_of_ne_nil nonempty
    exact pieces_intercalate noComma
  · rintro rfl
    exact ⟨pieces_ne_nil cs, intercalate_pieces cs, fun p hp => notMem_of_mem_pieces hp⟩

theorem dropWhile_of_head {p : Char → Bool} (h : ∀ c ∈ cs.head?, p c = false) :
    cs.dropWhile p = cs := by
  cases cs with
  | nil => rfl
  | cons c cs => exact List.dropWhile_cons_of_neg (by simpa using h c rfl)

theorem tight_trim (cs : List Char) : Tight (trim cs) := by
  have front : (trim cs).dropWhile isBlank = trim cs :=
    dropWhile_rdropWhile (List.dropWhile_idempotent isBlank cs)
  rw [List.dropWhile_eq_self_iff] at front
  constructor
  · intro c hc
    cases ht : trim cs with
    | nil => simp [ht] at hc
    | cons c' t =>
      simp only [ht, List.head?_cons, Option.mem_def, Option.some.injEq] at hc
      simpa [ht, hc] using front
  · intro c hc
    obtain ⟨nonempty, rfl⟩ := List.mem_getLast?_eq_getLast hc
    have last := List.rdropWhile_last_not isBlank (cs.dropWhile isBlank) nonempty
    exact Bool.not_eq_true _ |>.mp last

/-- There is one way to trim a text. -/
theorem trimsTo_iff : TrimsTo cs t ↔ trim cs = t := by
  constructor
  · rintro ⟨⟨front, back, rfl, hfront, hback⟩, tight⟩
    have reversed : (t ++ back).reverse.dropWhile isBlank = t.reverse := by
      rw [List.reverse_append, List.dropWhile_append_of_pos (by simpa using hback)]
      exact dropWhile_of_head (by simpa using tight.back)
    rw [trim, List.append_assoc, List.dropWhile_append_of_pos hfront]
    cases t with
    | nil =>
      have nothing : back.dropWhile isBlank = [] := List.dropWhile_eq_nil_iff.mpr hback
      simp [nothing]
    | cons c t =>
      have kept : (c :: t ++ back).dropWhile isBlank = c :: t ++ back :=
        dropWhile_of_head tight.front
      rw [kept, reversed, List.reverse_reverse]
  · rintro rfl
    refine ⟨⟨cs.takeWhile isBlank, (cs.dropWhile isBlank).rtakeWhile isBlank, ?_, ?_, ?_⟩,
      tight_trim cs⟩
    · calc cs
        _ = cs.takeWhile isBlank ++ cs.dropWhile isBlank := List.takeWhile_append_dropWhile.symm
        _ = cs.takeWhile isBlank ++ (trim cs ++ (cs.dropWhile isBlank).rtakeWhile isBlank) :=
          congrArg _ List.rdropWhile_append_rtakeWhile.symm
        _ = _ := (List.append_assoc ..).symm
    · exact fun c hc => List.mem_takeWhile_imp hc
    · exact fun c hc => List.mem_rtakeWhile_imp hc

/-! ### What is listed -/

/-- A piece that trims to the first text stands before all those that trim to the second one. -/
def FirstBefore (ps : List (List Char)) (s s' : String) : Prop :=
  ∃ front p back, ps = front ++ p :: back ∧ TrimsTo p s.toList ∧ ∀ q ∈ front, ¬ TrimsTo q s'.toList

/-- What these pieces list. -/
structure Lists (ps : List (List Char)) (ss : List String) : Prop where
  /-- What is left of the pieces is listed, unless nothing is left. -/
  mem_iff : ∀ s, s ∈ ss ↔ s ≠ "" ∧ ∃ p ∈ ps, TrimsTo p s.toList
  /-- Nothing is listed twice. -/
  once : ss.Nodup
  /-- What occurs first is listed first. -/
  ordered : ss.Pairwise (FirstBefore ps)

/-- The item that is left of a piece, if one is. -/
def itemOf? (p : List Char) : Option String :=
  if trim p = [] then none else some (String.ofList (trim p))

theorem itemOf?_eq_some {p : List Char} {s : String} :
    itemOf? p = some s ↔ s ≠ "" ∧ TrimsTo p s.toList := by
  rw [itemOf?, trimsTo_iff]
  split
  · rename_i nothing
    simp only [reduceCtorEq, nothing, ne_eq, false_iff, not_and]
    intro hs h
    exact hs (String.toList_eq_nil_iff.mp h.symm)
  · rename_i something
    rw [Option.some.injEq]
    constructor
    · rintro rfl
      simpa using something
    · rintro ⟨-, h⟩
      rw [h, String.ofList_toList]

theorem commaList_eq (raw : String) :
    commaList raw = ((pieces raw.toList).filterMap itemOf?).eraseDups := by
  have item : ∀ ps : List (List Char),
      ((ps.map trim).filter (· ≠ [])).map String.ofList = ps.filterMap itemOf? := by
    intro ps
    induction ps with
    | nil => rfl
    | cons p ps ih => by_cases hp : trim p = [] <;> simp_all [itemOf?]
  rw [commaList, items, item]

theorem lists_commaList (raw : String) : Lists (pieces raw.toList) (commaList raw) := by
  rw [commaList_eq]
  refine ⟨fun s => ?_, nodup_eraseDups _, ?_⟩
  · rw [List.mem_eraseDups, List.mem_filterMap]
    simp only [itemOf?_eq_some]
    constructor
    · rintro ⟨p, hp, hs, trims⟩
      exact ⟨hs, p, hp, trims⟩
    · rintro ⟨hs, p, hp, trims⟩
      exact ⟨p, hp, hs, trims⟩
  · refine (pairwise_eraseDups_filterMap itemOf? (pieces raw.toList)).imp_of_mem ?_
    rintro s s' - hs' ⟨front, p, back, same, hp, before⟩
    obtain ⟨_, _, hq⟩ := List.mem_filterMap.mp (List.mem_eraseDups.mp hs')
    have nonempty := (itemOf?_eq_some.mp hq).1
    exact ⟨front, p, back, same, (itemOf?_eq_some.mp hp).2,
      fun q hq trims => before q hq (itemOf?_eq_some.mpr ⟨nonempty, trims⟩)⟩

/-- Two texts do not both occur first. -/
theorem FirstBefore.antisymm {s s' : String} (h : FirstBefore ps s s')
    (h' : FirstBefore ps s' s) : s = s' := by
  obtain ⟨front, p, back, rfl, hp, before⟩ := h
  obtain ⟨front', p', back', same, hp', before'⟩ := h'
  rcases eq_or_mem_of_append_cons same with rfl | earlier | later
  · exact String.toList_injective ((trimsTo_iff.mp hp).symm.trans (trimsTo_iff.mp hp'))
  · exact absurd hp (before' p earlier)
  · exact absurd hp' (before p' later)

/-- Pieces list one thing only. -/
theorem Lists.unique {ss ss' : List String} (h : Lists ps ss) (h' : Lists ps ss') : ss = ss' := by
  have same : ss.Perm ss' :=
    (List.perm_ext_iff_of_nodup h.once h'.once).mpr fun s => (h.mem_iff s).trans (h'.mem_iff s).symm
  exact same.eq_of_pairwise (fun _ _ _ _ => FirstBefore.antisymm) h.ordered h'.ordered

/-- The list that is read of a text is the one that its pieces list. -/
theorem commaList_eq_iff {raw : String} {ss : List String} :
    commaList raw = ss ↔ ∃ ps, CutAtCommas raw.toList ps ∧ Lists ps ss := by
  simp only [cutAtCommas_iff, exists_eq_left']
  constructor
  · rintro rfl
    exact lists_commaList raw
  · exact (lists_commaList raw).unique

/-! ### Lists that are put together -/

/-- After a comma, a text adds those of its items that are not listed yet. -/
theorem commaList_append (a b : String) :
    commaList (a ++ "," ++ b) = commaList a ++ (commaList b).filter (· ∉ commaList a) := by
  have cut : (a ++ "," ++ b).toList = a.toList ++ ',' :: b.toList := by
    simp [String.toList_append]
  rw [commaList_eq, commaList_eq b, cut, pieces_append, List.filterMap_append,
    List.eraseDups_append, List.removeAll, eraseDups_filter, ← commaList_eq]
  have listed (s : String) : s ∈ (pieces a.toList).filterMap itemOf? ↔ s ∈ commaList a := by
    rw [commaList_eq, List.mem_eraseDups]
  simp [listed]

/-- The list that is read of a text holds what its pieces list, and nothing else. Its items are not
empty, hold no comma and have no blanks at their ends, and joined by commas they are read as they
were. What a second text adds after a comma are its items that the first one does not list. -/
theorem reads_commaList (a : String) :
    (∀ ss, commaList a = ss ↔ ∃ ps, CutAtCommas a.toList ps ∧ Lists ps ss) ∧
      (∀ s ∈ commaList a, s ≠ "" ∧ ',' ∉ s.toList ∧ Tight s.toList) ∧
      commaList (",".intercalate (commaList a)) = commaList a ∧
      ∀ b, commaList (a ++ "," ++ b) = commaList a ++ (commaList b).filter (· ∉ commaList a) := by
  refine ⟨fun ss => commaList_eq_iff, fun s hs => ?_, commaList_commaList a, commaList_append a⟩
  have item := isItem_of_mem hs
  exact ⟨item.nonempty, item.noComma, item.trimmed ▸ tight_trim s.toList⟩

end Text

end JobAdmission
