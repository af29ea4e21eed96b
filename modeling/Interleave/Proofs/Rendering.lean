import Mathlib
import Interleave.CallSequence
import Interleave.Proofs.Registers

set_option autoImplicit false

/-! Rendered sequences and the separators in them. No separator comes about where a rendered item
meets the one put after it, so the separators of a rendered sequence are those put in and those
that the items bring along. -/

namespace Interleave.CallSequence

/-! ### Separators in a text -/

/-- At how many places of a text a mark can be read. -/
def occurrences (mark : List Char) : List Char → Nat
  | [] => 0
  | char :: rest => (if mark <+: char :: rest then 1 else 0) + occurrences mark rest

/-- What lies between the separators, each found leftmost after the one before. -/
def parts : List Char → List (List Char)
  | [] => [[]]
  | ';' :: ' ' :: rest => [] :: parts rest
  | char :: rest => (parts rest).modifyHead (char :: ·)

theorem isPrefix_separator_iff {char : Char} {rest : List Char} :
    separator.toList <+: char :: rest ↔ ∃ later, char = ';' ∧ rest = ' ' :: later := by
  constructor
  · rintro ⟨later, same⟩
    cases same
    exact ⟨later, rfl, rfl⟩
  · rintro ⟨later, rfl, rfl⟩
    exact ⟨later, rfl⟩

private theorem parts_separator (rest : List Char) :
    parts (separator.toList ++ rest) = [] :: parts rest := by
  change parts (';' :: ' ' :: rest) = _
  rw [parts]

private theorem parts_cons {char : Char} {rest : List Char}
    (inside : ¬separator.toList <+: char :: rest) :
    parts (char :: rest) = (parts rest).modifyHead (char :: ·) := by
  rw [parts]
  intro later isFirst isSecond
  exact inside (isPrefix_separator_iff.mpr ⟨later, isFirst, isSecond⟩)

private theorem parts_ne_nil (text : List Char) : parts text ≠ [] := by
  fun_induction parts text with
  | case1 => exact List.cons_ne_nil _ _
  | case2 => exact List.cons_ne_nil _ _
  | case3 char rest _ ih =>
      intro empty
      exact ih (List.modifyHead_eq_nil_iff.mp empty)

theorem parts_append (left right : List Char) :
    parts (left ++ separator.toList ++ right) = parts left ++ parts right := by
  fun_induction parts left with
  | case1 => exact parts_separator right
  | case2 rest ih =>
      have step := parts_separator (rest ++ separator.toList ++ right)
      rw [ih] at step
      exact step
  | case3 char rest other ih =>
      -- A semicolon at the end of the left text is followed by the one of the separator.
      have inside : ¬separator.toList <+: char :: (rest ++ separator.toList ++ right) := by
        rw [isPrefix_separator_iff]
        rintro ⟨later, isFirst, isSecond⟩
        cases rest with
        | nil => cases isSecond
        | cons second rest =>
            cases isSecond
            exact other rest isFirst rfl
      obtain ⟨first, others, split⟩ := List.exists_cons_of_ne_nil (parts_ne_nil rest)
      rw [List.cons_append, List.cons_append, parts_cons inside, ih, split]
      rfl

private theorem length_parts (text : List Char) :
    (parts text).length = occurrences separator.toList text + 1 := by
  fun_induction parts text with
  | case1 => rfl
  | case2 rest ih =>
      have here : separator.toList <+: ';' :: ' ' :: rest := ⟨rest, rfl⟩
      have next : ¬separator.toList <+: ' ' :: rest := by
        rw [isPrefix_separator_iff]
        rintro ⟨_, impossible, _⟩
        exact absurd impossible (by decide)
      rw [List.length_cons, ih, occurrences, occurrences, if_pos here, if_neg next]
      omega
  | case3 char rest other ih =>
      have inside : ¬separator.toList <+: char :: rest := by
        rw [isPrefix_separator_iff]
        rintro ⟨later, isFirst, isSecond⟩
        exact other later isFirst isSecond
      rw [List.length_modifyHead, ih, occurrences, if_neg inside, Nat.zero_add]

private theorem parts_of_not_separator {text : List Char} (whole : ¬separator.toList <:+: text) :
    parts text = [text] := by
  induction text with
  | nil => rfl
  | cons char rest ih =>
      rw [List.infix_cons_iff, not_or] at whole
      rw [parts_cons whole.1, ih whole.2]
      rfl

/-! ### The splitting of strings -/

section

open String.Slice Pattern Pattern.Model

private theorem separator_nonempty : separator ≠ "" := by decide

local instance : StrictPatternModel separator :=
  ForwardStringSearcher.strictPatternModel separator_nonempty

local instance : LawfulToForwardSearcherModel separator :=
  ForwardStringSearcher.lawfulToForwardSearcherModel separator_nonempty

private theorem eq_append_of_toList {text : String} {left right : List Char}
    (same : text.toList = left ++ right) : text = String.ofList left ++ String.ofList right := by
  rw [← String.ofList_append, ← same, String.ofList_toList]

private theorem copy_passed {whole : String.Slice} {start here : whole.Pos} (order : start ≤ here)
    {before passed after : String} (atStart : start.Splits before (passed ++ after))
    (atHere : here.Splits (before ++ passed) after) :
    (whole.slice start here order).copy = passed := by
  obtain ⟨_, seen⟩ := copy_slice_eq_iff_splits.mpr ⟨before, after, atStart, atHere⟩
  exact seen

/-- From a place on, with some text passed since the last separator. -/
theorem split_parts {whole : String.Slice} (chars : List Char) {start here : whole.Pos}
    (order : start ≤ here) {before passed after : String} (remain : after.toList = chars)
    (atStart : start.Splits before (passed ++ after))
    (atHere : here.Splits (before ++ passed) after) :
    (Pattern.Model.split separator start here order).map (fun piece => piece.toSlice.copy.toList) =
      (parts chars).modifyHead (passed.toList ++ ·) := by
  fun_induction parts chars generalizing start here before passed after with
  | case1 =>
      have seen := copy_passed order atStart atHere
      have ended : after = "" := String.toList_eq_nil_iff.mp remain
      rw [ended] at atHere
      obtain ⟨atEnd, _⟩ := Pos.splits_empty_right_iff.mp atHere
      subst atEnd
      rw [split_endPos, List.map_singleton, toSlice_subslice, seen, List.modifyHead_cons,
        List.append_nil]
  | case2 rest ih =>
      have seen := copy_passed order atStart atHere
      have both : separator = String.singleton ';' ++ String.singleton ' ' := by decide
      have divided : after = separator ++ String.ofList rest := eq_append_of_toList remain
      rw [divided] at atHere
      obtain ⟨stop, atStop⟩ : ∃ stop : whole.Pos,
          stop.Splits (before ++ passed ++ separator) (String.ofList rest) := by
        have first := atHere.of_eq rfl (show separator ++ String.ofList rest =
          String.singleton ';' ++ (String.singleton ' ' ++ String.ofList rest) by
            rw [both, String.append_assoc])
        have last := first.next.next
        exact ⟨_, last.of_eq (by rw [both, String.append_assoc]) rfl⟩
      have matched : IsLongestMatchAt separator here stop :=
        ForwardStringSearcher.isLongestMatchAt_iff_splits.mpr ⟨_, _, atHere, atStop⟩
      have later := ih (Std.le_refl stop) String.toList_ofList
        (atStop.of_eq rfl String.empty_append.symm) (atStop.of_eq String.append_empty.symm rfl)
      rw [split_eq_of_isLongestMatchAt matched, List.map_cons, toSlice_subslice, seen, later]
      cases parts rest <;> simp
  | case3 char rest other ih =>
      have next : after = String.singleton char ++ String.ofList rest :=
        @eq_append_of_toList after [char] rest remain
      have unmatched : ¬MatchesAt separator here := by
        rw [ForwardStringSearcher.matchesAt_iff_splits]
        rintro ⟨_, later, atMatch⟩
        have same := congrArg String.toList (atHere.eq_right atMatch)
        rw [remain, String.toList_append] at same
        cases same
        exact other _ rfl rfl
      rw [next] at atHere
      have inside : here ≠ whole.endPos := atHere.ne_endPos_of_singleton
      have advanced := ih (Std.le_trans order (by simp)) String.toList_ofList
        (atStart.of_eq rfl (by rw [next, String.append_assoc]))
        (atHere.next.of_eq (String.append_assoc ..) rfl)
      rw [split_eq_next_of_not_matchesAt inside unmatched, advanced, String.toList_append]
      cases parts rest <;> simp

/-- Splitting a string at the separators gives the parts of its characters. -/
theorem split_separator (text : String) :
    (text.split separator).toList.map String.Slice.copy =
      (parts text.toList).map String.ofList := by
  have begins : text.toSlice.startPos.Splits "" text := by
    have whole := String.Slice.splits_startPos text.toSlice
    rwa [String.copy_toSlice] at whole
  have chars := split_parts text.toList (Std.le_refl _) rfl
    (begins.of_eq rfl String.empty_append.symm) (begins.of_eq String.empty_append.symm rfl)
  have none : (parts text.toList).modifyHead ("".toList ++ ·) = parts text.toList := by
    cases parts text.toList <;> simp
  rw [none] at chars
  rw [String.split_eq_split_toSlice, toList_split_eq_splitToSubslice,
    toList_splitToSubslice_eq_modelSplit, ← chars, List.map_map, List.map_map]
  apply List.map_congr_left
  intro piece _
  exact String.ofList_toList.symm

end

/-! ### Rendered sequences -/

private theorem parts_intercalate {texts : List String} (some : texts ≠ []) :
    parts (separator.intercalate texts).toList = texts.flatMap (fun text => parts text.toList) := by
  induction texts with
  | nil => exact absurd rfl some
  | cons text texts ih =>
      cases texts with
      | nil => rw [String.intercalate_singleton, List.flatMap_singleton]
      | cons next others =>
          rw [List.flatMap_cons, ← ih (List.cons_ne_nil _ _), String.intercalate_cons_cons,
            String.toList_append, String.toList_append, parts_append]

variable {α : Type}

private theorem parts_render {sequence : CallSequence α} (filled : sequence.isEmpty = false)
    (text : α → String) :
    parts (sequence.render text).toList =
      sequence.toList.flatMap (fun item => parts (text item).toList) := by
  have some : sequence.toList.map text ≠ [] := by
    rw [isEmpty_eq, List.isEmpty_eq_false_iff] at filled
    exact fun none => filled (List.map_eq_nil_iff.mp none)
  unfold render
  rw [parts_intercalate some, List.flatMap_map]

/-- A rendered sequence holds one separator less than it has items, beside those inside the
items. Where no item holds any, splitting gives the items back, even if one ends or begins with
a character of the separator. -/
theorem render_splits {sequence : CallSequence α} (filled : sequence.isEmpty = false)
    (text : α → String) :
    occurrences separator.toList (sequence.render text).toList =
      (sequence.size - 1) + (sequence.toList.map (fun item =>
        occurrences separator.toList (text item).toList)).sum ∧
    ((∀ item ∈ sequence.toList, ¬separator.toList <:+: (text item).toList) →
      ((sequence.render text).split separator).toList.map String.Slice.copy =
        sequence.toList.map text) := by
  have divided := parts_render filled text
  constructor
  · have length := congrArg List.length divided
    rw [length_parts, List.length_flatMap] at length
    simp only [length_parts] at length
    rw [List.sum_map_add, List.map_const', List.sum_replicate, smul_eq_mul, mul_one,
      length_toList] at length
    have some : sequence.size ≠ 0 := by
      intro none
      unfold isEmpty at filled
      rw [none] at filled
      cases filled
    omega
  · intro whole
    rw [split_separator, divided, List.map_flatMap]
    have single : ∀ item ∈ sequence.toList,
        (parts (text item).toList).map String.ofList = [text item] := by
      intro item member
      rw [parts_of_not_separator (whole item member), List.map_singleton, String.ofList_toList]
    rw [List.flatMap_congr single, ← List.map_eq_flatMap]

/-! Items that end or begin with a character of the separator, and one of no characters. -/

theorem render_splits_edges :
    let sequence := ofList ["put;", " get", ""]
    sequence.isEmpty = false ∧
    (∀ item ∈ sequence.toList, ¬separator.toList <:+: item.toList) ∧
    sequence.render id = "put;;  get; " ∧
    occurrences separator.toList (sequence.render id).toList = 2 ∧
    ((sequence.render id).split separator).toList.map String.Slice.copy =
      ["put;", " get", ""] := by
  intro sequence
  have filled : sequence.isEmpty = false := rfl
  have whole : ∀ item ∈ sequence.toList, ¬separator.toList <:+: item.toList := by decide +kernel
  obtain ⟨count, divided⟩ := render_splits filled id
  exact ⟨filled, whole, rfl, count, divided whole⟩

end Interleave.CallSequence
