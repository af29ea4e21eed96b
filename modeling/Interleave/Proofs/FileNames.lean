import Mathlib
import Interleave.Native.Name

set_option autoImplicit false

/-! File names of generated programs. The part that stands for the class is made of the words of
its last segment, so it is free of underscores and of the marks of qualified names. It is missing
where that segment has underscores and nothing else. -/

namespace Interleave

/-- Underscores divide words; points and colons divide the segments of a qualified name. -/
def Name.Divides (char : Char) : Prop := char = '_' ∨ char = '.' ∨ char = ':'

namespace Uppercase

/-- Code points that are no part of a name: the underscore, the point and the colon. -/
def dividingPoints : List Nat := [0x5f, 0x2e, 0x3a]

private theorem mem_dividingPoints_of_divides {point : Nat}
    (divides : Name.Divides (Char.ofNat point)) :
    point ∈ dividingPoints := by
  have code := Char.toNat_ofNat point
  rcases divides with same | same | same <;>
  · rw [same] at code
    split at code
    · rw [← code]
      decide
    · exact absurd code (by decide)

private theorem expansions_free : ∀ entry ∈ expansions, entry.2 ≠ [] ∧
    ∀ point ∈ entry.2, point ∉ dividingPoints := by
  decide +kernel

/-- Every run is mapped to capital letters of ASCII or beyond all three code points. -/
theorem runs_beyond : ∀ run ∈ runs,
    (0x3a < (run.first : Int) + run.distance ∧ (run.last : Int) + run.distance < 0x5f) ∨
      0x5f < (run.first : Int) + run.distance := by
  decide +kernel

private theorem notMem_dividingPoints_of_covers {run : Run} {point : Nat} (member : run ∈ runs)
    (covered : run.covers point = true) :
    ((point : Int) + run.distance).toNat ∉ dividingPoints := by
  unfold Run.covers at covered
  simp only [Bool.and_eq_true, decide_eq_true_eq] at covered
  have beyond := runs_beyond run member
  simp only [dividingPoints, List.mem_cons, List.not_mem_nil, or_false, not_or]
  omega

private theorem ofChar_ne_nil (char : Char) : ofChar char ≠ [] := by
  unfold ofChar
  dsimp only
  split
  · rename_i entry found
    intro none
    exact (expansions_free entry (List.mem_of_find?_eq_some found)).1 (List.map_eq_nil_iff.mp none)
  · split <;> exact List.cons_ne_nil _ _

private theorem not_divides_of_mem_ofChar {char upper : Char} (whole : ¬Name.Divides char)
    (member : upper ∈ ofChar char) : ¬Name.Divides upper := by
  unfold ofChar at member
  dsimp only at member
  intro divides
  split at member
  · rename_i entry found
    obtain ⟨point, inEntry, rfl⟩ := List.mem_map.mp member
    exact (expansions_free entry (List.mem_of_find?_eq_some found)).2 point inEntry
      (mem_dividingPoints_of_divides divides)
  · split at member
    · rename_i run found
      rw [List.mem_singleton] at member
      rw [member] at divides
      have covered := List.find?_some found
      exact notMem_dividingPoints_of_covers (List.mem_of_find?_eq_some found) covered
        (mem_dividingPoints_of_divides divides)
    · rw [List.mem_singleton] at member
      rw [member] at divides
      exact whole divides

end Uppercase

namespace Name

/-! ### Words -/

def capitalized : List Char → List Char
  | [] => []
  | first :: rest => Uppercase.ofChar first ++ rest

/-- The words between the underscores follow each other, each with a capital; the first one goes
on with what stands before, unless a word starts here. -/
theorem pascalChars_eq (partStarts : Bool) {name first : List Char} {others : List (List Char)}
    (split : name.splitOn '_' = first :: others) :
    pascalChars partStarts name =
      (if partStarts then capitalized first else first) ++ others.flatMap capitalized := by
  induction name generalizing partStarts first others with
  | nil =>
      cases split
      cases partStarts <;> rfl
  | cons char rest ih =>
      obtain ⟨next, later, restSplit⟩ := List.exists_cons_of_ne_nil (List.splitOn_ne_nil '_' rest)
      unfold List.splitOn at split restSplit
      rw [List.splitOnP_cons_eq_if_modifyHead, restSplit] at split
      unfold pascalChars
      by_cases isMark : char = '_'
      · rw [if_pos (by simpa using isMark)] at split
        cases split
        rw [if_pos isMark, ih true restSplit, if_pos rfl, List.flatMap_cons]
        cases partStarts <;> rfl
      · rw [if_neg (by simpa using isMark)] at split
        cases split
        rw [if_neg isMark, ih false restSplit, if_neg Bool.false_ne_true]
        cases partStarts <;> simp [capitalized]

private theorem toList_pascal (name : String) :
    (pascal name).toList = (name.toList.splitOn '_').flatMap capitalized := by
  obtain ⟨first, others, split⟩ :=
    List.exists_cons_of_ne_nil (List.splitOn_ne_nil '_' name.toList)
  rw [pascal, String.toList_ofList, pascalChars_eq true split, split, List.flatMap_cons, if_pos rfl]

theorem pascalChars_eq_nil_iff (partStarts : Bool) (name : List Char) :
    pascalChars partStarts name = [] ↔ ∀ char ∈ name, char = '_' := by
  fun_induction pascalChars partStarts name with
  | case1 => simp
  | case2 _ rest ih => simp [ih]
  | case3 partStarts char rest notMark ih =>
      cases partStarts <;> simp [notMark, Uppercase.ofChar_ne_nil]

private theorem not_divides_of_mem_pascalChars {partStarts : Bool} {name : List Char} {upper : Char}
    (unqualified : ∀ char ∈ name, qualifies char = false)
    (member : upper ∈ pascalChars partStarts name) : ¬Divides upper := by
  fun_induction pascalChars partStarts name with
  | case1 => cases member
  | case2 _ rest ih =>
      exact ih (fun other inRest => unqualified other (List.mem_cons_of_mem _ inRest)) member
  | case3 partStarts char rest notMark ih =>
      have whole : ¬Divides char := by
        have here := unqualified char List.mem_cons_self
        simp only [qualifies, Bool.or_eq_false_iff, beq_eq_false_iff_ne] at here
        rintro (isMark | isPoint | isColon)
        · exact notMark isMark
        · exact here.1 isPoint
        · exact here.2 isColon
      rcases List.mem_append.mp member with head | later
      · cases partStarts with
        | true => exact Uppercase.not_divides_of_mem_ofChar whole head
        | false =>
            rw [if_neg Bool.false_ne_true, List.mem_singleton] at head
            rw [head]
            exact whole
      · exact ih (fun other inRest => unqualified other (List.mem_cons_of_mem char inRest)) later

/-! ### Segments -/

/-- What follows the last point or colon of a qualified name. -/
structure LastSegment (name : String) (front segment : List Char) : Prop where
  split : name.toList = front ++ segment
  unqualified : ∀ char ∈ segment, qualifies char = false
  ends : ∀ char ∈ front.getLast?, qualifies char = true

private theorem LastSegment.short_eq {name : String} {front segment : List Char}
    (last : LastSegment name front segment) : short name = String.ofList segment := by
  have whole : segment.reverse.takeWhile (fun char => !qualifies char) = segment.reverse := by
    rw [List.takeWhile_eq_self_iff]
    intro char member
    rw [last.unqualified char (List.mem_reverse.mp member)]
    rfl
  have stops : front.reverse.takeWhile (fun char => !qualifies char) = [] := by
    cases reversed : front.reverse with
    | nil => rfl
    | cons char rest =>
        have isLast : char ∈ front.getLast? := by
          rw [List.getLast?_eq_head?_reverse, reversed]
          rfl
        rw [List.takeWhile_cons_of_neg]
        rw [last.ends char isLast]
        decide
  rw [short, last.split, List.reverse_append, List.takeWhile_append, whole, if_pos rfl, stops,
    List.append_nil, List.reverse_reverse]

private theorem exists_lastSegment (name : String) :
    ∃ front segment, LastSegment name front segment := by
  refine ⟨(name.toList.reverse.dropWhile (fun char => !qualifies char)).reverse,
    (name.toList.reverse.takeWhile (fun char => !qualifies char)).reverse, ?_, ?_, ?_⟩
  · rw [← List.reverse_append, List.takeWhile_append_dropWhile, List.reverse_reverse]
  · intro char member
    have passed := List.mem_takeWhile_imp (List.mem_reverse.mp member)
    rwa [Bool.not_eq_true'] at passed
  · intro char member
    rw [List.getLast?_reverse] at member
    have stopped := List.head?_dropWhile_not (fun char => !qualifies char) name.toList.reverse
    rw [Option.mem_def.mp member] at stopped
    simpa using stopped

/-- A class is called by its last segment, if there is one. -/
theorem LastSegment.ofClass_eq {name : String} {front segment : List Char}
    (last : LastSegment name front segment) :
    ofClass (some name) = if segment = [] then "Harness" else String.ofList segment := by
  unfold ofClass
  dsimp only
  rw [last.short_eq]
  by_cases none : segment = []
  · subst none
    rfl
  · rw [if_neg none, if_neg]
    rw [String.isEmpty_iff]
    intro empty
    exact none (String.ofList_eq_empty_iff.mp empty)

private theorem LastSegment.segment_eq {name : String} {front segment otherFront other : List Char}
    (last : LastSegment name front segment) (also : LastSegment name otherFront other) :
    segment = other :=
  String.ofList_injective (last.short_eq.symm.trans also.short_eq)

/-- The fixed name stands for a class without a last segment, and for no class. -/
theorem ofClass_cases (className : Option String) :
    (ofClass className = "Harness" ∧
      ∀ name, className = some name → ∃ front, LastSegment name front []) ∨
    ∃ name front segment, className = some name ∧ LastSegment name front segment ∧
      segment ≠ [] ∧ ofClass className = String.ofList segment := by
  cases className with
  | none =>
      left
      refine ⟨rfl, ?_⟩
      intro name impossible
      cases impossible
  | some name =>
      obtain ⟨front, segment, last⟩ := exists_lastSegment name
      have called := last.ofClass_eq
      by_cases none : segment = []
      · left
        rw [if_pos none] at called
        refine ⟨called, ?_⟩
        intro other same
        cases same
        exact ⟨front, none ▸ last⟩
      · right
        rw [if_neg none] at called
        exact ⟨name, front, segment, rfl, last, none, called⟩

/-! ### File names -/

private theorem toList_pascal_fixed : (pascal "Harness").toList = "Harness".toList := by
  decide +kernel

private theorem not_divides_of_mem_fixed : ∀ char ∈ "Harness".toList, ¬Divides char := by
  simp [Divides]

/-- A file name is a class part, the word Test, the number and the language. The class part is
free of underscores, points and colons. A class without a last segment, and none at all, goes by
the fixed name; any other by the words of that segment, which are none at all if it is made of
underscores. -/
theorem ofProgram_classPart (scenario : Scenario) :
    ∃ part : List Char,
      ofProgram scenario = String.ofList part ++ "Test" ++
        (scenario.id.map toString).getD "" ++ "." ++ scenario.targetLanguage.name ∧
      (∀ char ∈ part, char ≠ '_' ∧ char ≠ '.' ∧ char ≠ ':') ∧
      (part = [] ↔ ∃ name front segment, scenario.className = some name ∧
        LastSegment name front segment ∧ segment ≠ [] ∧ ∀ char ∈ segment, char = '_') ∧
      ((∀ name, scenario.className = some name → ∃ front, LastSegment name front []) →
        part = "Harness".toList) ∧
      (∀ name front segment, scenario.className = some name →
        LastSegment name front segment → segment ≠ [] →
        part = (segment.splitOn '_').flatMap capitalized) := by
  refine ⟨(pascal (ofClass scenario.className)).toList, ?_, ?_⟩
  · rw [String.ofList_toList]
    rfl
  have apart : ∀ {char : Char}, ¬Divides char → char ≠ '_' ∧ char ≠ '.' ∧ char ≠ ':' := by
    intro char whole
    simpa only [Divides, not_or] using whole
  rcases ofClass_cases scenario.className with ⟨called, nameless⟩ |
    ⟨name, front, segment, named, last, nonempty, called⟩
  · rw [called, toList_pascal_fixed]
    refine ⟨fun char member => apart (not_divides_of_mem_fixed char member),
      iff_of_false (by decide) ?_, fun _ => rfl, ?_⟩
    · rintro ⟨name, front, segment, named, last, nonempty, _⟩
      obtain ⟨_, empty⟩ := nameless name named
      exact nonempty (last.segment_eq empty)
    · intro name front segment named last nonempty
      obtain ⟨_, empty⟩ := nameless name named
      exact absurd (last.segment_eq empty) nonempty
  · have unique : ∀ other otherFront otherSegment, scenario.className = some other →
        LastSegment other otherFront otherSegment → otherSegment = segment := by
      intro other otherFront otherSegment same also
      rw [named] at same
      cases same
      exact also.segment_eq last
    rw [called]
    refine ⟨?_, ?_, ?_, ?_⟩
    · intro char member
      rw [pascal, String.toList_ofList, String.toList_ofList] at member
      exact apart (not_divides_of_mem_pascalChars last.unqualified member)
    · rw [pascal, String.toList_ofList, String.toList_ofList, pascalChars_eq_nil_iff]
      constructor
      · intro marks
        exact ⟨name, front, segment, named, last, nonempty, marks⟩
      · rintro ⟨other, otherFront, otherSegment, same, also, _, marks⟩
        rwa [unique other otherFront otherSegment same also] at marks
    · intro nameless
      obtain ⟨_, empty⟩ := nameless name named
      exact absurd (last.segment_eq empty) nonempty
    · intro other otherFront otherSegment same also _
      rw [toList_pascal, String.toList_ofList, unique other otherFront otherSegment same also]

/-- A qualified class whose last segment is two underscores: nothing stands for it. -/
def underscoreScenario : Scenario :=
  { Scenario.empty with className := some "lf::__", id := some 3, language := some .cpp }

theorem ofProgram_classPart_underscores :
    LastSegment "lf::__" "lf::".toList "__".toList ∧
    ofProgram underscoreScenario = "Test3.cpp" := by
  have last : LastSegment "lf::__" "lf::".toList "__".toList :=
    ⟨rfl, by simp [qualifies], by simp [qualifies]⟩
  obtain ⟨part, named, _, missing, _⟩ := ofProgram_classPart underscoreScenario
  rw [missing.mpr ⟨_, _, _, rfl, last, by decide, by simp⟩] at named
  exact ⟨last, named⟩

end Name

end Interleave
