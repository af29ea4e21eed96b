import Interleave.Harness
import Interleave.Proofs.Parsed

set_option autoImplicit false

/-! Documents with their results merged in. The two members that are set are no fields of a
scenario, so an annotated document is read as the document it was made from, and its own results
go where the old ones stand. Only the provenance line of a native program tells the two apart. -/

namespace Interleave

/-! ### Members that are set -/

namespace Members

variable {α : Type}

private theorem find?_set (members : Members α) (name : String) (value : α) (other : String) :
    (members.set name value).find? other =
      if name = other then some value else members.find? other := by
  induction members with
  | nil => rfl
  | cons member members ih =>
      obtain ⟨key, old⟩ := member
      unfold set
      by_cases here : key = name
      · rw [if_pos here, here, find?, find?]
        by_cases same : name = other
        · rw [if_pos same, if_pos same]
        · rw [if_neg same, if_neg same, if_neg same]
      · rw [if_neg here, find?, find?, ih]
        by_cases same : key = other
        · rw [if_pos same, if_pos same, if_neg (fun found => here (same.trans found.symm))]
        · rw [if_neg same, if_neg same]

private theorem names_set (members : Members α) (name : String) (value : α) :
    (members.set name value).names =
      if name ∈ members.names then members.names else members.names ++ [name] := by
  induction members with
  | nil => rfl
  | cons member members ih =>
      obtain ⟨key, old⟩ := member
      have split : names ((key, old) :: members) = key :: names members := rfl
      unfold set
      by_cases here : key = name
      · have present : name ∈ key :: names members := List.mem_cons.mpr (Or.inl here.symm)
        rw [if_pos here, split, if_pos present]
        rfl
      · have same : name ∈ key :: names members ↔ name ∈ names members :=
          List.mem_cons.trans (or_iff_right (fun same => here same.symm))
        have kept : names ((key, old) :: set members name value) =
            key :: names (set members name value) := rfl
        rw [if_neg here, kept, ih, split]
        by_cases later : name ∈ names members
        · rw [if_pos later, if_pos (same.mpr later)]
        · rw [if_neg later, if_neg (fun found => later (same.mp found)), List.cons_append]

private theorem set_set (members : Members α) (name : String) (first second : α) :
    (members.set name first).set name second = members.set name second := by
  induction members with
  | nil => simp only [set, if_true]
  | cons member members ih =>
      obtain ⟨key, old⟩ := member
      by_cases here : key = name
      · simp only [set, if_pos here]
      · simp only [set, if_neg here, ih]

/-- A member that is there already keeps its place, whatever other is set before. -/
theorem set_comm_of_mem {members : Members α} {name other : String}
    (present : name ∈ members.names) (different : name ≠ other) (first second : α) :
    (members.set other first).set name second = (members.set name second).set other first := by
  induction members with
  | nil => exact absurd present List.not_mem_nil
  | cons member members ih =>
      obtain ⟨key, old⟩ := member
      by_cases here : key = name
      · have elsewhere : ¬key = other := fun same => different (here.symm.trans same)
        simp only [set, if_pos here, if_neg elsewhere]
      · have later : name ∈ names members := by
          rcases List.mem_cons.mp present with same | later
          · exact absurd same.symm here
          · exact later
        by_cases same : key = other
        · simp only [set, if_neg here, if_pos same]
        · simp only [set, if_neg here, if_neg same, ih later]

end Members

/-! ### Annotated documents -/

namespace Document

theorem find?_annotate {document : Members Json} {name : String} (notResults : name ≠ resultsName)
    (notCount : name ≠ countName) (results : Json) (count : Nat) :
    (annotate document results count).find? name = document.find? name := by
  unfold annotate
  rw [Members.find?_set, if_neg notCount.symm, Members.find?_set, if_neg notResults.symm]

theorem find?_annotate_count (document : Members Json) (results : Json) (count : Nat) :
    (annotate document results count).find? countName = some (.natural count) := by
  unfold annotate
  rw [Members.find?_set, if_pos rfl]

private theorem find?_annotate_results (document : Members Json) (results : Json) (count : Nat) :
    (annotate document results count).find? resultsName = some results := by
  have different : countName ≠ resultsName := by decide
  unfold annotate
  rw [Members.find?_set, if_neg different, Members.find?_set, if_pos rfl]

/-- The names of a document stay where they are; what is new comes last, results first. -/
theorem names_annotate (document : Members Json) (results : Json) (count : Nat) :
    (annotate document results count).names =
      document.names ++ [resultsName, countName].filter (fun name => name ∉ document.names) := by
  have different : countName ≠ resultsName := by decide
  unfold annotate
  rw [Members.names_set, Members.names_set]
  by_cases hasResults : resultsName ∈ document.names
  · by_cases hasCount : countName ∈ document.names
    · simp [hasResults, hasCount]
    · simp [hasResults, hasCount]
  · by_cases hasCount : countName ∈ document.names
    · simp [hasResults, hasCount]
    · simp [hasResults, hasCount, different]

/-- New results go to the places of the old ones. -/
theorem annotate_annotate (document : Members Json) (first second : Json) (old new : Nat) :
    annotate (annotate document first old) second new = annotate document second new := by
  have different : resultsName ≠ countName := by decide
  have present : resultsName ∈ (document.set resultsName first).names :=
    (Members.mem_names_set _ _ _ _).mpr (Or.inl rfl)
  unfold annotate
  rw [Members.set_comm_of_mem present different, Members.set_set, Members.set_set]

/-- An annotated document has the members of the one it was made from, in their order, with the
results and the count in place of its own, or else at the end; of two annotations the later one
stands, as if the earlier one had not been. -/
theorem annotate_replaces (document : Members Json) (first second : Json) (old new : Nat) :
    let annotated := annotate document first old
    annotated.names =
      document.names ++ [resultsName, countName].filter (fun name => name ∉ document.names) ∧
    (∀ name, annotated.find? name =
      if name = resultsName then some first
      else if name = countName then some (.natural old)
      else document.find? name) ∧
    annotate annotated second new = annotate document second new := by
  refine ⟨names_annotate _ _ _, fun name => ?_, annotate_annotate _ _ _ _ _⟩
  by_cases isResults : name = resultsName
  · rw [if_pos isResults, isResults]
    exact find?_annotate_results _ _ _
  · by_cases isCount : name = countName
    · rw [if_neg isResults, if_pos isCount, isCount]
      exact find?_annotate_count _ _ _
    · rw [if_neg isResults, if_neg isCount]
      exact find?_annotate isResults isCount _ _

end Document

namespace Scenario

private theorem foldlM_field_set {name : String} {value : Json}
    (unknown : ∀ scenario value, field scenario (name, value) = .ok scenario)
    (members : Members Json) (scenario : Scenario) :
    (members.set name value).foldlM field scenario = members.foldlM field scenario := by
  induction members generalizing scenario with
  | nil =>
      rw [Members.set, List.foldlM_cons, unknown]
      rfl
  | cons member members ih =>
      obtain ⟨key, old⟩ := member
      unfold Members.set
      by_cases here : key = name
      · rw [if_pos here, here, List.foldlM_cons, List.foldlM_cons, unknown, unknown]
      · rw [if_neg here, List.foldlM_cons, List.foldlM_cons]
        exact bind_congr ih

/-- Results are no part of a scenario, wherever they stand. -/
theorem read_annotate (document : Members Json) (results : Json) (count : Nat) :
    read (Document.annotate document results count) = read document := by
  have noResults : ∀ scenario value,
      field scenario (Document.resultsName, value) = .ok scenario := fun _ _ => rfl
  have noCount : ∀ scenario value,
      field scenario (Document.countName, value) = .ok scenario := fun _ _ => rfl
  have decoded : ofMembers (Document.annotate document results count) = ofMembers document := by
    unfold ofMembers Document.annotate
    rw [foldlM_field_set noCount, foldlM_field_set noResults]
  unfold read
  rw [decoded]

end Scenario

/-! ### Built again -/

namespace Harness

theorem build_eq_ok_iff {document : Members Json} {settings : Settings} {harness : Harness} :
    build document settings = .ok harness ↔
      ∃ scenario, Scenario.read document = .ok scenario ∧
        scenario.linearizations settings.limit = .ok harness.linearizations ∧
        nativeTest? document scenario settings = .ok harness.nativeTest := by
  constructor
  · intro built
    unfold build at built
    split at built
    · cases built
    · rename_i scenario accepted
      split at built
      · cases built
      · rename_i walked
        split at built
        · cases built
        · rename_i made
          cases built
          exact ⟨scenario, accepted, walked, made⟩
  · rintro ⟨scenario, accepted, walked, made⟩
    unfold build
    rw [accepted]
    dsimp only
    rw [walked]
    dsimp only
    rw [made]

end Harness

namespace Provenance

def digest (document : Members Json) : String := (ofDocument document none).scenario

private theorem hexDigit_ne_newline {value : Nat} (small : value < 16) :
    Hex.digit value ≠ '\n' := by
  revert value
  decide

theorem newline_not_mem_digest (document : Members Json) : '\n' ∉ (digest document).toList := by
  unfold digest ofDocument Sha256.hexDigest Hex.ofBytes
  rw [String.toList_ofList, List.mem_flatMap]
  rintro ⟨byte, _, member⟩
  have bound : byte.toNat < 256 := byte.toNat_lt
  rcases List.mem_cons.mp member with same | member
  · exact hexDigit_ne_newline (by omega) same.symm
  · exact hexDigit_ne_newline (by omega) (List.mem_singleton.mp member).symm

end Provenance

namespace NativeTest

def stamped (test : NativeTest) (digest : String) : NativeTest :=
  { test with code := Provenance.line "scenario" digest ++ test.code }

/-- Of the document, only its digest goes into the program, apart from the scenario. -/
theorem make_eq_stamped {document : Members Json} {scenario : Scenario} {library : Option String}
    {test : NativeTest} (made : make document scenario library = .ok test) :
    ∃ bare : NativeTest, ∀ other : Members Json,
      make other scenario library = .ok (bare.stamped (Provenance.digest other)) := by
  unfold make at made ⊢
  cases generated : scenario.programText library with
  | error cause =>
      rw [generated] at made
      cases made
  | ok code =>
      refine ⟨⟨scenario.targetLanguage, Name.ofProgram scenario,
        ((library.map fun source => Sha256.hexDigest (Utf8.encode source)).map
          (Provenance.line "library")).getD "" ++ "\n" ++ code⟩, fun other => ?_⟩
      unfold stamped Provenance.text
      simp only [Except.map, String.append_assoc]
      rfl

end NativeTest

namespace Harness

theorem build_annotate {document : Members Json} {settings : Settings} {harness : Harness}
    (built : build document settings = .ok harness) (results : Json) (count : Nat) :
    (settings.native = false → harness.nativeTest = none ∧
      build (Document.annotate document results count) settings = .ok harness) ∧
    (settings.native = true → ∃ bare : NativeTest,
      harness.nativeTest = some (bare.stamped (Provenance.digest document)) ∧
      build (Document.annotate document results count) settings =
        .ok { harness with nativeTest := some (bare.stamped
          (Provenance.digest (Document.annotate document results count))) }) := by
  obtain ⟨scenario, accepted, walked, made⟩ := build_eq_ok_iff.mp built
  have reread := Scenario.read_annotate document results count
  rw [accepted] at reread
  unfold nativeTest? at made
  constructor
  · intro off
    rw [if_neg (by rw [off]; exact Bool.false_ne_true)] at made
    refine ⟨(Except.ok.inj made).symm, build_eq_ok_iff.mpr ⟨scenario, reread, walked, ?_⟩⟩
    unfold nativeTest?
    rw [if_neg (by rw [off]; exact Bool.false_ne_true), ← made]
  · intro on
    rw [if_pos on] at made
    cases test : NativeTest.make document scenario settings.library with
    | error cause =>
        rw [test] at made
        cases made
    | ok test' =>
        obtain ⟨bare, makes⟩ := NativeTest.make_eq_stamped test
        rw [makes document] at made
        refine ⟨bare, (Except.ok.inj made).symm,
          build_eq_ok_iff.mpr ⟨scenario, reread, walked, ?_⟩⟩
        unfold nativeTest?
        rw [if_pos on, makes]
        rfl

end Harness

/-- An annotated document has the linearizations of the one it was made from. Annotated again it
stays as it is; with a native program, only the digest in the line of the program that records
the document is another. -/
theorem annotated_again {document : Members Json} {settings : Settings} {harness : Harness}
    (built : Harness.build document settings = .ok harness) :
    let merged := Document.annotate document harness.results harness.linearizations.length
    ∃ again, Harness.build merged settings = .ok again ∧
      again.linearizations = harness.linearizations ∧
      (settings.native = false →
        Document.annotate merged again.results again.linearizations.length = merged) ∧
      (settings.native = true → ∃ bare : NativeTest,
        let results (digest : String) : Json :=
          .object [("orderings", .array (harness.orderings.map .string)),
            ("translation", (bare.stamped digest).toJson)]
        let count := harness.linearizations.length
        '\n' ∉ (Provenance.digest document).toList ∧ '\n' ∉ (Provenance.digest merged).toList ∧
        merged = Document.annotate document (results (Provenance.digest document)) count ∧
        Document.annotate merged again.results again.linearizations.length =
          Document.annotate document (results (Provenance.digest merged)) count) := by
  intro merged
  obtain ⟨plain, native⟩ :=
    Harness.build_annotate built harness.results harness.linearizations.length
  cases setting : settings.native with
  | false =>
      obtain ⟨_, rebuilt⟩ := plain setting
      refine ⟨harness, rebuilt, rfl, fun _ => ?_, fun on => by cases on⟩
      exact Document.annotate_annotate _ _ _ _ _
  | true =>
      obtain ⟨bare, test, rebuilt⟩ := native setting
      refine ⟨_, rebuilt, rfl, fun off => (by cases off), fun _ => ⟨bare,
        Provenance.newline_not_mem_digest document, Provenance.newline_not_mem_digest merged,
        ?_, ?_⟩⟩
      · change Document.annotate document harness.results _ = _
        unfold Harness.results
        rw [test]
        rfl
      · exact Document.annotate_annotate _ _ _ _ _

/-! Both names stand in this document already, one of them before the threads. -/

def staleDocument : Members Json :=
  [("linearizations", .string "stale"),
    ("sequences", .array [.object [("index", .natural 0),
      ("invocations", .array [.object [("method", .string "get")]])]]),
    ("results", .null)]

def nativeSettings : Settings := ⟨true, none, 1⟩

theorem annotated_again_stale :
    ∃ harness, Harness.build staleDocument nativeSettings = .ok harness ∧
      let merged := Document.annotate staleDocument harness.results harness.linearizations.length
      Members.names merged = ["linearizations", "sequences", "results"] ∧
      ∃ again, Harness.build merged nativeSettings = .ok again ∧
        again.linearizations = harness.linearizations ∧ ∃ bare : NativeTest,
        Members.find? (Document.annotate merged again.results again.linearizations.length)
            Document.resultsName =
          some (.object [("orderings", .array (harness.orderings.map .string)),
            ("translation", (bare.stamped (Provenance.digest merged)).toJson)]) := by
  obtain ⟨harness, built⟩ :
      ∃ harness, Harness.build staleDocument nativeSettings = .ok harness := ⟨_, rfl⟩
  obtain ⟨again, rebuilt, same, _, native⟩ := annotated_again built
  obtain ⟨bare, _, _, _, merged⟩ := native rfl
  refine ⟨harness, built, rfl, again, rebuilt, same, bare, ?_⟩
  rw [merged]
  rfl

end Interleave
