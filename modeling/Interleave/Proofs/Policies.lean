import Interleave.CommandLine
import Interleave.Proofs.RunEnds

set_option autoImplicit false

/-! The two policies against each other, on a source whose reads do not fail and with flushes
that do not either. A run that skips writes a frame for every document; a run that aborts writes
the frames before the first error record of the other, and all of them when there is none. -/

open Interleave.Frame

namespace Interleave

namespace Run

variable {settings : Settings}

/-- What stands in the frame of a document: the document with its results, the same at every
place, or an error record. -/
theorem members_cases (settings : Settings) (raw : List UInt8) :
    (succeeds settings raw = true ∧ ∃ document harness,
      Json.parseObject raw = .ok document ∧ Harness.build document settings = .ok harness ∧
      ∀ ordinal, members settings ordinal raw =
        Document.annotate document harness.results harness.linearizations.length) ∨
    (succeeds settings raw = false ∧ ∃ cause, process settings raw = .error cause ∧
      ∀ ordinal, members settings ordinal raw =
        errorMembers (.document ordinal cause) ordinal) := by
  unfold succeeds process members
  cases parsed : Json.parseObject raw with
  | error cause => exact Or.inr ⟨rfl, _, rfl, fun _ => rfl⟩
  | ok document =>
      dsimp only
      cases built : Harness.build document settings with
      | error cause => exact Or.inr ⟨rfl, _, rfl, fun _ => rfl⟩
      | ok harness => exact Or.inl ⟨rfl, document, harness, rfl, built, fun _ => rfl⟩

private theorem countP_failed_eq_zero {documents : List (List UInt8)} :
    documents.countP (fun raw => !succeeds settings raw) = 0 ↔
      ∀ raw ∈ documents, succeeds settings raw = true := by
  rw [List.countP_eq_zero]
  apply forall₂_congr
  intro raw _
  cases succeeds settings raw <;> decide

private theorem countP_failed_ne_zero {documents : List (List UInt8)} {raw : List UInt8}
    {cause : DocumentError} (member : raw ∈ documents)
    (processed : process settings raw = .error cause) :
    documents.countP (fun raw => !succeeds settings raw) ≠ 0 := by
  intro none
  have succeeded := countP_failed_eq_zero.mp none raw member
  unfold succeeds at succeeded
  rw [processed] at succeeded
  cases succeeded

private theorem frame_of_error {raw : List UInt8} {cause : DocumentError} (place : Nat)
    (processed : process settings raw = .error cause) :
    frame settings place raw =
      Frame.ofText (errorRecord (.document (place + 1) cause) (place + 1)) := by
  unfold frame
  rw [process_error processed]

private theorem join_frames_split (settings : Settings) (before later : List (List UInt8))
    (raw : List UInt8) :
    ∃ rest, String.join (frames settings (before ++ raw :: later)) =
      String.join (frames settings before) ++ frame settings before.length raw ++ rest := by
  unfold frames
  rw [List.mapIdx_append, List.mapIdx_cons, String.join_append, String.join_cons,
    Nat.zero_add, ← String.append_assoc]
  exact ⟨_, rfl⟩

theorem skip_ends {documents : List (List UInt8)} {outcome : RunResult}
    (ends : Ends settings .skip none false documents outcome) :
    outcome = ⟨String.join (frames settings documents),
      .ok ⟨documents.length, documents.countP (fun raw => !succeeds settings raw)⟩⟩ := by
  cases ends with
  | complete _ written => rw [written.output_eq, written.summary_eq]
  | unread breaks => cases breaks
  | unflushed _ _ _ fails => cases fails
  | rejected _ _ aborts => cases aborts

theorem abort_ends {documents : List (List UInt8)} {outcome : RunResult}
    (ends : Ends settings .abort none false documents outcome) :
    ((∀ raw ∈ documents, succeeds settings raw = true) ∧
      outcome = ⟨String.join (frames settings documents), .ok ⟨documents.length, 0⟩⟩) ∨
    ∃ before raw later cause, documents = before ++ raw :: later ∧
      (∀ document ∈ before, succeeds settings document = true) ∧
      process settings raw = .error cause ∧
      outcome = ⟨String.join (frames settings before),
        .error (.document (before.length + 1) cause)⟩ := by
  cases ends with
  | complete _ written =>
      have passed := written.passed rfl
      refine Or.inl ⟨passed, ?_⟩
      rw [written.output_eq, written.summary_eq, countP_failed_eq_zero.mpr passed]
  | unread breaks => cases breaks
  | unflushed _ _ _ fails => cases fails
  | rejected split written _ processed =>
      exact Or.inr ⟨_, _, _, _, split, written.passed rfl, processed, by
        rw [written.output_eq]⟩

end Run

/-- A run that skips takes every document to one frame: the document with its results, or an
error record that depends on the others through its ordinal alone. -/
theorem skip_frames_every_document (settings : Settings) {source : Source} {bytes : List UInt8}
    (delivers : source.Delivers bytes) :
    let documents := (pieces bytes).filter (fun piece => !isBlank piece)
    run settings .skip none source =
      ⟨String.join (documents.mapIdx (fun place raw =>
          Frame.ofText (Json.compact (.object (Run.members settings (place + 1) raw))))),
        .ok ⟨documents.length, documents.countP (fun raw => !Run.succeeds settings raw)⟩⟩ ∧
    ∀ raw,
      (Run.succeeds settings raw = true ∧ ∃ document harness,
        Json.parseObject raw = .ok document ∧ Harness.build document settings = .ok harness ∧
        ∀ ordinal, Run.members settings ordinal raw =
          Document.annotate document harness.results harness.linearizations.length) ∨
      (Run.succeeds settings raw = false ∧ ∃ cause, Run.process settings raw = .error cause ∧
        ∀ ordinal, Run.members settings ordinal raw =
          [("error", .string (RunError.document ordinal cause).message),
            ("document", .natural ordinal)]) := by
  refine ⟨?_, Run.members_cases settings⟩
  exact Run.skip_ends (run_ends settings .skip none (.whole delivers))

/-! The three documents come in two chunks. -/

def wholeSource : Source :=
  ⟨[Utf8.encode "\x7b\x7d---x-", Utf8.encode "-- ---\x7b\x7d"], false⟩

def plainFrame : String :=
  "---\n\x7b\"results\":\x7b\"orderings\":[\"\"]\x7d,\"linearizations\":1\x7d\n"

def malformedFrame : String :=
  "---\n\x7b\"error\":\"document 2: malformed JSON object: expected value at line 1 " ++
    "column 1\",\"document\":2\x7d\n"

def threeRaws : List (List UInt8) :=
  [Utf8.encode "\x7b\x7d", Utf8.encode "x", Utf8.encode "\x7b\x7d"]

private theorem threeDocuments_split :
    (pieces threeDocuments).filter (fun piece => !isBlank piece) = threeRaws := by decide

private theorem wholeSource_delivers : wholeSource.Delivers threeDocuments := .spent (by decide)

theorem skip_frames_every_document_three :
    wholeSource.Delivers threeDocuments ∧
    run plainSettings .skip none wholeSource =
      ⟨String.join [plainFrame, malformedFrame, plainFrame], .ok ⟨3, 1⟩⟩ := by
  have written := (skip_frames_every_document plainSettings wholeSource_delivers).1
  have frames : threeRaws.mapIdx (fun place raw => Frame.ofText
      (Json.compact (.object (Run.members plainSettings (place + 1) raw)))) =
      [plainFrame, malformedFrame, plainFrame] := by cbv
  have failed : threeRaws.countP (fun raw => !Run.succeeds plainSettings raw) = 1 := by cbv
  rw [threeDocuments_split, frames, failed] at written
  exact ⟨wholeSource_delivers, written⟩

/-! ### Exit statuses -/

namespace CommandLine

theorem delivers_input (input : List UInt8) : Source.Delivers ⟨[input], false⟩ input := by
  cases input with
  | nil =>
      have solid : ∀ chunk ∈ ([] : List (List UInt8)), chunk ≠ [] :=
        fun _ absent => absurd absent List.not_mem_nil
      exact .closed solid [] false
  | cons byte bytes =>
      have solid : ∀ chunk ∈ [byte :: bytes], chunk ≠ [] := by
        intro chunk member
        rw [List.mem_singleton.mp member]
        exact List.cons_ne_nil byte bytes
      have delivers := Source.Delivers.spent solid
      rw [List.flatten_singleton] at delivers
      exact delivers

theorem status_success_iff (summary : Summary) :
    (if summary.isSuccess then success else failure) = success ↔ summary.failed = 0 := by
  unfold Summary.isSuccess
  cases failed : summary.failed with
  | zero => exact ⟨fun _ => rfl, fun _ => rfl⟩
  | succ count =>
      constructor
      · intro same
        cases same
      · intro same
        cases same

/-- The status of a run says whether all documents succeed, under either policy. -/
theorem generate_succeeds_iff {policy : ErrorPolicy} {name : String}
    (named : ErrorPolicy.ofText name = .ok policy) (content : Option (List UInt8))
    (input : List UInt8) (native : Bool) (libraryFile : Option String) (limit : Nat) :
    (generate content input native libraryFile limit name).status = success ↔
      ∃ library, readLibrary content libraryFile = some library ∧
        ∀ raw ∈ nonblank (pieces input), Run.succeeds ⟨native, library, limit⟩ raw = true := by
  have carries := Source.Carries.whole (delivers_input input)
  unfold generate
  rw [named]
  cases read : readLibrary content libraryFile with
  | none =>
      constructor
      · intro succeeded
        cases succeeded
      · intro found
        obtain ⟨_, same, _⟩ := found
        cases same
  | some library =>
      simp only [Option.some.injEq, exists_eq_left']
      cases policy with
      | skip =>
          rw [Run.skip_ends (run_ends _ .skip none carries)]
          dsimp only
          rw [← Run.countP_failed_eq_zero, documentsOf, status_success_iff]
      | abort =>
          rcases Run.abort_ends (run_ends ⟨native, library, limit⟩ .abort none carries) with
            ⟨all, ended⟩ | ⟨before, raw, later, cause, split, _, processed, ended⟩
          · rw [ended]
            dsimp only
            rw [status_success_iff]
            exact ⟨fun _ => all, fun _ => rfl⟩
          · rw [ended]
            constructor
            · intro succeeded
              cases succeeded
            · intro all
              have member : raw ∈ documentsOf input none := by
                rw [split]
                exact List.mem_append_right _ List.mem_cons_self
              exact absurd (Run.countP_failed_eq_zero.mpr all)
                (Run.countP_failed_ne_zero member processed)

/-- What holds of two commands with the same library file holds of the whole program. -/
theorem respond_agrees {first second : List String} {native : Bool} {libraryFile : Option String}
    {limit : Nat} {firstName secondName : String}
    (firstParsed : parse first = .ok (.generate native libraryFile limit firstName))
    (secondParsed : parse second = .ok (.generate native libraryFile limit secondName))
    (agree : ∀ content input,
      (generate content input native libraryFile limit firstName).status = success ↔
        (generate content input native libraryFile limit secondName).status = success)
    (directory : Directory) (input : List UInt8) :
    (respond first directory input).status = success ↔
      (respond second directory input).status = success := by
  unfold respond
  rw [firstParsed, secondParsed]
  dsimp only [Command.file?]
  cases libraryFile.bind directory.target? with
  | none => exact agree none input
  | some target =>
      cases target with
      | file content => exact agree (some content) input
      | input => exact agree (some input) []

end CommandLine

/-- Runs under the two policies are the same when no document fails. When one does, the run that
aborts has written what the other writes before its first error record, and stops with the error
of that record. So the program succeeds under both policies or under neither. -/
theorem abort_stops_where_skip_fails :
    (∀ (settings : Settings) {source : Source} {bytes : List UInt8}, source.Delivers bytes →
      let abort := run settings .abort none source
      let skip := run settings .skip none source
      ∃ summary, skip.result = .ok summary ∧
        ((∃ other, abort.result = .ok other) ↔ summary.failed = 0) ∧
        (summary.failed = 0 → abort = skip) ∧
        (summary.failed ≠ 0 → ∃ before raw later cause rest,
          (pieces bytes).filter (fun piece => !isBlank piece) = before ++ raw :: later ∧
          (∀ document ∈ before, Run.succeeds settings document = true) ∧
          Run.process settings raw = .error cause ∧
          let error := RunError.document (before.length + 1) cause
          let record := Json.object [("error", .string error.message),
            ("document", .natural (before.length + 1))]
          abort = ⟨String.join (Run.frames settings before), .error error⟩ ∧
          error.ordinal? = some (1 + (Run.frames settings before).length) ∧
          skip.output = String.join (Run.frames settings before) ++
            Frame.ofText (Json.compact record) ++ rest)) ∧
    (∀ {abort skip : List String} {native : Bool} {libraryFile : Option String} {limit : Nat}
      {abortName skipName : String},
      CommandLine.parse abort = .ok (.generate native libraryFile limit abortName) →
      CommandLine.parse skip = .ok (.generate native libraryFile limit skipName) →
      ErrorPolicy.ofText abortName = .ok .abort → ErrorPolicy.ofText skipName = .ok .skip →
      ∀ (directory : Directory) (input : List UInt8),
        (CommandLine.respond abort directory input).status = CommandLine.success ↔
        (CommandLine.respond skip directory input).status = CommandLine.success) := by
  constructor
  · intro settings source bytes delivers abort skip
    have carries := Source.Carries.whole delivers
    have skipped : skip = _ := Run.skip_ends (run_ends settings .skip none carries)
    have aborted : (_ ∧ abort = _) ∨ _ := Run.abort_ends (run_ends settings .abort none carries)
    clear_value abort skip
    subst skipped
    refine ⟨_, rfl, ?_⟩
    dsimp only
    rcases aborted with ⟨all, rfl⟩ | ⟨before, raw, later, cause, split, passed, processed, rfl⟩
    · have none := Run.countP_failed_eq_zero.mpr all
      refine ⟨⟨fun _ => none, fun _ => ⟨_, rfl⟩⟩, ?_, fun some => absurd none some⟩
      intro _
      rw [none]
    · have member : raw ∈ documentsOf bytes none := by
        rw [split]
        exact List.mem_append_right _ List.mem_cons_self
      have some := Run.countP_failed_ne_zero member processed
      refine ⟨⟨?_, fun none => absurd none some⟩, fun none => absurd none some, fun _ => ?_⟩
      · rintro ⟨_, same⟩
        cases same
      · obtain ⟨rest, written⟩ := Run.join_frames_split settings before later raw
        rw [Run.frame_of_error _ processed, ← split] at written
        refine ⟨before, raw, later, cause, rest, split, passed, processed, rfl, ?_, written⟩
        unfold Run.frames
        rw [List.length_mapIdx, Nat.add_comm]
        rfl
  · intro abort skip native libraryFile limit abortName skipName abortParsed skipParsed
      abortNamed skipNamed directory input
    apply CommandLine.respond_agrees abortParsed skipParsed
    intro content input
    rw [CommandLine.generate_succeeds_iff abortNamed,
      CommandLine.generate_succeeds_iff skipNamed]

theorem abort_stops_where_skip_fails_second :
    wholeSource.Delivers threeDocuments ∧
    (run plainSettings .skip none wholeSource).result = .ok ⟨3, 1⟩ ∧
    (∃ before error rest, (Run.frames plainSettings before).length = 1 ∧
      run plainSettings .abort none wholeSource =
        ⟨String.join (Run.frames plainSettings before), .error error⟩ ∧
      error.ordinal? = some 2 ∧
      (run plainSettings .skip none wholeSource).output =
        String.join (Run.frames plainSettings before) ++ malformedFrame ++ rest) ∧
    ∀ directory input,
      (CommandLine.respond ["generate"] directory input).status = CommandLine.success ↔
      (CommandLine.respond ["generate", "--on-error", " Skip"] directory input).status =
        CommandLine.success := by
  have counted : (run plainSettings .skip none wholeSource).result = .ok ⟨3, 1⟩ := by cbv
  obtain ⟨agree, status⟩ := abort_stops_where_skip_fails
  obtain ⟨summary, skipped, _, _, first⟩ := agree plainSettings wholeSource_delivers
  have same : summary = ⟨3, 1⟩ := Except.ok.inj (skipped.symm.trans counted)
  obtain ⟨before, raw, later, cause, rest, _, _, _, aborted, ordinal, written⟩ :=
    first (by rw [same]; exact Nat.one_ne_zero)
  have stopped : (run plainSettings .abort none wholeSource).result =
      .error (.document 2 (.malformed ⟨.expectedValue, 1, 1⟩)) := by cbv
  rw [aborted] at stopped
  obtain ⟨place, rfl⟩ := RunError.document.inj (Except.error.inj stopped)
  have record : Frame.ofText (Json.compact (.object
      [("error", .string (RunError.document 2 (.malformed ⟨.expectedValue, 1, 1⟩)).message),
        ("document", .natural 2)])) = malformedFrame := by cbv
  rw [place] at aborted ordinal written
  rw [record] at written
  have length : (Run.frames plainSettings before).length = 1 := by
    have count : 2 = 1 + (Run.frames plainSettings before).length := Option.some.inj ordinal
    omega
  have parsed : CommandLine.parse ["generate"] =
      .ok (.generate false none Settings.defaultLimit "abort") := rfl
  have parsedSkip : CommandLine.parse ["generate", "--on-error", " Skip"] =
      .ok (.generate false none Settings.defaultLimit " Skip") := rfl
  exact ⟨wholeSource_delivers, counted, ⟨before, _, rest, length, aborted, rfl, written⟩,
    status parsed parsedSkip (by cbv) (by cbv)⟩

end Interleave
