import Interleave.Proofs.Frames
import Interleave.Proofs.Parsed
import Interleave.Proofs.SearchRun
import Interleave.Run

set_option autoImplicit false

/-! What a run writes: one frame for each document, around an object that can be read again.
Reading the frames gives the objects back exactly when no name and no string in them holds three
dashes. -/

open Interleave.Frame

namespace Interleave

/-! ### Objects that are written -/

namespace Run

def errorMembers (error : RunError) (ordinal : Nat) : Members Json :=
  [("error", .string error.message), ("document", .natural ordinal)]

/-- The members that come out for a document: its own with the results, or an error record. -/
def members (settings : Settings) (ordinal : Nat) (raw : List UInt8) : Members Json :=
  match Json.parseObject raw with
  | .error cause => errorMembers (.document ordinal (.malformed cause)) ordinal
  | .ok document =>
      match Harness.build document settings with
      | .error cause => errorMembers (.document ordinal (.harness cause)) ordinal
      | .ok harness =>
          Document.annotate document harness.results harness.linearizations.length

def textOf (members : Members Json) : String := Json.compact (.object members)

theorem process_ok {settings : Settings} {raw : List UInt8} {text : String}
    (processed : process settings raw = .ok text) (ordinal : Nat) :
    text = textOf (members settings ordinal raw) := by
  unfold process at processed
  unfold members
  cases parsed : Json.parseObject raw with
  | error cause =>
      rw [parsed] at processed
      cases processed
  | ok document =>
      rw [parsed] at processed
      dsimp only at processed ⊢
      cases built : Harness.build document settings with
      | error cause =>
          rw [built] at processed
          cases processed
      | ok harness =>
          rw [built] at processed
          cases processed
          rfl

theorem process_error {settings : Settings} {raw : List UInt8} {cause : DocumentError}
    (processed : process settings raw = .error cause) (ordinal : Nat) :
    errorRecord (.document ordinal cause) ordinal = textOf (members settings ordinal raw) := by
  unfold process at processed
  unfold members
  cases parsed : Json.parseObject raw with
  | error fault =>
      rw [parsed] at processed
      cases processed
      rfl
  | ok document =>
      rw [parsed] at processed
      dsimp only at processed ⊢
      cases built : Harness.build document settings with
      | error fault =>
          rw [built] at processed
          cases processed
          rfl
      | ok harness =>
          rw [built] at processed
          cases processed

/-- The members for documents in their order, after so many others. -/
def allMembers (settings : Settings) : (done : Nat) → List (List UInt8) → List (Members Json)
  | _, [] => []
  | done, raw :: documents =>
      members settings (done + 1) raw :: allMembers settings (done + 1) documents

def frameOf (members : Members Json) : List UInt8 :=
  delimiter ++ framed (Utf8.encode (textOf members))

/-- What a run does with a document: it stops there, or it writes the frame of the document, and
goes on unless the flush after it fails. -/
theorem loop_cons_cases (settings : Settings) (policy : ErrorPolicy) (failing : Option Nat)
    (readFails : Bool) (output : String) (summary : Summary) (raw : List UInt8)
    (documents : List (List UInt8)) :
    (∃ cause, policy = .abort ∧ process settings raw = .error cause ∧
      loop settings policy failing readFails output summary (raw :: documents) =
        ⟨output, .error (.document (summary.emitted + 1) cause)⟩) ∨
    (∃ failed, failed = (if (process settings raw).isOk then 0 else 1) ∧
      (policy = .abort → (process settings raw).isOk = true) ∧
      loop settings policy failing readFails output summary (raw :: documents) =
        let written := output ++ Frame.ofText (textOf (members settings (summary.emitted + 1) raw))
        if flushFails failing (summary.emitted + 1) then ⟨written, .error .flushFailed⟩
        else
          loop settings policy failing readFails written
            ⟨summary.emitted + 1, summary.failed + failed⟩ documents) := by
  rw [loop]
  cases processed : process settings raw with
  | ok text =>
      rw [← process_ok processed]
      exact Or.inr ⟨0, rfl, fun _ => rfl, rfl⟩
  | error cause =>
      cases policy with
      | abort => exact Or.inl ⟨cause, rfl, rfl, rfl⟩
      | skip =>
          rw [← process_error processed]
          exact Or.inr ⟨1, rfl, (fun aborts => by cases aborts), rfl⟩

/-- A run that comes to its end has written a frame for each document. -/
theorem loop_output {settings : Settings} {policy : ErrorPolicy} {readFails : Bool}
    {documents : List (List UInt8)} {before output : String} {summary result : Summary}
    (ran : loop settings policy none readFails before summary documents =
      ⟨output, .ok result⟩) :
    readFails = false ∧ result.emitted = summary.emitted + documents.length ∧
    Utf8.encode output = Utf8.encode before ++
      (allMembers settings summary.emitted documents).flatMap frameOf := by
  induction documents generalizing before summary with
  | nil =>
      unfold loop at ran
      rw [RunResult.mk.injEq] at ran
      obtain ⟨same, finished⟩ := ran
      cases readFails with
      | true => cases finished
      | false =>
          cases finished
          refine ⟨rfl, rfl, ?_⟩
          rw [same]
          exact (List.append_nil _).symm
  | cons raw documents ih =>
      rcases loop_cons_cases settings policy none readFails before summary raw documents with
        ⟨_, _, _, stops⟩ | ⟨failed, _, _, goesOn⟩
      · rw [stops] at ran
        cases ran
      · rw [goesOn] at ran
        obtain ⟨noFailure, count, written⟩ := ih ran
        refine ⟨noFailure, ?_, ?_⟩
        · rw [count, List.length_cons]
          dsimp only
          omega
        · rw [written, Utf8.encode_append, encode_ofText, List.append_assoc]
          rfl

private theorem allMembers_length (settings : Settings) (done : Nat)
    (documents : List (List UInt8)) :
    (allMembers settings done documents).length = documents.length := by
  induction documents generalizing done with
  | nil => rfl
  | cons raw documents ih =>
      unfold allMembers
      rw [List.length_cons, List.length_cons, ih]

/-! ### They can be read -/

theorem natural_readable (levels : Nat) {value : Nat} (small : value < 2 ^ 64) :
    Json.Readable levels (Json.natural value) := by
  have limit : (2 : Int) ^ 64 = 18446744073709551616 := rfl
  apply Json.Readable.number
  change -2 ^ 63 ≤ (value : Int) ∧ (value : Int) < 2 ^ 64
  constructor <;> omega

private theorem errorMembers_sound (levels : Nat) (error : RunError) {ordinal : Nat}
    (small : ordinal < 2 ^ 64) : Reader.Sound levels (errorMembers error ordinal) := by
  constructor
  · change ["error", "document"].Nodup
    decide
  · intro member present
    unfold errorMembers at present
    rcases List.mem_cons.mp present with same | present
    · rw [same]
      exact .string levels _
    · rw [List.mem_singleton.mp present]
      exact natural_readable levels small

private theorem strings_readable (levels : Nat) (named : Members String)
    (distinct : named.names.Nodup) :
    Json.Readable (levels + 1)
      (.object (named.map (fun (name, text) => (name, .string text)))) := by
  apply Json.Readable.object
  · unfold Members.names at distinct ⊢
    rw [List.map_map]
    exact distinct
  · intro member present
    obtain ⟨pair, _, same⟩ := List.mem_map.mp present
    rw [← same]
    exact .string levels pair.2

private theorem results_readable (levels : Nat) (harness : Harness) :
    Json.Readable (levels + 2) harness.results := by
  have orderings : Json.Readable (levels + 1) (.array (harness.orderings.map .string)) := by
    apply Json.Readable.array
    intro item present
    obtain ⟨text, _, same⟩ := List.mem_map.mp present
    rw [← same]
    exact .string levels text
  unfold Harness.results
  cases harness.nativeTest with
  | none =>
      apply Json.Readable.object
      · exact List.nodup_singleton "orderings"
      · intro member present
        rw [List.mem_singleton.mp present]
        exact orderings
  | some test =>
      have translation : Json.Readable (levels + 1) test.toJson :=
        strings_readable levels
          [("language", test.language.name), ("file_name", test.fileName), ("code", test.code)]
          (show ["language", "file_name", "code"].Nodup by decide)
      apply Json.Readable.object
      · change ["orderings", "translation"].Nodup
        decide
      · intro member present
        rcases List.mem_cons.mp present with same | present
        · rw [same]
          exact orderings
        · rw [List.mem_singleton.mp present]
          exact translation

theorem linearizations_length_le {scenario : Scenario} {limit : Nat}
    {found : List (CallSequence Call)} (returned : scenario.linearizations limit = .ok found) :
    found.length ≤ limit := by
  rw [scenario.linearizations_eq] at returned
  dsimp only at returned
  split at returned
  · rename_i within
    cases returned
    rw [List.length_map]
    exact within
  · cases returned

private theorem build_length_le {document : Members Json} {settings : Settings} {harness : Harness}
    (built : Harness.build document settings = .ok harness) :
    harness.linearizations.length ≤ settings.limit := by
  unfold Harness.build at built
  split at built
  · cases built
  · split at built
    · cases built
    · rename_i returned
      split at built
      · cases built
      · cases built
        exact linearizations_length_le returned

private theorem members_readable {settings : Settings} (limit : settings.limit < 2 ^ 64)
    {ordinal : Nat} (small : ordinal < 2 ^ 64) (raw : List UInt8) :
    Json.Readable Reader.deepest (.object (members settings ordinal raw)) := by
  have sound : Reader.Sound (Reader.deepest - 1) (members settings ordinal raw) := by
    unfold members
    cases parsed : Json.parseObject raw with
    | error cause => exact errorMembers_sound _ _ small
    | ok document =>
        dsimp only
        cases built : Harness.build document settings with
        | error cause => exact errorMembers_sound _ _ small
        | ok harness =>
            have count := build_length_le built
            have own := Json.sound_of_parseObject parsed
            have withResults := Reader.sound_set own Document.resultsName
              (results_readable (Reader.deepest - 3) harness)
            exact Reader.sound_set withResults Document.countName
              (natural_readable _ (Nat.lt_of_le_of_lt count limit))
  exact .object sound.1 sound.2

/-! ### And stand between braces -/

private theorem spellMembers_closes (layout : Layout) (level : Nat) (members : Members Json) :
    ∃ front, Json.spellMembers layout level members = front ++ [0x7d] := by
  induction members with
  | nil => exact ⟨layout.gap level, by rw [Json.spellMembers]⟩
  | cons member members ih =>
      obtain ⟨name, value⟩ := member
      obtain ⟨front, same⟩ := ih
      refine ⟨0x2c :: (layout.gap (level + 1) ++ Utf8.encode (Json.quoted name) ++ 0x3a ::
        (layout.space ++ Json.spell layout (level + 1) value ++ front)), ?_⟩
      rw [Json.spellMembers, same]
      simp only [List.append_assoc, List.cons_append]

theorem braced_spell (layout : Layout) (members : Members Json) :
    Braced (Json.spell layout 0 (.object members)) := by
  cases members with
  | nil => exact ⟨[], by rw [Json.spell]; rfl⟩
  | cons member members =>
      obtain ⟨name, value⟩ := member
      obtain ⟨front, same⟩ := spellMembers_closes layout 0 members
      refine ⟨layout.gap 1 ++ Utf8.encode (Json.quoted name) ++ 0x3a ::
        (layout.space ++ Json.spell layout 1 value ++ front), ?_⟩
      rw [Json.spell, same]
      simp only [List.append_assoc, List.cons_append]

private theorem braced_text (members : Members Json) : Braced (Utf8.encode (textOf members)) := by
  unfold textOf
  rw [Json.encode_compact]
  exact braced_spell .dense members

private theorem allMembers_readable {settings : Settings} (limit : settings.limit < 2 ^ 64)
    {done : Nat} {documents : List (List UInt8)} (small : done + documents.length < 2 ^ 64) :
    ∀ object ∈ allMembers settings done documents,
      Json.Readable Reader.deepest (.object object) := by
  induction documents generalizing done with
  | nil => exact fun _ absent => by cases absent
  | cons raw documents ih =>
      rw [List.length_cons] at small
      intro object present
      rcases List.mem_cons.mp present with same | later
      · rw [same]
        exact members_readable limit (by omega) raw
      · exact ih (by omega) object later

private theorem delimiter_text (object : Members Json) :
    delimiter <:+: Utf8.encode (textOf object) ↔ Json.SomeDashes (Json.texts (.object object)) := by
  unfold textOf
  rw [Json.encode_compact]
  exact Json.delimiter_spell .dense (.object object) 0

theorem parseObject_framed_spell (layout : Layout) {object : Members Json}
    (readable : Json.Readable Reader.deepest (.object object)) :
    Json.parseObject (framed (Json.spell layout 0 (.object object))) =
      .ok (Json.rereadMembers object) := by
  have lineBreak : ∀ byte ∈ ([0x0a] : List UInt8), Token.isBlank byte = true := by
    intro byte member
    rw [List.mem_singleton.mp member]
    rfl
  unfold framed
  exact Reader.parseObject_spell layout readable lineBreak lineBreak

/-- The document in a frame is the object that was written, up to the digits of its binary64
numbers. -/
theorem parseObject_framed {object : Members Json}
    (readable : Json.Readable Reader.deepest (.object object)) :
    Json.parseObject (framed (Utf8.encode (textOf object))) =
      .ok (Json.rereadMembers object) := by
  unfold textOf
  rw [Json.encode_compact]
  exact parseObject_framed_spell .dense readable

end Run

/-- What a run has written, read back as a stream of documents, gives one object for each of its
frames exactly when no name and no string in these objects holds three dashes in a row; they come
in the order in which they were written. -/
theorem run_reread_iff {settings : Settings} {policy : ErrorPolicy} {source again : Source}
    {output : String} {summary : Summary} (limit : settings.limit < 2 ^ 64)
    (few : summary.emitted < 2 ^ 64)
    (ran : run settings policy none source = ⟨output, .ok summary⟩)
    (written : again.bytes = Utf8.encode output) (complete : again.fails = false) :
    let objects := Run.allMembers settings 0 (DocumentReader.readAll source).documents
    let documents := (DocumentReader.readAll again).documents
    objects.length = summary.emitted ∧
    ((documents.length = summary.emitted ∧
        ∀ document ∈ documents, ∃ object, Json.parseObject document = .ok object) ↔
      ∀ object ∈ objects, ¬Json.SomeDashes (Json.texts (.object object))) ∧
    ((∀ object ∈ objects, ¬Json.SomeDashes (Json.texts (.object object))) →
      documents.map Json.parseObject =
        objects.map (fun object => .ok (Json.rereadMembers object))) := by
  intro objects documents
  obtain ⟨_, count, stream⟩ := Run.loop_output ran
  have length : objects.length = summary.emitted := by
    rw [Run.allMembers_length, count]
    exact (Nat.zero_add _).symm
  have readable : ∀ object ∈ objects, Json.Readable Reader.deepest (.object object) := by
    apply Run.allMembers_readable limit
    rw [count] at few
    exact few
  have frames : again.bytes = (objects.map (fun object => Utf8.encode (Run.textOf object))).flatMap
      (fun text => delimiter ++ framed text) := by
    rw [written, stream, List.flatMap_map]
    rfl
  have unbroken : again.breaks = false := by
    unfold Source.breaks
    rw [complete, Bool.false_and]
  have split : documents = nonblank (pieces again.bytes) := by
    change (DocumentReader.readAll again).documents = _
    rw [DocumentReader.readAll_eq, unbroken]
    rfl
  have braced : ∀ text ∈ objects.map (fun object => Utf8.encode (Run.textOf object)),
      Braced text := by
    intro text member
    obtain ⟨object, _, same⟩ := List.mem_map.mp member
    rw [← same]
    exact Run.braced_text object
  obtain ⟨counted, cleanFrames⟩ := nonblank_frames_iff braced
  rw [← frames, ← split, List.length_map, length] at counted
  rw [← frames, ← split, List.map_map] at cleanFrames
  have clean : (∀ text ∈ objects.map (fun object => Utf8.encode (Run.textOf object)),
      ¬delimiter <:+: text) ↔
      ∀ object ∈ objects, ¬Json.SomeDashes (Json.texts (.object object)) := by
    rw [List.forall_mem_map]
    simp only [Run.delimiter_text]
  rw [clean] at counted cleanFrames
  have parsed : (∀ object ∈ objects, ¬Json.SomeDashes (Json.texts (.object object))) →
      documents.map Json.parseObject =
        objects.map (fun object => .ok (Json.rereadMembers object)) := by
    intro none
    rw [cleanFrames none, List.map_map]
    apply List.map_congr_left
    intro object member
    exact Run.parseObject_framed (readable object member)
  refine ⟨length, ⟨?_, ?_⟩, parsed⟩
  · intro both
    exact counted.mp both.1
  · intro none
    refine ⟨counted.mpr none, ?_⟩
    intro document member
    have inParsed := List.mem_map_of_mem (f := Json.parseObject) member
    rw [parsed none] at inParsed
    obtain ⟨object, _, same⟩ := List.mem_map.mp inParsed
    exact ⟨Json.rereadMembers object, same.symm⟩

/-! A document whose string holds three dashes, one of them escaped, comes out with all three
bare. -/

def escapedDashes : Source := ⟨[Utf8.encode "---\x7b\"a\":\"-\\u002d-\"\x7d---"], false⟩

def bareDashes : String :=
  "---\n\x7b\"a\":\"---\",\"results\":\x7b\"orderings\":[\"\"]\x7d,\"linearizations\":1\x7d\n"

def plainSettings : Settings := ⟨false, none, Settings.defaultLimit⟩

theorem run_reread_iff_escaped :
    plainSettings.limit < 2 ^ 64 ∧
    run plainSettings .abort none escapedDashes = ⟨bareDashes, .ok ⟨1, 0⟩⟩ ∧
    Source.bytes ⟨[Utf8.encode bareDashes], false⟩ = Utf8.encode bareDashes ∧
    ¬((DocumentReader.readAll ⟨[Utf8.encode bareDashes], false⟩).documents.length = 1 ∧
      ∀ document ∈ (DocumentReader.readAll ⟨[Utf8.encode bareDashes], false⟩).documents,
        ∃ object, Json.parseObject document = .ok object) := by
  have limit : plainSettings.limit < 2 ^ 64 := by decide
  have ran : run plainSettings .abort none escapedDashes = ⟨bareDashes, .ok ⟨1, 0⟩⟩ := by cbv
  have written : Source.bytes ⟨[Utf8.encode bareDashes], false⟩ = Utf8.encode bareDashes := by
    decide +kernel
  refine ⟨limit, ran, written, ?_⟩
  intro reread
  obtain ⟨_, exactly, _⟩ := run_reread_iff limit (by decide) ran written rfl
  have objects :
      Run.allMembers plainSettings 0 (DocumentReader.readAll escapedDashes).documents =
        [[("a", .string "---"),
          ("results", .object [("orderings", .array [.string ""])]),
          ("linearizations", .natural 1)]] := by cbv
  have clean := exactly.mp reread
  rw [objects] at clean
  apply clean _ List.mem_cons_self
  refine ⟨"---", ?_, by decide⟩
  exact List.mem_cons_of_mem _ List.mem_cons_self

end Interleave
