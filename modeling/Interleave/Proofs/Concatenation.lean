import Interleave.Proofs.Policies

set_option autoImplicit false

/-! Streams one after another. A delimiter between two streams is found where it stands unless
dashes end the first, and then the documents of the whole are those of both parts. A run that
skips keeps nothing of earlier documents but their number, so on the whole it writes what it
writes on the parts, with later ordinals for the second. -/

open Interleave.Frame

namespace Interleave

/-! ### Documents -/

/-- When the piece that is still open at the end of a stream does not end in a dash, a delimiter
after the stream begins where it stands. -/
theorem Frame.Splits.settled {bytes : List UInt8} {closed : List (List UInt8)}
    {last : List UInt8} (splits : Splits bytes (closed ++ [last]))
    (other : last.getLast? ≠ some 0x2d) : Settled (pieces bytes) := by
  intro found isLast
  rw [← splits_iff.mp splits, List.getLast?_concat, Option.mem_some_iff] at isLast
  rw [← isLast]
  exact other

theorem documentsOf_append {front : List UInt8} (settled : Settled (pieces front))
    (back : List UInt8) :
    documentsOf (front ++ (delimiter ++ back)) none =
      documentsOf front none ++ documentsOf back none := by
  unfold documentsOf nonblank
  rw [pieces_append settled, List.filter_append]

/-! ### Outcomes -/

namespace Run

/-- The frame of what has become of a document with so many before it: its text, or a record
of the cause of its failure under its ordinal. -/
def outcomeFrame (place : Nat) : Except DocumentError String → String
  | .ok text => Frame.ofText text
  | .error cause => Frame.ofText (errorRecord (.document (place + 1) cause) (place + 1))

/-- The frames of what has become of some documents with so many before them. -/
def outputFrom (done : Nat) (outcomes : List (Except DocumentError String)) : String :=
  String.join (outcomes.mapIdx (fun place => outcomeFrame (done + place)))

private theorem outcomeFrame_process (settings : Settings) (place : Nat) (raw : List UInt8) :
    outcomeFrame place (process settings raw) = frame settings place raw := by
  unfold frame
  cases processed : process settings raw with
  | ok text =>
      rw [← process_ok processed]
      rfl
  | error cause =>
      rw [← process_error processed]
      rfl

theorem outputFrom_append (done : Nat) (earlier later : List (Except DocumentError String)) :
    outputFrom done (earlier ++ later) =
      outputFrom done earlier ++ outputFrom (done + earlier.length) later := by
  have moved : (fun place => outcomeFrame (done + (place + earlier.length))) =
      fun place => outcomeFrame (done + earlier.length + place) := by
    funext place
    rw [Nat.add_comm place, Nat.add_assoc]
  unfold outputFrom
  rw [List.mapIdx_append, String.join_append, moved]

private theorem outputFrom_zero (settings : Settings) (documents : List (List UInt8)) :
    outputFrom 0 (documents.map (process settings)) =
      String.join (frames settings documents) := by
  have same : (documents.map (process settings)).mapIdx
      (fun place => outcomeFrame (0 + place)) = frames settings documents := by
    unfold frames
    rw [List.mapIdx_eq_iff]
    intro place
    rw [List.getElem?_mapIdx, List.getElem?_map, Option.map_map, Nat.zero_add]
    congr 1
    funext raw
    exact (outcomeFrame_process settings place raw).symm
  unfold outputFrom
  rw [same]

end Run

/-- A run that skips, by the outcomes of the documents of its source. -/
theorem run_skip_eq (settings : Settings) {source : Source} {bytes : List UInt8}
    (delivers : source.Delivers bytes) :
    run settings .skip none source =
      ⟨Run.outputFrom 0 ((documentsOf bytes none).map (Run.process settings)),
        .ok ⟨(documentsOf bytes none).length,
          (documentsOf bytes none).countP (fun raw => !Run.succeeds settings raw)⟩⟩ := by
  rw [Run.outputFrom_zero]
  exact Run.skip_ends (run_ends settings .skip none (.whole delivers))

/-- With a delimiter between two streams, the first of which does not end its open piece in a
dash, a source of the whole yields the documents of the first and then those of the second. A run
that skips writes for the whole what it writes for the first and then what it writes for the
second, where each ordinal grows by the number of documents of the first; both counts add up. -/
theorem run_append {x y : List UInt8} {closed : List (List UInt8)} {last : List UInt8}
    (splits : Splits x (closed ++ [last])) (settled : last.getLast? ≠ some 0x2d)
    {first second whole : Source} (firstDelivers : first.Delivers x)
    (secondDelivers : second.Delivers y)
    (wholeDelivers : whole.Delivers (x ++ (delimiter ++ y))) :
    let firstDocuments := (DocumentReader.readAll first).documents
    let secondDocuments := (DocumentReader.readAll second).documents
    DocumentReader.readAll whole = ⟨firstDocuments ++ secondDocuments, false⟩ ∧
    ∀ settings : Settings, ∃ one two : Summary,
      let earlier := firstDocuments.map (Run.process settings)
      let later := secondDocuments.map (Run.process settings)
      run settings .skip none first = ⟨Run.outputFrom 0 earlier, .ok one⟩ ∧
      run settings .skip none second = ⟨Run.outputFrom 0 later, .ok two⟩ ∧
      run settings .skip none whole =
        ⟨Run.outputFrom 0 earlier ++ Run.outputFrom firstDocuments.length later,
          .ok ⟨one.emitted + two.emitted, one.failed + two.failed⟩⟩ := by
  have joined := documentsOf_append (splits.settled settled) y
  have readWhole := (Source.Carries.whole wholeDelivers).readAll_eq
  rw [joined] at readWhole
  rw [(Source.Carries.whole firstDelivers).readAll_eq,
    (Source.Carries.whole secondDelivers).readAll_eq]
  refine ⟨readWhole, fun settings => ⟨_, _, run_skip_eq settings firstDelivers,
    run_skip_eq settings secondDelivers, ?_⟩⟩
  rw [run_skip_eq settings wholeDelivers, joined, List.map_append, Run.outputFrom_append,
    Nat.zero_add, List.length_map, List.length_append, List.countP_append]

/-! The first stream ends in a blank piece. The second starts with a malformed document, which is
its first and the second of the whole. -/

def leadingBytes : List UInt8 := Utf8.encode "\x7b\x7d--- "

def trailingBytes : List UInt8 := Utf8.encode "x---\x7b\x7d"

def joinedSource : Source :=
  ⟨[Utf8.encode "\x7b\x7d--- --", Utf8.encode "-x---\x7b\x7d"], false⟩

def malformedFirst : String :=
  "---\n\x7b\"error\":\"document 1: malformed JSON object: expected value at line 1 " ++
    "column 1\",\"document\":1\x7d\n"

def plainText : String := "\x7b\"results\":\x7b\"orderings\":[\"\"]\x7d,\"linearizations\":1\x7d"

theorem run_append_joined :
    Splits leadingBytes ([Utf8.encode "\x7b\x7d"] ++ [Utf8.encode " "]) ∧
    Source.Delivers ⟨[leadingBytes], false⟩ leadingBytes ∧
    Source.Delivers ⟨[trailingBytes], false⟩ trailingBytes ∧
    joinedSource.Delivers (leadingBytes ++ (delimiter ++ trailingBytes)) ∧
    run plainSettings .skip none ⟨[trailingBytes], false⟩ =
      ⟨String.join [malformedFirst, plainFrame], .ok ⟨2, 1⟩⟩ ∧
    run plainSettings .skip none joinedSource =
      ⟨plainFrame ++ String.join [malformedFrame, plainFrame], .ok ⟨3, 1⟩⟩ := by
  have splits : Splits leadingBytes ([Utf8.encode "\x7b\x7d"] ++ [Utf8.encode " "]) :=
    splits_iff.mpr (by decide)
  have firstDelivers : Source.Delivers ⟨[leadingBytes], false⟩ leadingBytes :=
    .spent (by decide)
  have secondDelivers : Source.Delivers ⟨[trailingBytes], false⟩ trailingBytes :=
    .spent (by decide)
  have wholeDelivers : joinedSource.Delivers (leadingBytes ++ (delimiter ++ trailingBytes)) :=
    .spent (by decide)
  have settled : (Utf8.encode " ").getLast? ≠ some 0x2d := by decide
  obtain ⟨_, runs⟩ := run_append splits settled firstDelivers secondDelivers wholeDelivers
  obtain ⟨one, two, first, second, whole⟩ := runs plainSettings
  have firstOutcomes : (DocumentReader.readAll ⟨[leadingBytes], false⟩).documents.map
      (Run.process plainSettings) = [.ok plainText] := by cbv
  have secondOutcomes : (DocumentReader.readAll ⟨[trailingBytes], false⟩).documents.map
      (Run.process plainSettings) =
        [.error (.malformed ⟨.expectedValue, 1, 1⟩), .ok plainText] := by cbv
  have firstEnded : (run plainSettings .skip none ⟨[leadingBytes], false⟩).result =
      .ok ⟨1, 0⟩ := by cbv
  have secondEnded : (run plainSettings .skip none ⟨[trailingBytes], false⟩).result =
      .ok ⟨2, 1⟩ := by cbv
  have place : (DocumentReader.readAll ⟨[leadingBytes], false⟩).documents.length = 1 := by cbv
  rw [first, Except.ok.injEq] at firstEnded
  rw [second, Except.ok.injEq] at secondEnded
  rw [secondOutcomes, secondEnded] at second
  rw [firstOutcomes, secondOutcomes, place, firstEnded, secondEnded] at whole
  have firstText : Run.outputFrom 0 [.ok plainText] = plainFrame := by cbv
  have secondText : Run.outputFrom 0 [.error (.malformed ⟨.expectedValue, 1, 1⟩), .ok plainText] =
      String.join [malformedFirst, plainFrame] := by cbv
  have laterText : Run.outputFrom 1 [.error (.malformed ⟨.expectedValue, 1, 1⟩), .ok plainText] =
      String.join [malformedFrame, plainFrame] := by cbv
  rw [secondText] at second
  rw [firstText, laterText] at whole
  exact ⟨splits, firstDelivers, secondDelivers, wholeDelivers, second, whole⟩

end Interleave
