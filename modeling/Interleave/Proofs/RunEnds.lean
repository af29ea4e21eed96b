import Interleave.Proofs.Output
import Interleave.Proofs.Reading

set_option autoImplicit false

/-! How a run comes to its end. One step keeps what is known of the documents written so far;
a run ends when the documents do, when a read or a flush fails, or when a document stops it, and
in each case its output is a row of whole frames. Taking documents one by one, each written
before the next is read, comes to the same end. -/

open Interleave.Frame

namespace Interleave

namespace Run

variable {settings : Settings} {policy : ErrorPolicy} {failing : Option Nat}

def succeeds (settings : Settings) (raw : List UInt8) : Bool := (process settings raw).isOk

def frame (settings : Settings) (place : Nat) (raw : List UInt8) : String :=
  Frame.ofText (textOf (members settings (place + 1) raw))

def frames (settings : Settings) (documents : List (List UInt8)) : List String :=
  documents.mapIdx (frame settings)

private theorem join_frames_concat (documents : List (List UInt8)) (raw : List UInt8) :
    String.join (frames settings (documents ++ [raw])) =
      String.join (frames settings documents) ++ frame settings documents.length raw := by
  unfold frames
  rw [List.mapIdx_concat, String.join_append, String.join_cons, String.join_nil,
    String.append_empty]

/-- The output is the frames of these documents, and none of them failed in a run that
aborts. -/
structure Wrote (settings : Settings) (policy : ErrorPolicy) (documents : List (List UInt8))
    (output : String) : Prop where
  output_eq : output = String.join (frames settings documents)
  passed : policy = .abort → ∀ raw ∈ documents, succeeds settings raw = true

theorem Wrote.next {documents : List (List UInt8)} {output : String}
    (wrote : Wrote settings policy documents output) {raw : List UInt8}
    (passes : policy = .abort → succeeds settings raw = true) :
    Wrote settings policy (documents ++ [raw])
      (output ++ frame settings documents.length raw) where
  output_eq := by rw [join_frames_concat, wrote.output_eq]
  passed aborts other member := by
    rcases List.mem_append.mp member with before | here
    · exact wrote.passed aborts other before
    · rw [List.mem_singleton.mp here]
      exact passes aborts

/-- What is known of a run that has written these documents and goes on. -/
structure Written (settings : Settings) (policy : ErrorPolicy) (failing : Option Nat)
    (documents : List (List UInt8)) (output : String) (summary : Summary) : Prop
    extends Wrote settings policy documents output where
  emitted_eq : summary.emitted = documents.length
  failed_eq : summary.failed = documents.countP (fun raw => !succeeds settings raw)
  flushed : ∀ flush, failing = some flush → 0 < flush → documents.length < flush

theorem Written.start : Written settings policy failing [] "" ⟨0, 0⟩ where
  output_eq := rfl
  passed _ _ absent := absurd absent List.not_mem_nil
  emitted_eq := rfl
  failed_eq := rfl
  flushed _ _ positive := positive

/-- One more document keeps it, when its flush does not fail. -/
theorem Written.next {documents : List (List UInt8)} {output : String} {summary : Summary}
    (written : Written settings policy failing documents output summary) {raw : List UInt8}
    (flushes : failing ≠ some (documents.length + 1))
    (passes : policy = .abort → succeeds settings raw = true) {failed : Nat}
    (counted : failed = if succeeds settings raw then 0 else 1) :
    Written settings policy failing (documents ++ [raw])
      (output ++ frame settings documents.length raw)
      ⟨summary.emitted + 1, summary.failed + failed⟩ where
  toWrote := written.toWrote.next passes
  emitted_eq := by
    rw [List.length_append, List.length_singleton]
    exact congrArg (· + 1) written.emitted_eq
  failed_eq := by
    rw [List.countP_append, ← written.failed_eq, List.countP_singleton, counted]
    cases succeeds settings raw <;> rfl
  flushed flush fails positive := by
    have before := written.flushed flush fails positive
    have different : flush ≠ documents.length + 1 := fun same => flushes (same ▸ fails)
    rw [List.length_append, List.length_singleton]
    omega

theorem Written.summary_eq {documents : List (List UInt8)} {output : String} {summary : Summary}
    (written : Written settings policy failing documents output summary) :
    summary =
      ⟨documents.length, documents.countP (fun raw => !succeeds settings raw)⟩ := by
  rw [← written.emitted_eq, ← written.failed_eq]

/-- The four ends of a run over documents, after which a read fails when `broken`. -/
inductive Ends (settings : Settings) (policy : ErrorPolicy) (failing : Option Nat)
    (broken : Bool) (documents : List (List UInt8)) : RunResult → Prop
  | complete {output : String} {summary : Summary} (unbroken : broken = false)
      (written : Written settings policy failing documents output summary) :
      Ends settings policy failing broken documents ⟨output, .ok summary⟩
  | unread {output : String} {summary : Summary} (breaks : broken = true)
      (written : Written settings policy failing documents output summary) :
      Ends settings policy failing broken documents ⟨output, .error .readFailed⟩
  | unflushed {before later : List (List UInt8)} {output : String}
      (split : documents = before ++ later) (wrote : Wrote settings policy before output)
      (nonempty : before ≠ []) (fails : failing = some before.length) :
      Ends settings policy failing broken documents ⟨output, .error .flushFailed⟩
  | rejected {before later : List (List UInt8)} {raw : List UInt8} {output : String}
      {summary : Summary} {cause : DocumentError} (split : documents = before ++ raw :: later)
      (written : Written settings policy failing before output summary)
      (aborts : policy = .abort) (processed : process settings raw = .error cause) :
      Ends settings policy failing broken documents
        ⟨output, .error (.document (before.length + 1) cause)⟩

private theorem loop_ends {broken : Bool} {before rest : List (List UInt8)} {output : String}
    {summary : Summary} (written : Written settings policy failing before output summary) :
    Ends settings policy failing broken (before ++ rest)
      (loop settings policy failing broken output summary rest) := by
  induction rest generalizing before output summary with
  | nil =>
      rw [List.append_nil]
      unfold loop
      cases broken with
      | true => exact .unread rfl written
      | false => exact .complete rfl written
  | cons raw rest ih =>
      rcases loop_cons_cases settings policy failing broken output summary raw rest with
        ⟨cause, aborts, processed, stops⟩ | ⟨failed, counted, passes, goesOn⟩
      · rw [stops, written.emitted_eq]
        exact .rejected rfl written aborts processed
      · have framed : Frame.ofText (textOf (members settings (summary.emitted + 1) raw)) =
            frame settings before.length raw := by
          rw [written.emitted_eq]
          rfl
        rw [goesOn, framed]
        dsimp only
        by_cases fails : failing = some (before.length + 1)
        · have stops : flushFails failing (summary.emitted + 1) = true := by
            rw [written.emitted_eq, fails]
            exact beq_self_eq_true _
          rw [if_pos stops]
          refine .unflushed (by rw [List.append_assoc, List.singleton_append])
            (written.toWrote.next passes) ?_ ?_
          · exact List.append_ne_nil_of_right_ne_nil _ (List.cons_ne_nil _ _)
          · rw [fails, List.length_append, List.length_singleton]
        · have goes : flushFails failing (summary.emitted + 1) = false := by
            rw [written.emitted_eq]
            exact beq_false_of_ne fails
          rw [if_neg (by rw [goes]; exact Bool.false_ne_true)]
          have later := ih (written.next fails passes counted)
          rw [List.append_assoc] at later
          exact later

end Run

/-- The end of a run on a source that carries some bytes. -/
theorem run_ends (settings : Settings) (policy : ErrorPolicy) (failing : Option Nat)
    {source : Source} {bytes : List UInt8} {broken : Option Nat}
    (carries : source.Carries bytes broken) :
    Run.Ends settings policy failing broken.isSome (documentsOf bytes broken)
      (run settings policy failing source) := by
  unfold run
  rw [carries.readAll_eq]
  exact Run.loop_ends Run.Written.start

/-! ### Reading and writing in turn -/

namespace Run

theorem loop_cons (settings : Settings) (policy : ErrorPolicy) (failing : Option Nat)
    (broken : Bool) (output : String) (summary : Summary) (raw : List UInt8)
    (rest : List (List UInt8)) :
    loop settings policy failing broken output summary (raw :: rest) =
      match loop settings policy failing false output summary [raw] with
      | ⟨output, .ok summary⟩ => loop settings policy failing broken output summary rest
      | stopped => stopped := by
  simp only [loop]
  cases process settings raw with
  | ok text =>
      dsimp only
      cases flushFails failing (summary.emitted + 1) <;> rfl
  | error cause =>
      cases policy with
      | abort => rfl
      | skip =>
          dsimp only
          cases flushFails failing (summary.emitted + 1) <;> rfl

/-- A run that asks its reader for one document, at most `calls` times, and has it written and
flushed before it asks for the next. -/
def inTurn (settings : Settings) (policy : ErrorPolicy) (failing : Option Nat) :
    (calls : Nat) → DocumentReader → (output : String) → Summary → RunResult
  | 0, _, output, summary => ⟨output, .ok summary⟩
  | calls + 1, reader, output, summary =>
      match reader.next with
      | (.error _, _) => ⟨output, .error .readFailed⟩
      | (.ok none, _) => ⟨output, .ok summary⟩
      | (.ok (some raw), reader) =>
          match loop settings policy failing false output summary [raw] with
          | ⟨output, .ok summary⟩ =>
              inTurn settings policy failing calls reader output summary
          | stopped => stopped

private theorem loop_eq_inTurn {settings : Settings} {policy : ErrorPolicy} {failing : Option Nat}
    {calls : Nat} {reader : DocumentReader} (enough : reader.outstanding.documents.length < calls)
    (output : String) (summary : Summary) :
    loop settings policy failing reader.outstanding.failed output summary
        reader.outstanding.documents =
      inTurn settings policy failing calls reader output summary := by
  induction calls generalizing reader output summary with
  | zero => exact absurd enough (Nat.not_lt_zero _)
  | succ calls ih =>
      have yields := DocumentReader.next_yields reader
      unfold inTurn
      cases answered : reader.next with
      | mk result later =>
          rw [answered] at yields
          cases result with
          | error error =>
              change reader.outstanding = _ at yields
              rw [yields]
              rfl
          | ok found =>
              cases found with
              | none =>
                  change reader.outstanding = _ at yields
                  rw [yields]
                  rfl
              | some raw =>
                  change reader.outstanding = _ at yields
                  rw [yields, List.length_cons] at enough
                  rw [yields, loop_cons]
                  dsimp only
                  cases loop settings policy failing false output summary [raw] with
                  | mk output result =>
                      cases result with
                      | error stopped => rfl
                      | ok summary => exact ih (by omega) output summary

end Run

/-- A run writes each document before it reads the next: reading all of them first changes
nothing. -/
theorem run_eq_inTurn (settings : Settings) (policy : ErrorPolicy) (failing : Option Nat)
    (source : Source) :
    run settings policy failing source =
      Run.inTurn settings policy failing (source.chunks.flatten.length + 1)
        (DocumentReader.ofSource source) "" ⟨0, 0⟩ := by
  unfold run
  rw [DocumentReader.readAll_eq_outstanding]
  exact Run.loop_eq_inTurn (DocumentReader.ofSource_documents_lt source) "" ⟨0, 0⟩

/-! ### Failing reads and writes -/

/-- Why a run stops when these documents have been written and those are left. -/
def Run.Stops (settings : Settings) (policy : ErrorPolicy) (failing broken : Option Nat)
    (written left : List (List UInt8)) : Except RunError Summary → Prop
  | .ok summary =>
      left = [] ∧ broken = none ∧
        summary = ⟨written.length, written.countP (fun raw => !succeeds settings raw)⟩
  | .error .readFailed => left = [] ∧ broken ≠ none
  | .error .flushFailed => written ≠ [] ∧ failing = some written.length
  | .error (.document ordinal cause) =>
      policy = .abort ∧ ordinal = written.length + 1 ∧
        ∃ raw later, left = raw :: later ∧ process settings raw = .error cause

/-- Whatever reads and flushes fail, a run has written the whole frames of its first documents,
each of them closed before the failing read. A flush that fails is the last, and stops the run. -/
theorem run_stops (settings : Settings) (policy : ErrorPolicy) (failing : Option Nat)
    {source : Source} {bytes : List UInt8} {broken : Option Nat}
    (carries : source.Carries bytes broken) :
    let outcome := run settings policy failing source
    (∀ limit, broken = some limit → ∀ raw ∈ documentsOf bytes broken,
      ∃ front, front ++ (raw ++ delimiter) <+: bytes.take limit) ∧
    ∃ written left, documentsOf bytes broken = written ++ left ∧
      outcome.output = String.join (Run.frames settings written) ∧
      (policy = .abort → ∀ raw ∈ written, Run.succeeds settings raw = true) ∧
      (∀ flush, failing = some flush → 0 < flush → flush ≤ written.length →
        flush = written.length ∧ outcome.result = .error .flushFailed) ∧
      Run.Stops settings policy failing broken written left outcome.result := by
  intro outcome
  constructor
  · intro limit same raw member
    subst same
    have closed : raw ∈ closedWithin limit (pieces bytes) := List.mem_of_mem_filter member
    exact (splits_pieces bytes).closed_among closed
  · have ends := run_ends settings policy failing carries
    change Run.Ends _ _ _ _ _ outcome at ends
    clear_value outcome
    -- A run that goes on after so many frames has met no failing flush among them.
    have unreached : ∀ {documents output summary},
        Run.Written settings policy failing documents output summary → ∀ flush,
        failing = some flush → 0 < flush → flush ≤ documents.length →
        flush = documents.length ∧ outcome.result = .error .flushFailed := by
      intro documents output summary written flush fails positive reached
      exact absurd reached (Nat.not_le.mpr (written.flushed flush fails positive))
    cases ends with
    | complete unbroken written =>
        refine ⟨_, [], (List.append_nil _).symm, written.output_eq, written.passed,
          unreached written, rfl, ?_, written.summary_eq⟩
        exact Option.not_isSome_iff_eq_none.mp (by rw [unbroken]; exact Bool.false_ne_true)
    | unread breaks written =>
        refine ⟨_, [], (List.append_nil _).symm, written.output_eq, written.passed,
          unreached written, rfl, ?_⟩
        exact Option.isSome_iff_ne_none.mp breaks
    | @unflushed before later output split wrote nonempty fails =>
        refine ⟨before, later, split, wrote.output_eq, wrote.passed, ?_, nonempty, fails⟩
        intro flush found _ _
        rw [fails, Option.some.injEq] at found
        exact ⟨found.symm, rfl⟩
    | rejected split written aborts processed =>
        exact ⟨_, _, split, written.output_eq, written.passed, unreached written, aborts, rfl,
          _, _, rfl, processed⟩

/-! Of three documents, the second malformed and a blank piece after it, the source gives two
before its reads fail; the flush of the second fails first. -/

def threeDocuments : List UInt8 := Utf8.encode "\x7b\x7d---x--- ---\x7b\x7d"

def breakingSource : Source := ⟨[Utf8.encode "\x7b\x7d--", Utf8.encode "-x--- "], true⟩

theorem run_stops_second_flush :
    breakingSource.Carries threeDocuments (some 10) ∧
    (run plainSettings .skip (some 2) breakingSource).result = .error .flushFailed ∧
    ∃ written, written.length = 2 ∧
      documentsOf threeDocuments (some 10) = written ∧
      (run plainSettings .skip (some 2) breakingSource).output =
        String.join (Run.frames plainSettings written) := by
  have carries : breakingSource.Carries threeDocuments (some 10) :=
    .cut (by decide) (by decide)
  have result : (run plainSettings .skip (some 2) breakingSource).result =
      .error .flushFailed := by cbv
  obtain ⟨_, written, left, split, output, _, _, stops⟩ :=
    run_stops plainSettings .skip (some 2) carries
  rw [result] at stops
  have length : written.length = 2 := (Option.some.inj stops.2).symm
  have count : (documentsOf threeDocuments (some 10)).length = 2 := by decide
  have none : left = [] := by
    rw [split, List.length_append, length] at count
    exact List.eq_nil_of_length_eq_zero (by omega)
  rw [none, List.append_nil] at split
  exact ⟨carries, result, written, length, split, output⟩

end Interleave
