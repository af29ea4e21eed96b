import Interleave.Proofs.Splitting

set_option autoImplicit false

/-! Call after call of a reader. The answers follow from the bytes alone: the pieces of their
leftmost split that are not blank, in order, and after them nothing for ever. A read that fails
takes the piece that is still open with it. -/

open Interleave.Frame

namespace Interleave

/-! ### Bytes in chunks -/

/-- A source that gives these bytes in chunks, none of them empty, and then comes to its end,
after the last chunk or by an empty one. -/
inductive Source.Delivers : Source → List UInt8 → Prop
  | spent {chunks : List (List UInt8)} (solid : ∀ chunk ∈ chunks, chunk ≠ []) :
      Source.Delivers ⟨chunks, false⟩ chunks.flatten
  | closed {chunks : List (List UInt8)} (solid : ∀ chunk ∈ chunks, chunk ≠ [])
      (later : List (List UInt8)) (fails : Bool) :
      Source.Delivers ⟨chunks ++ [] :: later, fails⟩ chunks.flatten

/-- A source that is to give these bytes, all of them, or only the first `limit` before every
further read fails. -/
inductive Source.Carries : Source → List UInt8 → Option Nat → Prop
  | whole {source : Source} {bytes : List UInt8} (delivers : source.Delivers bytes) :
      Source.Carries source bytes none
  | cut {chunks : List (List UInt8)} {bytes : List UInt8} {limit : Nat}
      (solid : ∀ chunk ∈ chunks, chunk ≠ []) (first : chunks.flatten = bytes.take limit) :
      Source.Carries ⟨chunks, true⟩ bytes (some limit)

private theorem takeWhile_solid {chunks : List (List UInt8)} (solid : ∀ chunk ∈ chunks, chunk ≠ [])
    (later : List (List UInt8)) :
    (chunks ++ later).takeWhile (fun chunk => !chunk.isEmpty) =
      chunks ++ later.takeWhile (fun chunk => !chunk.isEmpty) := by
  apply List.takeWhile_append_of_pos
  intro chunk member
  rw [List.isEmpty_eq_false_iff.mpr (solid chunk member)]
  rfl

theorem Source.Delivers.bytes_eq {source : Source} {bytes : List UInt8}
    (delivers : source.Delivers bytes) : source.bytes = bytes ∧ source.breaks = false := by
  cases delivers with
  | @spent chunks solid =>
      have whole := takeWhile_solid solid []
      rw [List.append_nil, List.takeWhile_nil, List.append_nil] at whole
      refine ⟨?_, rfl⟩
      unfold Source.bytes
      rw [whole]
  | @closed chunks solid later fails =>
      constructor
      · unfold Source.bytes
        rw [takeWhile_solid solid, List.takeWhile_cons_of_neg (by decide), List.append_nil]
      · unfold Source.breaks
        rw [List.all_append, List.all_cons]
        simp

/-- The documents of a stream of these bytes, when only the first of them can be read, or when
all can. -/
def documentsOf (bytes : List UInt8) : (broken : Option Nat) → List (List UInt8)
  | none => nonblank (pieces bytes)
  | some limit => nonblank (closedWithin limit (pieces bytes))

theorem Source.Carries.readAll_eq {source : Source} {bytes : List UInt8} {broken : Option Nat}
    (carries : source.Carries bytes broken) :
    DocumentReader.readAll source = ⟨documentsOf bytes broken, broken.isSome⟩ := by
  rw [DocumentReader.readAll_eq]
  cases carries with
  | whole delivers =>
      obtain ⟨same, unbroken⟩ := delivers.bytes_eq
      rw [same, unbroken]
      rfl
  | @cut chunks bytes limit solid first =>
      have whole := takeWhile_solid solid []
      rw [List.append_nil, List.takeWhile_nil, List.append_nil] at whole
      have given : Source.bytes ⟨chunks, true⟩ = bytes.take limit := by
        unfold Source.bytes
        rw [whole, first]
      have breaks : Source.breaks ⟨chunks, true⟩ = true := by
        unfold Source.breaks
        rw [Bool.true_and, List.all_eq_true]
        intro chunk member
        rw [List.isEmpty_eq_false_iff.mpr (solid chunk member)]
        rfl
      rw [given, breaks]
      unfold DocumentReader.Reading.ofPieces documentsOf
      rw [if_pos rfl, (splits_pieces bytes).dropLast_take]
      rfl

namespace DocumentReader

/-! ### Successive calls -/

def after : (calls : Nat) → DocumentReader → DocumentReader
  | 0, reader => reader
  | calls + 1, reader => after calls reader.next.2

def answer (calls : Nat) (reader : DocumentReader) : Except ReadError (Option (List UInt8)) :=
  (reader.after calls).next.1

private theorem fill_exhausted {fails : Bool} {chunks : List (List UInt8)}
    {passed ahead : List UInt8} (none : (fill fails chunks passed ahead).1 = .ok none) :
    (fill fails chunks passed ahead).2.outstanding = ⟨[], false⟩ := by
  induction chunks generalizing passed ahead with
  | nil =>
      unfold fill at none ⊢
      cases fails with
      | true => cases none
      | false => rfl
  | cons chunk chunks ih =>
      cases chunk with
      | nil => rfl
      | cons byte bytes =>
          unfold fill at none ⊢
          cases found : scan passed (ahead ++ byte :: bytes) with
          | document piece rest =>
              rw [found] at none
              cases none
          | incomplete passed' ahead' =>
              rw [found] at none
              exact ih none

/-- A reader that has answered nothing has nothing more to give. -/
theorem next_exhausted {reader : DocumentReader} (none : reader.next.1 = .ok none) :
    reader.next.2.outstanding = ⟨[], false⟩ := by
  unfold next at none ⊢
  cases found : scan reader.passed reader.ahead with
  | document piece rest =>
      rw [found] at none
      cases none
  | incomplete passed ahead =>
      rw [found] at none
      dsimp only at none ⊢
      cases ended : reader.ended with
      | true => rfl
      | false =>
          rw [ended] at none
          exact fill_exhausted none

/-- A call takes the first of the documents that are left, and leaves the others. -/
theorem next_takes {reader : DocumentReader} {documents : List (List UInt8)}
    (left : reader.outstanding = ⟨documents, false⟩) :
    reader.next.1 = .ok documents.head? ∧
      reader.next.2.outstanding = ⟨documents.tail, false⟩ := by
  have yields := next_yields reader
  rw [left] at yields
  cases answered : reader.next with
  | mk result later =>
      rw [answered] at yields
      cases result with
      | error error => cases yields
      | ok found =>
          cases found with
          | none =>
              have silent : reader.next.1 = .ok none := by rw [answered]
              have exhausted := next_exhausted silent
              rw [answered] at exhausted
              cases yields
              exact ⟨rfl, exhausted⟩
          | some document =>
              change Reading.mk _ _ = Reading.mk _ _ at yields
              rw [Reading.mk.injEq] at yields
              obtain ⟨rfl, unbroken⟩ := yields
              refine ⟨rfl, ?_⟩
              rw [List.tail_cons, unbroken]

/-- With no failing read ahead, the answers are the documents in order and then nothing. -/
theorem answer_eq (calls : Nat) {reader : DocumentReader} {documents : List (List UInt8)}
    (left : reader.outstanding = ⟨documents, false⟩) :
    reader.answer calls = .ok documents[calls]? := by
  induction calls generalizing reader documents with
  | zero =>
      rw [← List.head?_eq_getElem?]
      exact (next_takes left).1
  | succ calls ih =>
      rw [← List.getElem?_tail]
      exact ih (next_takes left).2

/-- However the bytes are cut into chunks, the answers of a reader are the pieces of their
leftmost split that are not blank, byte for byte and in order, and then nothing for ever. -/
theorem answers_of_chunks {source : Source} {bytes : List UInt8}
    (delivers : source.Delivers bytes) :
    ∃ split, (∀ other, Splits bytes other ↔ other = split) ∧
      ∀ calls, (ofSource source).answer calls =
        .ok (split.filter (fun piece => !isBlank piece))[calls]? := by
  refine ⟨pieces bytes, fun other => splits_iff, fun calls => ?_⟩
  obtain ⟨same, unbroken⟩ := delivers.bytes_eq
  apply answer_eq
  rw [ofSource_outstanding, same, unbroken]
  rfl

/-! Delimiters straddle these chunks, a fourth dash belongs to the next piece, and one piece is
blank. -/

def straddling : List (List UInt8) :=
  [Utf8.encode "a-", Utf8.encode "-", Utf8.encode "--", Utf8.encode "b--- ---c-"]

theorem answers_of_chunks_straddling :
    Source.Delivers ⟨straddling, false⟩ straddling.flatten ∧
    (ofSource ⟨straddling, false⟩).answer 0 = .ok (some (Utf8.encode "a")) ∧
    (ofSource ⟨straddling, false⟩).answer 1 = .ok (some (Utf8.encode "-b")) ∧
    (ofSource ⟨straddling, false⟩).answer 2 = .ok (some (Utf8.encode "c-")) ∧
    ∀ more, (ofSource ⟨straddling, false⟩).answer (3 + more) = .ok none := by
  have delivers : Source.Delivers ⟨straddling, false⟩ straddling.flatten :=
    .spent (by decide)
  obtain ⟨split, unique, answers⟩ := answers_of_chunks delivers
  have same : pieces straddling.flatten = split := (unique _).mp (splits_pieces _)
  have documents : split.filter (fun piece => !isBlank piece) =
      [Utf8.encode "a", Utf8.encode "-b", Utf8.encode "c-"] := by
    rw [← same]
    decide
  simp only [answers, documents]
  refine ⟨delivers, rfl, rfl, rfl, fun more => ?_⟩
  rw [List.getElem?_eq_none (Nat.le_add_right 3 more)]

end DocumentReader

end Interleave
