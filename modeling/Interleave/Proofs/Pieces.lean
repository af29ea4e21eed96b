import Mathlib
import Interleave.Stream.Reader

set_option autoImplicit false

/-! The pieces of a byte string between its delimiters, cut at the leftmost delimiter again and
again, and the reader against them: however the bytes arrive, it yields the pieces that are not
blank. -/

open Interleave.Frame

namespace Interleave

namespace Frame

/-- What lies between the delimiters, each found leftmost after the one before. -/
def pieces : List UInt8 → List (List UInt8)
  | a :: b :: c :: rest =>
      if a = 0x2d ∧ b = 0x2d ∧ c = 0x2d then [] :: pieces rest
      else (pieces (b :: c :: rest)).modifyHead (a :: ·)
  | short => [short]

private theorem pieces_of_length_lt {bytes : List UInt8} (short : bytes.length < 3) :
    pieces bytes = [bytes] := by
  match bytes, short with
  | [], _ => rfl
  | [_], _ => rfl
  | [_, _], _ => rfl

theorem pieces_delimiter (rest : List UInt8) : pieces (delimiter ++ rest) = [] :: pieces rest := by
  change pieces (0x2d :: 0x2d :: 0x2d :: rest) = _
  rw [pieces, if_pos ⟨rfl, rfl, rfl⟩]

theorem pieces_cons {byte : UInt8} {rest : List UInt8}
    (inside : ¬delimiter <+: byte :: rest) :
    pieces (byte :: rest) = (pieces rest).modifyHead (byte :: ·) := by
  match rest with
  | [] => rfl
  | [_] => rfl
  | b :: c :: rest =>
      rw [pieces, if_neg]
      rintro ⟨rfl, rfl, rfl⟩
      exact inside ⟨rest, rfl⟩

theorem pieces_ne_nil (bytes : List UInt8) : pieces bytes ≠ [] := by
  fun_induction pieces bytes with
  | case1 => exact List.cons_ne_nil _ _
  | case2 a b c rest _ ih =>
      intro empty
      exact ih (List.modifyHead_eq_nil_iff.mp empty)
  | case3 => exact List.cons_ne_nil _ _

def piecesAfter (passed bytes : List UInt8) : List (List UInt8) :=
  (pieces bytes).modifyHead (passed ++ ·)

private theorem piecesAfter_nil (bytes : List UInt8) : piecesAfter [] bytes = pieces bytes := by
  unfold piecesAfter
  cases pieces bytes <;> rfl

private theorem piecesAfter_cons {passed rest : List UInt8} {byte : UInt8}
    (inside : ¬delimiter <+: byte :: rest) :
    piecesAfter passed (byte :: rest) = piecesAfter (passed ++ [byte]) rest := by
  unfold piecesAfter
  rw [pieces_cons inside]
  cases pieces rest with
  | nil => rfl
  | cons piece pieces => simp [List.modifyHead]

private theorem piecesAfter_delimiter (passed rest : List UInt8) :
    piecesAfter passed (delimiter ++ rest) = passed :: pieces rest := by
  unfold piecesAfter
  rw [pieces_delimiter, List.modifyHead_cons, List.append_nil]

private theorem piecesAfter_of_length_lt {passed bytes : List UInt8} (short : bytes.length < 3) :
    piecesAfter passed bytes = [passed ++ bytes] := by
  unfold piecesAfter
  rw [pieces_of_length_lt short, List.modifyHead_cons]

def nonblank (pieces : List (List UInt8)) : List (List UInt8) :=
  pieces.filter (fun piece => !isBlank piece)

end Frame

namespace DocumentReader

/-- What a search comes to, whatever comes after the bytes it has. -/
def Scan.Agrees (passed ahead : List UInt8) : Scan → Prop
  | .document piece rest =>
      isBlank piece = false ∧ ∀ more, ∃ blanks : List (List UInt8),
        nonblank blanks = [] ∧
        piecesAfter passed.reverse (ahead ++ more) = blanks ++ piece :: pieces (rest ++ more)
  | .incomplete passed' ahead' =>
      ahead'.length < 3 ∧ ∀ more, ∃ blanks : List (List UInt8),
        nonblank blanks = [] ∧
        piecesAfter passed.reverse (ahead ++ more) =
          blanks ++ piecesAfter passed'.reverse (ahead' ++ more)

/-- A search that goes on from other bytes comes to the same, when only blank pieces lie
between. -/
theorem Scan.Agrees.of_moved {passed ahead passed' ahead' : List UInt8}
    {skipped : List (List UInt8)} (empty : nonblank skipped = [])
    (moved : ∀ more, piecesAfter passed.reverse (ahead ++ more) =
      skipped ++ piecesAfter passed'.reverse (ahead' ++ more)) {found : Scan}
    (agrees : found.Agrees passed' ahead') : found.Agrees passed ahead := by
  have both : ∀ blanks, nonblank blanks = [] → nonblank (skipped ++ blanks) = [] := by
    intro blanks none
    unfold nonblank at empty none ⊢
    rw [List.filter_append, empty, none, List.append_nil]
  cases found with
  | document piece left =>
      refine ⟨agrees.1, fun more => ?_⟩
      obtain ⟨blanks, none, later⟩ := agrees.2 more
      exact ⟨skipped ++ blanks, both blanks none, by rw [moved, later, List.append_assoc]⟩
  | incomplete passed' ahead' =>
      refine ⟨agrees.1, fun more => ?_⟩
      obtain ⟨blanks, none, later⟩ := agrees.2 more
      exact ⟨skipped ++ blanks, both blanks none, by rw [moved, later, List.append_assoc]⟩

private theorem scan_agrees (passed ahead : List UInt8) :
    (scan passed ahead).Agrees passed ahead := by
  fun_induction scan passed ahead with
  | case1 passed a b c rest isDelimiter blank ih =>
      obtain ⟨rfl, rfl, rfl⟩ := isDelimiter
      have empty : nonblank [passed.reverse] = [] := by
        unfold nonblank
        rw [List.filter_cons_of_neg (by rw [blank]; decide), List.filter_nil]
      apply ih.of_moved empty
      intro more
      rw [List.reverse_nil, piecesAfter_nil]
      exact piecesAfter_delimiter _ _
  | case2 passed a b c rest isDelimiter solid =>
      obtain ⟨rfl, rfl, rfl⟩ := isDelimiter
      refine ⟨Bool.eq_false_iff.mpr solid, fun more => ⟨[], rfl, ?_⟩⟩
      exact piecesAfter_delimiter _ _
  | case3 passed a b c rest other ih =>
      have none : nonblank [] = [] := rfl
      apply ih.of_moved none
      intro more
      rw [List.reverse_cons, List.nil_append]
      apply piecesAfter_cons
      intro isDelimiter
      apply other
      obtain ⟨left, same⟩ := isDelimiter
      cases same
      exact ⟨rfl, rfl, rfl⟩
  | case4 passed ahead short =>
      refine ⟨?_, fun more => ⟨[], rfl, rfl⟩⟩
      match ahead, short with
      | [], _ => exact Nat.zero_lt_succ 2
      | [_], _ => exact Nat.one_lt_succ_succ 1
      | [_, _], _ => exact Nat.lt_succ_self 2
      | a :: b :: c :: rest, short => exact absurd rfl (short a b c rest)

/-! ### Reading on -/

end DocumentReader

/-- The bytes of a source up to its end. -/
def Source.bytes (source : Source) : List UInt8 :=
  (source.chunks.takeWhile (fun chunk => !chunk.isEmpty)).flatten

/-- Whether a failing read ends the source. -/
def Source.breaks (source : Source) : Bool :=
  source.fails && source.chunks.all (fun chunk => !chunk.isEmpty)

namespace DocumentReader

/-- What a source yields when these are the pieces it still has: after a failing read the last
of them is not known to be complete. -/
def Reading.ofPieces (pieces : List (List UInt8)) (breaks : Bool) : Reading :=
  ⟨nonblank (if breaks then pieces.dropLast else pieces), breaks⟩

/-- All that is still to come of a reader. -/
def outstanding (reader : DocumentReader) : Reading :=
  if reader.ended then .ofPieces (piecesAfter reader.passed.reverse reader.ahead) false
  else .ofPieces (piecesAfter reader.passed.reverse (reader.ahead ++ reader.source.bytes))
    reader.source.breaks

/-- One answer of a reader and the reader after it, against all that was still to come. -/
def Yields (reading : Reading) : Except ReadError (Option (List UInt8)) × DocumentReader → Prop
  | (.error _, _) => reading = ⟨[], true⟩
  | (.ok none, _) => reading = ⟨[], false⟩
  | (.ok (some document), reader) =>
      reading = ⟨document :: reader.outstanding.documents, reader.outstanding.failed⟩

private theorem ofPieces_blanks {blanks : List (List UInt8)} (empty : nonblank blanks = [])
    (pieces : List (List UInt8)) (nonempty : pieces ≠ []) (breaks : Bool) :
    Reading.ofPieces (blanks ++ pieces) breaks = Reading.ofPieces pieces breaks := by
  have dropped : ∀ later, nonblank (blanks ++ later) = nonblank later := by
    intro later
    unfold nonblank at empty ⊢
    rw [List.filter_append, empty, List.nil_append]
  unfold Reading.ofPieces
  cases breaks with
  | false => simp only [Bool.false_eq_true, if_false, dropped]
  | true => simp only [if_true, List.dropLast_append_of_ne_nil nonempty, dropped]

private theorem ofPieces_document {piece : List UInt8} (solid : isBlank piece = false)
    (pieces : List (List UInt8)) (nonempty : pieces ≠ []) (breaks : Bool) :
    Reading.ofPieces (piece :: pieces) breaks =
      ⟨piece :: (Reading.ofPieces pieces breaks).documents, breaks⟩ := by
  have kept : ∀ later, nonblank (piece :: later) = piece :: nonblank later := by
    intro later
    exact List.filter_cons_of_pos (by rw [solid]; rfl)
  unfold Reading.ofPieces
  cases breaks with
  | false => simp only [Bool.false_eq_true, if_false, kept]
  | true =>
      simp only [if_true]
      rw [List.dropLast_cons_of_ne_nil nonempty, kept]

private theorem piecesAfter_ne_nil (passed bytes : List UInt8) : piecesAfter passed bytes ≠ [] := by
  unfold piecesAfter
  intro empty
  exact pieces_ne_nil bytes (List.modifyHead_eq_nil_iff.mp empty)

private theorem last_yields (source : Source) (passed ahead : List UInt8) :
    Yields (.ofPieces [passed.reverse ++ ahead] false)
      (.ok (last passed ahead), ⟨source, [], [], true⟩) := by
  unfold last
  cases blank : isBlank (passed.reverse ++ ahead) with
  | true => simp [Yields, Reading.ofPieces, nonblank, blank]
  | false =>
      have spent : outstanding ⟨source, [], [], true⟩ = ⟨[], false⟩ := rfl
      simp [Yields, Reading.ofPieces, nonblank, blank, spent]

theorem document_yields {passed ahead piece rest : List UInt8}
    (found : scan passed ahead = .document piece rest) (more : List UInt8) (breaks : Bool) :
    Reading.ofPieces (piecesAfter passed.reverse (ahead ++ more)) breaks =
      ⟨piece :: (Reading.ofPieces (piecesAfter [] (rest ++ more)) breaks).documents, breaks⟩ := by
  have agrees := scan_agrees passed ahead
  rw [found] at agrees
  obtain ⟨blanks, empty, later⟩ := agrees.2 more
  rw [later, ofPieces_blanks empty _ (List.cons_ne_nil _ _),
    ofPieces_document agrees.1 _ (pieces_ne_nil _), piecesAfter_nil]

private theorem incomplete_yields {passed ahead passed' ahead' : List UInt8}
    (found : scan passed ahead = .incomplete passed' ahead') (more : List UInt8)
    (breaks : Bool) :
    ahead'.length < 3 ∧
    Reading.ofPieces (piecesAfter passed.reverse (ahead ++ more)) breaks =
      Reading.ofPieces (piecesAfter passed'.reverse (ahead' ++ more)) breaks := by
  have agrees := scan_agrees passed ahead
  rw [found] at agrees
  obtain ⟨blanks, empty, later⟩ := agrees.2 more
  exact ⟨agrees.1, by rw [later, ofPieces_blanks empty _ (piecesAfter_ne_nil _ _)]⟩

private theorem fill_yields (fails : Bool) (chunks : List (List UInt8)) (passed ahead : List UInt8)
    (short : ahead.length < 3) :
    Yields (outstanding ⟨⟨chunks, fails⟩, passed, ahead, false⟩)
      (fill fails chunks passed ahead) := by
  induction chunks generalizing passed ahead with
  | nil =>
      have left : outstanding ⟨⟨[], fails⟩, passed, ahead, false⟩ =
          .ofPieces [passed.reverse ++ ahead] fails := by
        simp [outstanding, Source.bytes, Source.breaks, piecesAfter_of_length_lt short]
      rw [left]
      unfold fill
      cases fails with
      | true => rfl
      | false => exact last_yields _ _ _
  | cons chunk chunks ih =>
      cases chunk with
      | nil =>
          have left : outstanding ⟨⟨[] :: chunks, fails⟩, passed, ahead, false⟩ =
              .ofPieces [passed.reverse ++ ahead] false := by
            simp [outstanding, Source.bytes, Source.breaks, piecesAfter_of_length_lt short]
          rw [left]
          exact last_yields _ _ _
      | cons byte bytes =>
          have left : outstanding ⟨⟨(byte :: bytes) :: chunks, fails⟩, passed, ahead, false⟩ =
              .ofPieces (piecesAfter passed.reverse
                (ahead ++ (byte :: bytes) ++ Source.bytes ⟨chunks, fails⟩))
                (Source.breaks ⟨chunks, fails⟩) := by
            simp [outstanding, Source.bytes, Source.breaks]
          rw [left]
          unfold fill
          cases found : scan passed (ahead ++ byte :: bytes) with
          | document piece rest =>
              rw [document_yields found]
              simp [Yields, outstanding, Reading.ofPieces]
          | incomplete passed' ahead' =>
              obtain ⟨shorter, same⟩ := incomplete_yields found (Source.bytes ⟨chunks, fails⟩)
                (Source.breaks ⟨chunks, fails⟩)
              rw [same]
              have later := ih passed' ahead' shorter
              simpa [outstanding] using later

theorem next_yields (reader : DocumentReader) : Yields reader.outstanding reader.next := by
  obtain ⟨source, passed, ahead, ended⟩ := reader
  unfold next
  cases ended with
  | true =>
      have left : outstanding ⟨source, passed, ahead, true⟩ =
          .ofPieces (piecesAfter passed.reverse (ahead ++ [])) false := by
        simp [outstanding]
      rw [left]
      cases found : scan passed ahead with
      | document piece rest =>
          rw [document_yields found]
          simp [Yields, outstanding, Reading.ofPieces]
      | incomplete passed' ahead' =>
          obtain ⟨shorter, same⟩ := incomplete_yields found [] false
          rw [same, List.append_nil, piecesAfter_of_length_lt shorter]
          exact last_yields _ _ _
  | false =>
      have left : outstanding ⟨source, passed, ahead, false⟩ =
          .ofPieces (piecesAfter passed.reverse (ahead ++ source.bytes)) source.breaks := rfl
      cases found : scan passed ahead with
      | document piece rest =>
          rw [left, document_yields found]
          simp [Yields, outstanding, Reading.ofPieces]
      | incomplete passed' ahead' =>
          obtain ⟨shorter, same⟩ := incomplete_yields found source.bytes source.breaks
          rw [left, same]
          exact fill_yields source.fails source.chunks passed' ahead' shorter

theorem drain_eq (calls : Nat) (reader : DocumentReader) (documents : List (List UInt8))
    (enough : reader.outstanding.documents.length < calls) :
    drain calls reader documents =
      ⟨documents.reverse ++ reader.outstanding.documents, reader.outstanding.failed⟩ := by
  induction calls generalizing reader documents with
  | zero => exact absurd enough (Nat.not_lt_zero _)
  | succ calls ih =>
      have yields := next_yields reader
      unfold drain
      cases answer : reader.next with
      | mk result after =>
          rw [answer] at yields
          cases result with
          | error error =>
              change reader.outstanding = _ at yields
              simp [yields]
          | ok found =>
              cases found with
              | none =>
                  change reader.outstanding = _ at yields
                  simp [yields]
              | some document =>
                  change reader.outstanding = _ at yields
                  rw [yields, List.length_cons] at enough
                  simp only [ih after (document :: documents) (by omega), yields]
                  simp

private theorem nonblank_length_le (pieces : List (List UInt8)) :
    (nonblank pieces).length ≤ (pieces.map List.length).sum := by
  unfold nonblank
  induction pieces with
  | nil => exact Nat.le_refl 0
  | cons piece pieces ih =>
      rw [List.map_cons, List.sum_cons]
      cases blank : isBlank piece with
      | true =>
          rw [List.filter_cons_of_neg (by rw [blank]; decide)]
          omega
      | false =>
          rw [List.filter_cons_of_pos (by rw [blank]; rfl), List.length_cons]
          have some : piece.length ≠ 0 := by
            intro none
            rw [List.eq_nil_of_length_eq_zero none] at blank
            cases blank
          omega

private theorem pieces_length_le (bytes : List UInt8) :
    ((pieces bytes).map List.length).sum ≤ bytes.length := by
  fun_induction pieces bytes with
  | case1 a b c rest _ ih =>
      rw [List.map_cons, List.sum_cons]
      simp only [List.length_cons, List.length_nil]
      omega
  | case2 a b c rest _ ih =>
      cases split : pieces (b :: c :: rest) with
      | nil => exact absurd split (pieces_ne_nil _)
      | cons piece pieces =>
          rw [split] at ih
          simp only [List.modifyHead_cons, List.map_cons, List.sum_cons, List.length_cons]
            at ih ⊢
          omega
  | case3 => simp

private theorem bytes_length_le (source : Source) :
    source.bytes.length ≤ source.chunks.flatten.length :=
  (List.takeWhile_sublist _).flatten.length_le

theorem ofSource_outstanding (source : Source) :
    (ofSource source).outstanding = .ofPieces (pieces source.bytes) source.breaks := by
  change Reading.ofPieces (piecesAfter [] ([] ++ source.bytes)) source.breaks = _
  rw [piecesAfter_nil, List.nil_append]

theorem ofSource_documents_lt (source : Source) :
    (ofSource source).outstanding.documents.length < source.chunks.flatten.length + 1 := by
  have inPieces : (ofSource source).outstanding.documents.length ≤
      (nonblank (pieces source.bytes)).length := by
    rw [ofSource_outstanding]
    unfold Reading.ofPieces
    cases source.breaks with
    | false => exact Nat.le_refl _
    | true =>
        exact ((List.dropLast_sublist _).filter _).length_le
  have inBytes := nonblank_length_le (pieces source.bytes)
  have bounded := pieces_length_le source.bytes
  have whole := bytes_length_le source
  omega

theorem readAll_eq_outstanding (source : Source) :
    readAll source = (ofSource source).outstanding :=
  drain_eq _ _ _ (ofSource_documents_lt source)

/-- What a source yields depends on its bytes alone, not on the chunks they arrive in. -/
theorem readAll_eq (source : Source) :
    readAll source = .ofPieces (pieces source.bytes) source.breaks := by
  rw [readAll_eq_outstanding, ofSource_outstanding]

end DocumentReader

end Interleave
