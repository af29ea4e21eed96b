import Interleave.Proofs.Frames

set_option autoImplicit false

/-! What a leftmost split is, said without an algorithm: every piece but the last is followed by
the first delimiter that its bytes take part in, and the last piece holds none. Each byte string
has one such split, and a split of the first bytes closes the same pieces as a split of all. -/

namespace Interleave.Frame

/-- The leftmost split of some bytes. That the delimiter after a piece is the first one in
sight is said of the piece and two dashes: an earlier delimiter would end there at the latest. -/
inductive Splits : List UInt8 → List (List UInt8) → Prop
  | last {piece : List UInt8} (whole : ¬delimiter <:+: piece) : Splits piece [piece]
  | cut {piece rest : List UInt8} {pieces : List (List UInt8)}
      (first : ¬delimiter <:+: piece ++ [0x2d, 0x2d]) (later : Splits rest pieces) :
      Splits (piece ++ (delimiter ++ rest)) (piece :: pieces)

theorem dashes_start (piece rest : List UInt8) :
    piece ++ [0x2d, 0x2d] <+: piece ++ (delimiter ++ rest) :=
  ⟨0x2d :: rest, by rw [List.append_assoc]; rfl⟩

theorem Splits.cons {byte : UInt8} {bytes : List UInt8} {split : List (List UInt8)}
    (inside : ¬delimiter <+: byte :: bytes) (splits : Splits bytes split) :
    Splits (byte :: bytes) (split.modifyHead (byte :: ·)) := by
  cases splits with
  | last whole =>
      apply Splits.last
      rw [List.infix_cons_iff, not_or]
      exact ⟨inside, whole⟩
  | @cut piece rest pieces first later =>
      refine @Splits.cut (byte :: piece) rest pieces ?_ later
      rw [List.cons_append, List.infix_cons_iff, not_or]
      refine ⟨fun isPrefix => inside ?_, first⟩
      exact isPrefix.trans (List.cons_prefix_cons.mpr ⟨rfl, dashes_start piece rest⟩)

theorem splits_pieces (bytes : List UInt8) : Splits bytes (pieces bytes) := by
  fun_induction pieces bytes with
  | case1 a b c rest isDelimiter ih =>
      obtain ⟨rfl, rfl, rfl⟩ := isDelimiter
      have alone : ¬delimiter <:+: ([] : List UInt8) ++ [0x2d, 0x2d] := by decide
      exact Splits.cut alone ih
  | case2 a b c rest other ih => exact ih.cons (fun isPrefix => other (starting_dashes isPrefix))
  | case3 bytes short => exact Splits.last (not_delimiter_of_short short)

theorem pieces_cut {piece : List UInt8} (first : ¬delimiter <:+: piece ++ [0x2d, 0x2d])
    (rest : List UInt8) : pieces (piece ++ (delimiter ++ rest)) = piece :: pieces rest := by
  induction piece with
  | nil => exact pieces_delimiter rest
  | cons byte piece ih =>
      rw [List.cons_append, List.infix_cons_iff, not_or] at first
      have inside : ¬delimiter <+: byte :: (piece ++ (delimiter ++ rest)) := by
        intro isPrefix
        apply first.1
        apply List.prefix_of_prefix_length_le isPrefix
        · exact List.cons_prefix_cons.mpr ⟨rfl, dashes_start piece rest⟩
        · simp only [delimiter, List.length_cons, List.length_append, List.length_nil]
          omega
      rw [List.cons_append, pieces_cons inside, ih first.2, List.modifyHead_cons]

/-- A byte string has one leftmost split. -/
theorem splits_iff {bytes : List UInt8} {split : List (List UInt8)} :
    Splits bytes split ↔ split = pieces bytes := by
  constructor
  · intro splits
    induction splits with
    | last whole => exact (pieces_of_no_delimiter whole).symm
    | cut first later ih => rw [pieces_cut first, ih]
  · intro same
    rw [same]
    exact splits_pieces bytes

theorem Splits.not_delimiter {bytes : List UInt8} {split : List (List UInt8)}
    (splits : Splits bytes split) {piece : List UInt8} (member : piece ∈ split) :
    ¬delimiter <:+: piece := by
  induction splits with
  | last whole =>
      rw [List.mem_singleton.mp member]
      exact whole
  | @cut front rest split first _later ih =>
      rcases List.mem_cons.mp member with same | inLater
      · rw [same]
        exact fun found => first (List.infix_append_of_infix_left found)
      · exact ih inLater

/-! ### The first bytes of a stream -/

/-- The pieces whose closing delimiter lies within the first `limit` bytes; the last piece of a
split has none. -/
def closedWithin : (limit : Nat) → List (List UInt8) → List (List UInt8)
  | limit, piece :: next :: pieces =>
      let length := piece.length + delimiter.length
      if length ≤ limit then piece :: closedWithin (limit - length) (next :: pieces) else []
  | _, _ => []

theorem Splits.closed_among {bytes : List UInt8} {split : List (List UInt8)}
    (splits : Splits bytes split) {limit : Nat} {closed : List UInt8}
    (member : closed ∈ closedWithin limit split) :
    ∃ front, front ++ (closed ++ delimiter) <+: bytes.take limit := by
  induction splits generalizing limit with
  | last => exact absurd member List.not_mem_nil
  | @cut piece rest split first later ih =>
      cases split with
      | nil => exact absurd member List.not_mem_nil
      | cons next others =>
          rw [closedWithin] at member
          by_cases within : piece.length + delimiter.length ≤ limit
          · rw [if_pos within] at member
            have length : (piece ++ delimiter).length = piece.length + delimiter.length :=
              List.length_append
            rw [← List.append_assoc, List.take_append, List.take_of_length_le (by omega), length]
            rcases List.mem_cons.mp member with same | inLater
            · exact ⟨[], by rw [same]; exact List.prefix_append _ _⟩
            · obtain ⟨front, isPrefix⟩ := ih inLater
              refine ⟨piece ++ delimiter ++ front, ?_⟩
              rw [List.append_assoc (piece ++ delimiter)]
              exact (List.prefix_append_right_inj _).mpr isPrefix
          · rw [if_neg within] at member
            exact absurd member List.not_mem_nil

/-- The first bytes of a stream close the pieces of the whole whose delimiters they hold. -/
theorem Splits.dropLast_take {bytes : List UInt8} {split : List (List UInt8)}
    (splits : Splits bytes split) (limit : Nat) :
    (pieces (bytes.take limit)).dropLast = closedWithin limit split := by
  induction splits generalizing limit with
  | @last piece whole =>
      have none : ¬delimiter <:+: piece.take limit := by
        intro found
        exact whole (found.trans (List.take_prefix limit piece).isInfix)
      rw [pieces_of_no_delimiter none]
      rfl
  | @cut piece rest split first later ih =>
      have nonempty : split ≠ [] := by
        rw [splits_iff.mp later]
        exact pieces_ne_nil rest
      obtain ⟨next, others, same⟩ := List.exists_cons_of_ne_nil nonempty
      have length : (piece ++ delimiter).length = piece.length + delimiter.length :=
        List.length_append
      rw [same, closedWithin, ← same]
      by_cases within : piece.length + delimiter.length ≤ limit
      · rw [if_pos within, ← List.append_assoc, List.take_append,
          List.take_of_length_le (by omega), List.append_assoc, pieces_cut first,
          List.dropLast_cons_of_ne_nil (pieces_ne_nil _), ih, length]
      · have short : (piece ++ (delimiter ++ rest)).take limit <+: piece ++ [0x2d, 0x2d] := by
          apply List.prefix_of_prefix_length_le (List.take_prefix _ _) (dashes_start piece rest)
          simp only [delimiter, List.length_append, List.length_cons, List.length_nil,
            List.length_take] at within ⊢
          omega
        have none : ¬delimiter <:+: (piece ++ (delimiter ++ rest)).take limit :=
          fun found => first (found.trans short.isInfix)
        rw [if_neg within, pieces_of_no_delimiter none]
        rfl

end Interleave.Frame
