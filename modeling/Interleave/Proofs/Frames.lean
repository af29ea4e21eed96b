import Interleave.Proofs.Dashes
import Interleave.Proofs.Pieces

set_option autoImplicit false

/-! Streams of frames. The pieces of a stream are those of its parts, and a text is one document
again exactly when it holds no delimiter. -/

namespace Interleave.Frame

/-! ### Pieces of parts -/

/-- The last piece does not end in a dash, so that a delimiter after it begins there. -/
def Settled (pieces : List (List UInt8)) : Prop :=
  ∀ last ∈ pieces.getLast?, last.getLast? ≠ some 0x2d

private theorem settled_tail {piece : List UInt8} {pieces : List (List UInt8)}
    (nonempty : pieces ≠ []) (settled : Settled (piece :: pieces)) : Settled pieces := by
  intro last found
  apply settled
  rw [List.getLast?_cons_of_ne_nil nonempty]
  exact found

private theorem settled_modifyHead {byte : UInt8} {pieces : List (List UInt8)}
    (settled : Settled (pieces.modifyHead (byte :: ·))) : Settled pieces := by
  intro last found
  match pieces with
  | [] => cases found
  | [only] =>
      cases found
      have whole := settled (byte :: only) rfl
      cases only with
      | nil => exact fun same => by cases same
      | cons first only =>
          rw [List.getLast?_cons_of_ne_nil (List.cons_ne_nil _ _)] at whole
          exact whole
  | first :: second :: others => exact settled last found

theorem starting_dashes {a b c : UInt8} {rest : List UInt8}
    (isPrefix : delimiter <+: a :: b :: c :: rest) : a = 0x2d ∧ b = 0x2d ∧ c = 0x2d := by
  obtain ⟨tail, same⟩ := isPrefix
  cases same
  exact ⟨rfl, rfl, rfl⟩

theorem not_delimiter_of_short {bytes : List UInt8}
    (short : ∀ a b c rest, bytes = a :: b :: c :: rest → False) : ¬delimiter <:+: bytes := by
  intro found
  have three : 3 ≤ bytes.length := found.length_le
  match bytes, short, three with
  | [], _, three => exact absurd three (Nat.not_succ_le_zero 2)
  | [_], _, three => exact absurd three (Nat.not_succ_le_self 1 ∘ Nat.le_of_succ_le)
  | [_, _], _, three => exact absurd three (Nat.not_succ_le_self 2)
  | a :: b :: c :: rest, short, _ => exact short a b c rest rfl

theorem pieces_solid {byte : UInt8} (other : byte ≠ 0x2d) (rest : List UInt8) :
    pieces (byte :: rest) = (pieces rest).modifyHead (byte :: ·) := by
  apply pieces_cons
  rintro ⟨tail, same⟩
  exact other (List.cons.inj same).1.symm

private theorem pieces_inside {a b c : UInt8} (other : ¬(a = 0x2d ∧ b = 0x2d ∧ c = 0x2d))
    (rest : List UInt8) :
    pieces (a :: b :: c :: rest) = (pieces (b :: c :: rest)).modifyHead (a :: ·) :=
  pieces_cons (fun isPrefix => other (starting_dashes isPrefix))

/-- A front of at most two bytes is a piece of its own before a delimiter, unless it ends in a
dash. -/
theorem pieces_append_short {front : List UInt8}
    (short : ∀ a b c rest, front = a :: b :: c :: rest → False)
    (last : front.getLast? ≠ some 0x2d) (back : List UInt8) :
    pieces (front ++ (delimiter ++ back)) = front :: pieces back := by
  match front, short, last with
  | [], _, _ => exact pieces_delimiter back
  | [x], _, last =>
      have other : x ≠ 0x2d := fun same => last (by rw [same]; rfl)
      rw [List.singleton_append, pieces_solid other, pieces_delimiter]
      rfl
  | [x, y], _, last =>
      have other : y ≠ 0x2d := fun same => last (by rw [same]; rfl)
      have first : pieces ([x, y] ++ (delimiter ++ back)) =
          (pieces (y :: (delimiter ++ back))).modifyHead (x :: ·) :=
        pieces_inside (fun dashes => other dashes.2.1) _
      rw [first, pieces_solid other, pieces_delimiter]
      rfl
  | x :: y :: z :: rest, short, _ => exact absurd rfl (short x y z rest)

theorem pieces_append {front : List UInt8} (settled : Settled (pieces front))
    (back : List UInt8) :
    pieces (front ++ (delimiter ++ back)) = pieces front ++ pieces back := by
  fun_induction pieces front with
  | case1 a b c rest isDelimiter ih =>
      obtain ⟨rfl, rfl, rfl⟩ := isDelimiter
      have first : pieces (0x2d :: 0x2d :: 0x2d :: rest ++ (delimiter ++ back)) =
          [] :: pieces (rest ++ (delimiter ++ back)) := pieces_delimiter _
      rw [first, ih (settled_tail (pieces_ne_nil rest) settled), List.cons_append]
  | case2 a b c rest other ih =>
      have first : pieces (a :: b :: c :: rest ++ (delimiter ++ back)) =
          (pieces (b :: c :: rest ++ (delimiter ++ back))).modifyHead (a :: ·) :=
        pieces_inside other _
      rw [first, ih (settled_modifyHead settled)]
      cases split : pieces (b :: c :: rest) with
      | nil => exact absurd split (pieces_ne_nil _)
      | cons piece others => rfl
  | case3 front short => exact pieces_append_short short (settled front rfl) back

theorem pieces_of_no_delimiter {bytes : List UInt8} (none : ¬delimiter <:+: bytes) :
    pieces bytes = [bytes] := by
  fun_induction pieces bytes with
  | case1 a b c rest isDelimiter _ =>
      obtain ⟨rfl, rfl, rfl⟩ := isDelimiter
      exact absurd ⟨[], rest, rfl⟩ none
  | case2 a b c rest _ ih =>
      have later : ¬delimiter <:+: b :: c :: rest := fun found =>
        none (List.infix_cons_iff.mpr (Or.inr found))
      rw [ih later, List.modifyHead_cons]
  | case3 => rfl

theorem two_le_pieces {bytes : List UInt8} (found : delimiter <:+: bytes) :
    2 ≤ (pieces bytes).length := by
  fun_induction pieces bytes with
  | case1 a b c rest _ _ =>
      have later := List.length_pos_of_ne_nil (pieces_ne_nil rest)
      rw [List.length_cons]
      omega
  | case2 a b c rest other ih =>
      rw [List.length_modifyHead]
      apply ih
      rcases List.infix_cons_iff.mp found with isPrefix | inRest
      · exact absurd (starting_dashes isPrefix) other
      · exact inRest
  | case3 bytes short => exact absurd found (not_delimiter_of_short short)

theorem pieces_concat (bytes : List UInt8) {byte : UInt8} (other : byte ≠ 0x2d) :
    ∃ others last, pieces bytes = others ++ [last] ∧
      pieces (bytes ++ [byte]) = others ++ [last ++ [byte]] := by
  fun_induction pieces bytes with
  | case1 a b c rest isDelimiter ih =>
      obtain ⟨rfl, rfl, rfl⟩ := isDelimiter
      obtain ⟨others, last, same, longer⟩ := ih
      refine ⟨[] :: others, last, by rw [same]; rfl, ?_⟩
      have first : pieces (0x2d :: 0x2d :: 0x2d :: rest ++ [byte]) =
          [] :: pieces (rest ++ [byte]) := pieces_delimiter _
      rw [first, longer]
      rfl
  | case2 a b c rest inside ih =>
      obtain ⟨others, last, same, longer⟩ := ih
      have first : pieces (a :: b :: c :: rest ++ [byte]) =
          (pieces (b :: c :: rest ++ [byte])).modifyHead (a :: ·) := pieces_inside inside _
      rw [first, longer, same]
      cases others with
      | nil => exact ⟨[], a :: last, rfl, rfl⟩
      | cons piece others => exact ⟨(a :: piece) :: others, last, rfl, rfl⟩
  | case3 bytes short =>
      refine ⟨[], bytes, rfl, ?_⟩
      have solid : [byte].head? ≠ some 0x2d := by
        intro same
        exact other (Option.some.inj same)
      apply pieces_of_no_delimiter
      rw [delimiter_append _ solid, delimiter_cons other, not_or]
      exact ⟨not_delimiter_of_short short, not_delimiter_nil⟩

/-! ### Frames -/

/-- What stands in the stream for a text after its delimiter. -/
def framed (text : List UInt8) : List UInt8 := 0x0a :: (text ++ [0x0a])

theorem encode_ofText (text : String) :
    Utf8.encode (ofText text) = delimiter ++ framed (Utf8.encode text) := by
  unfold ofText
  rw [Utf8.encode_append, Utf8.encode_append]
  rfl

private theorem settled_framed (text : List UInt8) : Settled (pieces (framed text)) := by
  have other : (0x0a : UInt8) ≠ 0x2d := by decide
  obtain ⟨others, last, _, whole⟩ := pieces_concat (0x0a :: text) other
  intro found isLast
  change found ∈ (pieces (0x0a :: text ++ [0x0a])).getLast? at isLast
  rw [whole, List.getLast?_concat, Option.mem_some_iff] at isLast
  rw [← isLast, List.getLast?_concat]
  exact fun same => other (Option.some.inj same)

private theorem pieces_frames {front : List UInt8} (settled : Settled (pieces front))
    (texts : List (List UInt8)) :
    pieces (front ++ texts.flatMap (fun text => delimiter ++ framed text)) =
      pieces front ++ texts.flatMap (fun text => pieces (framed text)) := by
  induction texts generalizing front with
  | nil => rw [List.flatMap_nil, List.flatMap_nil, List.append_nil, List.append_nil]
  | cons text texts ih =>
      rw [List.flatMap_cons, List.flatMap_cons, List.append_assoc delimiter,
        pieces_append settled, ih (settled_framed text)]

/-- The documents in a stream of frames are those of each frame by itself. -/
theorem nonblank_frames (texts : List (List UInt8)) :
    nonblank (pieces (texts.flatMap (fun text => delimiter ++ framed text))) =
      texts.flatMap (fun text => nonblank (pieces (framed text))) := by
  have start : Settled (pieces []) := by
    intro last found
    cases found
    exact fun same => by cases same
  have split := pieces_frames start texts
  rw [List.nil_append] at split
  rw [split]
  unfold nonblank
  rw [List.filter_append, List.filter_flatMap]
  rfl

def Braced (text : List UInt8) : Prop := ∃ inside, text = 0x7b :: (inside ++ [0x7d])

private theorem isBlank_of_mem {piece : List UInt8} {byte : UInt8} (member : byte ∈ piece)
    (solid : isWhitespace byte = false) : isBlank piece = false := by
  unfold isBlank
  rw [List.all_eq_false]
  exact ⟨byte, member, by rw [solid]; exact Bool.false_ne_true⟩

theorem Braced.solid {text : List UInt8} (braced : Braced text) : isBlank text = false := by
  obtain ⟨inside, rfl⟩ := braced
  exact isBlank_of_mem List.mem_cons_self (by decide)

theorem isBlank_framed (text : List UInt8) : isBlank (framed text) = isBlank text := by
  have lineBreak : isWhitespace 0x0a = true := by decide
  unfold isBlank framed
  rw [List.all_cons, List.all_append, List.all_cons, List.all_nil, lineBreak, Bool.true_and,
    Bool.true_and, Bool.and_true]

theorem delimiter_framed (text : List UInt8) :
    delimiter <:+: framed text ↔ delimiter <:+: text := by
  have lineBreak : (0x0a : UInt8) ≠ 0x2d := by decide
  have last : ([0x0a] : List UInt8).head? ≠ some 0x2d := by decide
  unfold framed
  rw [delimiter_cons lineBreak, delimiter_append _ last, delimiter_cons lineBreak]
  exact or_iff_left not_delimiter_nil

theorem nonblank_framed {text : List UInt8} (solid : isBlank text = false)
    (clean : ¬delimiter <:+: text) : nonblank (pieces (framed text)) = [framed text] := by
  rw [pieces_of_no_delimiter (fun found => clean ((delimiter_framed text).mp found))]
  unfold nonblank
  rw [List.filter_cons_of_pos (by rw [isBlank_framed, solid]; rfl), List.filter_nil]

private theorem pieces_framed_first (inside : List UInt8) :
    ∃ first others, pieces (framed (0x7b :: (inside ++ [0x7d]))) =
      (0x0a :: 0x7b :: first) :: others := by
  have outer : pieces (framed (0x7b :: (inside ++ [0x7d]))) =
      (pieces (0x7b :: (inside ++ [0x7d] ++ [0x0a]))).modifyHead (0x0a :: ·) :=
    pieces_solid (by decide) _
  have inner : pieces (0x7b :: (inside ++ [0x7d] ++ [0x0a])) =
      (pieces (inside ++ [0x7d] ++ [0x0a])).modifyHead (0x7b :: ·) := pieces_solid (by decide) _
  cases split : pieces (inside ++ [0x7d] ++ [0x0a]) with
  | nil => exact absurd split (pieces_ne_nil _)
  | cons first others => exact ⟨first, others, by rw [outer, inner, split]; rfl⟩

private theorem pieces_framed_last (inside : List UInt8) :
    ∃ others last, pieces (framed (0x7b :: (inside ++ [0x7d]))) =
      others ++ [last ++ [0x7d] ++ [0x0a]] := by
  have brace : (0x7d : UInt8) ≠ 0x2d := by decide
  have lineBreak : (0x0a : UInt8) ≠ 0x2d := by decide
  obtain ⟨_, last, _, shorter⟩ := pieces_concat (0x0a :: 0x7b :: inside) brace
  obtain ⟨others, last', same, whole⟩ :=
    pieces_concat (0x0a :: 0x7b :: inside ++ [0x7d]) lineBreak
  rw [shorter] at same
  have lasts := (List.append_inj' same rfl).2
  rw [List.cons.injEq] at lasts
  exact ⟨others, last, by rw [lasts.1]; exact whole⟩

private theorem two_le_nonblank_framed {text : List UInt8} (braced : Braced text)
    (found : delimiter <:+: text) : 2 ≤ (nonblank (pieces (framed text))).length := by
  have more : 2 ≤ (pieces (framed text)).length :=
    two_le_pieces ((delimiter_framed text).mpr found)
  obtain ⟨inside, rfl⟩ := braced
  obtain ⟨first, later, atFront⟩ := pieces_framed_first inside
  obtain ⟨earlier, last, atBack⟩ := pieces_framed_last inside
  have solidFirst : isBlank (0x0a :: 0x7b :: first) = false :=
    isBlank_of_mem (List.mem_cons_of_mem _ List.mem_cons_self) (by decide)
  have solidLast : isBlank (last ++ [0x7d] ++ [0x0a]) = false :=
    isBlank_of_mem (List.mem_append_left _ (List.mem_append_right _ List.mem_cons_self))
      (by decide)
  cases earlier with
  | nil =>
      rw [atBack] at more
      exact absurd more (Nat.not_succ_le_self 1)
  | cons piece earlier =>
      rw [atBack, List.cons_append, List.cons.injEq] at atFront
      unfold nonblank
      rw [atBack, List.cons_append, atFront.1,
        List.filter_cons_of_pos (by rw [solidFirst]; rfl), List.filter_append,
        List.filter_cons_of_pos (by rw [solidLast]; rfl), List.length_cons, List.length_append,
        List.length_cons]
      omega

/-- A stream of braced texts has a document for each of them only when no text holds a
delimiter, and the texts themselves are its documents then. -/
theorem nonblank_frames_iff {texts : List (List UInt8)} (braced : ∀ text ∈ texts, Braced text) :
    ((nonblank (pieces (texts.flatMap (fun text => delimiter ++ framed text)))).length =
        texts.length ↔ ∀ text ∈ texts, ¬delimiter <:+: text) ∧
    ((∀ text ∈ texts, ¬delimiter <:+: text) →
      nonblank (pieces (texts.flatMap (fun text => delimiter ++ framed text))) =
        texts.map framed) := by
  have clean : (∀ text ∈ texts, ¬delimiter <:+: text) →
      nonblank (pieces (texts.flatMap (fun text => delimiter ++ framed text))) =
        texts.map framed := by
    intro all
    rw [nonblank_frames]
    have each : ∀ text ∈ texts, nonblank (pieces (framed text)) = [framed text] := by
      intro text member
      exact nonblank_framed (braced text member).solid (all text member)
    rw [List.flatMap_congr each, List.map_eq_flatMap]
  refine ⟨⟨?_, ?_⟩, clean⟩
  · intro same text member found
    rw [nonblank_frames, List.length_flatMap] at same
    have least : ∀ other ∈ texts, 1 ≤ (nonblank (pieces (framed other))).length := by
      intro other present
      by_cases inOther : delimiter <:+: other
      · exact Nat.le_of_succ_le (two_le_nonblank_framed (braced other present) inOther)
      · rw [nonblank_framed (braced other present).solid inOther]
        exact Nat.le_refl 1
    have strict : texts.length <
        (texts.map (fun text => (nonblank (pieces (framed text))).length)).sum := by
      have count : texts.length = (texts.map (fun _ => 1)).sum := by
        rw [List.map_const', List.sum_replicate, Nat.nsmul_eq_mul, Nat.mul_one]
      rw [count]
      exact List.sum_lt_sum _ _ least
        ⟨text, member, two_le_nonblank_framed (braced text member) found⟩
    omega
  · intro all
    rw [clean all, List.length_map]

end Interleave.Frame
