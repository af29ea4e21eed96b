import Interleave.Proofs.Reading

set_option autoImplicit false

/-! Reading against framing. A stream of framed texts is read back text by text exactly when no
text is blank and none holds three dashes in a row. Dashes at the ends of a text do no harm, as
line breaks stand between them and the delimiters. -/

open Interleave.Frame

namespace Interleave

namespace Frame

/-! ### Blank texts -/

/-- The characters of ASCII that are white space. -/
def whitespace : List Char := [' ', '\t', '\n', '\x0c', '\r']

private theorem isWhitespace_ascii {char : Char} (ascii : char.toNat < 0x80) :
    isWhitespace (UInt8.ofNat char.toNat) = true ↔ char ∈ whitespace := by
  have table : ∀ point < 0x80,
      isWhitespace (UInt8.ofNat point) = true ↔ Char.ofNat point ∈ whitespace := by decide
  rw [table char.toNat ascii, Char.ofNat_toNat]

private theorem not_isWhitespace_large {byte : UInt8} (large : 0x80 ≤ byte.toNat) :
    isWhitespace byte = false := by
  unfold isWhitespace
  simp only [Bool.or_eq_false_iff, beq_eq_false_iff_ne]
  refine ⟨⟨⟨⟨?_, ?_⟩, ?_⟩, ?_⟩, ?_⟩ <;> rintro rfl <;> exact absurd large (by decide)

private theorem isWhitespace_bytes (char : Char) :
    (∀ byte ∈ String.utf8EncodeChar char, isWhitespace byte = true) ↔ char ∈ whitespace := by
  by_cases ascii : char.toNat < 0x80
  · rw [Utf8.utf8EncodeChar_ascii ascii, ← isWhitespace_ascii ascii]
    simp only [List.mem_singleton, forall_eq]
  · constructor
    · intro blank
      obtain ⟨byte, member⟩ := List.exists_mem_of_ne_nil _ (@String.utf8EncodeChar_ne_nil char)
      have large := Utf8.utf8EncodeChar_large (Nat.le_of_not_lt ascii) member
      have white := blank byte member
      rw [not_isWhitespace_large large] at white
      cases white
    · intro member
      have small : ∀ other ∈ whitespace, other.toNat < 0x80 := by simp [whitespace]
      exact absurd (small char member) ascii

private theorem isBlank_encode (text : String) :
    isBlank (Utf8.encode text) = true ↔ ∀ char ∈ text.toList, char ∈ whitespace := by
  unfold isBlank Utf8.encode
  rw [List.all_flatMap, List.all_eq_true]
  apply forall₂_congr
  intro char _
  rw [List.all_eq_true]
  exact isWhitespace_bytes char

/-! ### Streams of framed texts -/

private theorem encode_frames (texts : List String) :
    Utf8.encode (String.join (texts.map ofText)) =
      (texts.map Utf8.encode).flatMap (fun text => delimiter ++ framed text) := by
  induction texts with
  | nil => rfl
  | cons text texts ih =>
      rw [List.map_cons, List.map_cons, String.join_cons, Utf8.encode_append, encode_ofText, ih,
        List.flatMap_cons]

/-- The documents of a stream of framed texts are these texts, each between line breaks, exactly
when every text is solid and holds no delimiter. -/
theorem documents_frames_iff (texts : List (List UInt8)) :
    nonblank (pieces (texts.flatMap (fun text => delimiter ++ framed text))) =
        texts.map framed ↔
      ∀ text ∈ texts, isBlank text = false ∧ ¬delimiter <:+: text := by
  constructor
  · intro same text member
    have inPieces : framed text ∈
        nonblank (pieces (texts.flatMap (fun text => delimiter ++ framed text))) := by
      rw [same]
      exact List.mem_map_of_mem member
    obtain ⟨isPiece, solid⟩ := List.mem_filter.mp inPieces
    rw [isBlank_framed, Bool.not_eq_true'] at solid
    refine ⟨solid, fun found => ?_⟩
    exact (splits_pieces _).not_delimiter isPiece ((delimiter_framed text).mpr found)
  · intro clean
    rw [nonblank_frames, List.map_eq_flatMap]
    apply List.flatMap_congr
    intro text member
    exact nonblank_framed (clean text member).1 (clean text member).2

end Frame

namespace DocumentReader

/-- However a stream of framed texts is cut into chunks, a reader answers with these texts in
order, each between two line breaks, and then with nothing for ever, exactly when each text has
a character that is no white space and no three dashes in a row. -/
theorem answers_of_frames {texts : List String} {source : Source}
    (delivers : source.Delivers (Utf8.encode (String.join (texts.map ofText)))) :
    (∀ calls, (ofSource source).answer calls =
        .ok (texts.map (fun text => Utf8.encode ("\n" ++ text ++ "\n")))[calls]?) ↔
      ∀ text ∈ texts, (∃ char ∈ text.toList, char ∉ whitespace) ∧
        ¬dashes <:+: text.toList := by
  have answers : ∀ calls, (ofSource source).answer calls =
      .ok (nonblank (pieces (Utf8.encode (String.join (texts.map ofText)))))[calls]? := by
    intro calls
    obtain ⟨same, unbroken⟩ := delivers.bytes_eq
    apply answer_eq
    rw [ofSource_outstanding, same, unbroken]
    rfl
  have lines : texts.map (fun text => Utf8.encode ("\n" ++ text ++ "\n")) =
      (texts.map Utf8.encode).map framed := by
    rw [List.map_map]
    apply List.map_congr_left
    intro text _
    rw [Utf8.encode_append, Utf8.encode_append]
    rfl
  have clean : (∀ text ∈ texts, (∃ char ∈ text.toList, char ∉ whitespace) ∧
      ¬dashes <:+: text.toList) ↔
        ∀ text ∈ texts.map Utf8.encode, isBlank text = false ∧ ¬delimiter <:+: text := by
    rw [List.forall_mem_map]
    apply forall₂_congr
    intro text _
    rw [delimiter_encode, ← Bool.not_eq_true, isBlank_encode]
    push Not
    rfl
  rw [clean, ← documents_frames_iff, ← encode_frames, ← lines]
  constructor
  · intro all
    apply List.ext_getElem?
    intro calls
    exact Except.ok.inj ((answers calls).symm.trans (all calls))
  · intro same calls
    rw [answers, same]

/-! Both texts have dashes at their ends, and two chunks end within a delimiter. -/

def dashedTexts : List String := ["--", "-a-"]

def dashedSource : Source :=
  ⟨[Utf8.encode "--", Utf8.encode "-\n--\n--", Utf8.encode "-\n-a-\n"], false⟩

theorem answers_of_frames_dashes :
    dashedSource.Delivers (Utf8.encode (String.join (dashedTexts.map ofText))) ∧
    (ofSource dashedSource).answer 0 = .ok (some (Utf8.encode "\n--\n")) ∧
    (ofSource dashedSource).answer 1 = .ok (some (Utf8.encode "\n-a-\n")) ∧
    ∀ more, (ofSource dashedSource).answer (2 + more) = .ok none := by
  have delivers : dashedSource.Delivers
      (Utf8.encode (String.join (dashedTexts.map ofText))) := .spent (by decide)
  have clean : ∀ text ∈ dashedTexts, (∃ char ∈ text.toList, char ∉ whitespace) ∧
      ¬dashes <:+: text.toList := by
    intro text member
    rcases List.mem_cons.mp member with rfl | later
    · exact ⟨⟨'-', by decide, by decide⟩, by decide⟩
    · rw [List.mem_singleton.mp later]
      exact ⟨⟨'-', by decide, by decide⟩, by decide⟩
  have answers := (answers_of_frames delivers).mpr clean
  exact ⟨delivers, answers 0, answers 1, fun more => by
    rw [answers, List.getElem?_eq_none (Nat.le_add_right 2 more)]⟩

end DocumentReader

end Interleave
