import Interleave.Proofs.Numerals
import Interleave.Proofs.Spelling
import Interleave.Stream.Frame

set_option autoImplicit false

/-! Where three dashes follow one another in a printed value: in its names and strings, and
nowhere else. -/

open Interleave.Utf8 Interleave.Frame

namespace Interleave

namespace Frame

def dashes : List Char := ['-', '-', '-']

theorem delimiter_append (left : List UInt8) {right : List UInt8}
    (other : right.head? ≠ some 0x2d) :
    delimiter <:+: left ++ right ↔ delimiter <:+: left ∨ delimiter <:+: right := by
  rw [List.infix_append_iff_ne_nil]
  constructor
  · intro found
    rcases found with inLeft | inRight | ⟨front, back, _, nonempty, split, _, isPrefix⟩
    · exact Or.inl inLeft
    · exact Or.inr inRight
    · exfalso
      apply other
      cases back with
      | nil => exact absurd rfl nonempty
      | cons byte back =>
          have member : byte ∈ delimiter := by
            rw [split]
            exact List.mem_append_right _ List.mem_cons_self
          have dash : byte = 0x2d := by
            unfold delimiter at member
            simpa using member
          obtain ⟨rest, same⟩ := isPrefix
          rw [← same, dash]
          rfl
  · intro found
    rcases found with inLeft | inRight
    · exact Or.inl inLeft
    · exact Or.inr (Or.inl inRight)

theorem not_delimiter_nil : ¬delimiter <:+: [] := by
  intro found
  have length := found.length_le
  exact absurd length (by decide)

theorem delimiter_cons {byte : UInt8} (other : byte ≠ 0x2d) (rest : List UInt8) :
    delimiter <:+: byte :: rest ↔ delimiter <:+: rest := by
  rw [List.infix_cons_iff]
  constructor
  · intro found
    rcases found with isPrefix | inRest
    · obtain ⟨tail, same⟩ := isPrefix
      have heads := congrArg List.head? same
      change some (0x2d : UInt8) = some byte at heads
      rw [Option.some.injEq] at heads
      exact absurd heads.symm other
    · exact inRest
  · exact Or.inr

/-- Bytes that are no dashes hide no delimiter in front of others. -/
theorem delimiter_solid {front : List UInt8} (other : ∀ byte ∈ front, byte ≠ 0x2d)
    (rest : List UInt8) : delimiter <:+: front ++ rest ↔ delimiter <:+: rest := by
  induction front with
  | nil => rfl
  | cons byte front ih =>
      rw [List.cons_append, delimiter_cons (other byte List.mem_cons_self)]
      exact ih (fun next member => other next (List.mem_cons_of_mem _ member))

private theorem not_delimiter_of_count {bytes : List UInt8} (few : bytes.count 0x2d ≤ 2) :
    ¬delimiter <:+: bytes := by
  intro found
  have more := found.sublist.count_le (0x2d : UInt8)
  have three : delimiter.count 0x2d = 3 := rfl
  omega

/-! ### Spellings of characters -/

/-- A spelling that writes a dash as itself, and none for any other character. -/
structure Dashed (spell : Char → List UInt8) : Prop where
  dash : spell '-' = [0x2d]
  other : ∀ char, char ≠ '-' → spell char ≠ [] ∧ ∀ byte ∈ spell char, byte ≠ 0x2d

theorem Dashed.prefix_iff {spell : Char → List UInt8} (dashed : Dashed spell) (count : Nat)
    (chars : List Char) :
    List.replicate count (0x2d : UInt8) <+: chars.flatMap spell ↔
      List.replicate count '-' <+: chars := by
  induction chars generalizing count with
  | nil =>
      cases count with
      | zero => exact Iff.intro (fun _ => List.nil_prefix) (fun _ => List.nil_prefix)
      | succ count =>
          rw [List.replicate_succ, List.replicate_succ, List.flatMap_nil, List.prefix_nil,
            List.prefix_nil]
          exact iff_of_false (List.cons_ne_nil _ _) (List.cons_ne_nil _ _)
  | cons char chars ih =>
      cases count with
      | zero => exact Iff.intro (fun _ => List.nil_prefix) (fun _ => List.nil_prefix)
      | succ count =>
          rw [List.flatMap_cons, List.replicate_succ, List.replicate_succ,
            List.cons_prefix_cons]
          by_cases dash : char = '-'
          · rw [dash, dashed.dash, List.singleton_append, List.cons_prefix_cons, ih]
            exact and_congr_left' (iff_of_true rfl rfl)
          · obtain ⟨nonempty, plain⟩ := dashed.other char dash
            cases written : spell char with
            | nil => exact absurd written nonempty
            | cons byte others =>
                have different := plain byte (by rw [written]; exact List.mem_cons_self)
                rw [List.cons_append, List.cons_prefix_cons]
                exact iff_of_false (fun both => different both.1.symm)
                  (fun both => dash both.1.symm)

/-- Three dashes are written for three dashes only. -/
theorem Dashed.delimiter_iff {spell : Char → List UInt8} (dashed : Dashed spell)
    (chars : List Char) : delimiter <:+: chars.flatMap spell ↔ dashes <:+: chars := by
  induction chars with
  | nil => exact iff_of_false not_delimiter_nil (by decide)
  | cons char chars ih =>
      have first := dashed.prefix_iff 3 (char :: chars)
      change delimiter <+: _ ↔ dashes <+: _ at first
      rw [List.infix_cons_iff, ← first, ← ih, List.flatMap_cons]
      by_cases dash : char = '-'
      · rw [dash, dashed.dash, List.singleton_append, List.infix_cons_iff]
      · obtain ⟨_, plain⟩ := dashed.other char dash
        rw [delimiter_solid plain]
        constructor
        · exact Or.inr
        · intro found
          rcases found with isPrefix | later
          · rw [← List.flatMap_cons] at isPrefix
            have heads := first.mp isPrefix
            obtain ⟨tail, same⟩ := heads
            have impossible := congrArg List.head? same
            change some '-' = some char at impossible
            rw [Option.some.injEq] at impossible
            exact absurd impossible.symm dash
          · exact later

private theorem dashed_utf8 : Dashed String.utf8EncodeChar where
  dash := utf8EncodeChar_ascii (by decide)
  other char other := by
    refine ⟨String.utf8EncodeChar_ne_nil, ?_⟩
    intro byte member same
    by_cases small : char.toNat < 0x80
    · rw [utf8EncodeChar_ascii small, List.mem_singleton] at member
      have points := congrArg UInt8.toNat (member.symm.trans same)
      rw [toNat_byte (by omega)] at points
      exact other (Char.toNat_inj.mp points)
    · have large := utf8EncodeChar_large (Nat.le_of_not_lt small) member
      rw [same] at large
      exact absurd large (by decide)

theorem delimiter_encode (text : String) :
    delimiter <:+: encode text ↔ dashes <:+: text.toList :=
  dashed_utf8.delimiter_iff text.toList

end Frame

/-! ### Strings -/

namespace Json

private theorem bytes_escape_dash : bytes (escape '-') = [0x2d] := by decide +kernel

private theorem hexDigit_ne_dash {value : Nat} (small : value < 16) :
    (Hex.digit value).toNat < 0x80 ∧ UInt8.ofNat (Hex.digit value).toNat ≠ 0x2d := by
  revert value
  decide

private theorem bytes_ascii_other {chars : List Char} (nonempty : chars ≠ [])
    (plain : ∀ char ∈ chars, char.toNat < 0x80 ∧ UInt8.ofNat char.toNat ≠ 0x2d) :
    bytes chars ≠ [] ∧ ∀ byte ∈ bytes chars, byte ≠ 0x2d := by
  constructor
  · cases chars with
    | nil => exact absurd rfl nonempty
    | cons first chars =>
        rw [bytes_cons_ascii (plain first List.mem_cons_self).1]
        exact List.cons_ne_nil _ _
  · intro byte member
    obtain ⟨char, present, inChar⟩ := List.mem_flatMap.mp member
    rw [utf8EncodeChar_ascii (plain char present).1, List.mem_singleton] at inChar
    rw [inChar]
    exact (plain char present).2

private theorem bytes_short_other {letter : Char} (ascii : letter.toNat < 0x80)
    (other : UInt8.ofNat letter.toNat ≠ 0x2d) :
    bytes ['\\', letter] ≠ [] ∧ ∀ byte ∈ bytes ['\\', letter], byte ≠ 0x2d := by
  apply bytes_ascii_other (List.cons_ne_nil _ _)
  simp only [List.mem_cons, List.not_mem_nil, or_false, forall_eq_or_imp, forall_eq]
  exact ⟨by decide, ascii, other⟩

/-- A character that is no dash is written without dashes. -/
theorem bytes_escape_other {char : Char} (other : char ≠ '-') :
    bytes (escape char) ≠ [] ∧ ∀ byte ∈ bytes (escape char), byte ≠ 0x2d := by
  unfold escape
  split_ifs with quote slash backspace formFeed lineFeed carriageReturn tab control
  · exact bytes_short_other (by decide) (by decide)
  · exact bytes_short_other (by decide) (by decide)
  · exact bytes_short_other (by decide) (by decide)
  · exact bytes_short_other (by decide) (by decide)
  · exact bytes_short_other (by decide) (by decide)
  · exact bytes_short_other (by decide) (by decide)
  · exact bytes_short_other (by decide) (by decide)
  · apply bytes_ascii_other (List.cons_ne_nil _ _)
    have high := hexDigit_ne_dash (show char.toNat / 16 < 16 by omega)
    have low := hexDigit_ne_dash (show char.toNat % 16 < 16 by omega)
    simp only [List.mem_cons, List.not_mem_nil, or_false, forall_eq_or_imp, forall_eq]
    exact ⟨by decide, by decide, by decide, by decide, high, low⟩
  · rw [bytes_singleton]
    exact dashed_utf8.other char other

private theorem dashed_escape : Dashed (fun char => bytes (escape char)) where
  dash := bytes_escape_dash
  other _ := bytes_escape_other

private theorem delimiter_escaped (chars : List Char) :
    delimiter <:+: bytes (chars.flatMap escape) ↔ dashes <:+: chars := by
  have spelled : bytes (chars.flatMap escape) =
      chars.flatMap (fun char => bytes (escape char)) := List.flatMap_assoc
  rw [spelled]
  exact dashed_escape.delimiter_iff chars

end Json

/-! ### Numbers -/

private theorem count_dash_digits {chars : List Char}
    (digits : ∀ char ∈ chars, char.isDigit = true) :
    (bytes chars).count 0x2d = 0 := by
  rw [List.count_eq_zero]
  intro member
  have impossible := Token.isDigit_bytes digits _ member
  cases impossible

private theorem count_dash_scientific {lead : Char} {fraction power : List Char} (below : Bool)
    (digits : ∀ char ∈ lead :: fraction, char.isDigit = true)
    (powerDigits : ∀ char ∈ power, char.isDigit = true) :
    (Token.scientificBytes lead fraction power below).count 0x2d ≤ 1 := by
  have first : (bytes [lead]).count 0x2d = 0 := by
    apply count_dash_digits
    intro char member
    rw [List.mem_singleton.mp member]
    exact digits lead List.mem_cons_self
  have middle : (bytes fraction).count 0x2d = 0 := by
    apply count_dash_digits
    intro char member
    exact digits char (List.mem_cons_of_mem _ member)
  have point : (0x2e : UInt8) ≠ 0x2d := by decide
  have letter : (0x65 : UInt8) ≠ 0x2d := by decide
  have rest : (if fraction.isEmpty then [] else 0x2e :: bytes fraction).count (0x2d : UInt8) =
      0 := by
    split
    · rfl
    · rw [List.count_cons_of_ne point, middle]
  unfold Token.scientificBytes
  rw [List.count_append, List.count_append, first, rest, List.count_cons_of_ne letter,
    List.count_cons, count_dash_digits powerDigits]
  split_ifs <;> omega

private theorem count_dash_decimal (code : Nat) :
    (encode (Decimal.shortest code).text).count 0x2d ≤ 1 := by
  rcases Decimal.shortest_text code with ⟨whole, fraction, numeral, _, _, digits, same⟩ |
    ⟨_, same⟩
  · have point : (0x2e : UInt8) ≠ 0x2d := by decide
    rw [same, List.count_append, List.count_cons_of_ne point, count_dash_digits numeral.digits,
      count_dash_digits digits]
    exact Nat.zero_le 1
  · have numeral := Token.numeral_toDigits (Decimal.shortest code).digits
    rw [same]
    cases written : Nat.toDigits 10 (Decimal.shortest code).digits with
    | nil => exact absurd written Nat.toDigits_ne_nil
    | cons lead fraction =>
        rw [written] at numeral
        rw [Decimal.encode_scientific]
        exact count_dash_scientific _ numeral.digits (Token.numeral_toDigits _).digits

private theorem count_dash_number (value : Number) : (encode value.text).count 0x2d ≤ 2 := by
  have sign : ∀ negative : Bool,
      (encode (if negative then "-" else "")).count 0x2d ≤ 1 := by decide +kernel
  have natural : ∀ value : Nat, (encode (toString value)).count 0x2d = 0 := by
    intro value
    rw [Nat.toString_eq_repr, Nat.repr_eq_ofList_toDigits, encode_ofList]
    exact count_dash_digits (Token.numeral_toDigits value).digits
  cases value with
  | whole value =>
      cases value with
      | ofNat value =>
          change (encode (toString value)).count 0x2d ≤ 2
          rw [natural value]
          exact Nat.zero_le 2
      | negSucc below =>
          change (encode ("-" ++ toString (below + 1))).count 0x2d ≤ 2
          have first := sign true
          rw [if_pos rfl] at first
          rw [encode_append, List.count_append, natural (below + 1)]
          omega
  | real value =>
      have first := sign value.negative
      have second := count_dash_decimal value.code
      unfold Number.text Binary64.text
      dsimp only
      rw [encode_append, List.count_append]
      omega

/-! ### Values -/

namespace Json

mutual

def texts : Json → List String
  | .null => []
  | .bool _ => []
  | .number _ => []
  | .string value => [value]
  | .array items => itemTexts items
  | .object members => memberTexts members

def itemTexts : List Json → List String
  | [] => []
  | item :: items => texts item ++ itemTexts items

def memberTexts : Members Json → List String
  | [] => []
  | (name, value) :: members => name :: (texts value ++ memberTexts members)

end

/-- Whether some of these texts holds three dashes in a row. -/
def SomeDashes (texts : List String) : Prop := ∃ text ∈ texts, dashes <:+: text.toList

theorem someDashes_nil : ¬SomeDashes [] := by
  intro found
  obtain ⟨text, member, _⟩ := found
  cases member

theorem someDashes_append (left right : List String) :
    SomeDashes (left ++ right) ↔ SomeDashes left ∨ SomeDashes right := by
  unfold SomeDashes
  simp only [List.mem_append, or_and_right, exists_or]

theorem someDashes_cons (text : String) (texts : List String) :
    SomeDashes (text :: texts) ↔ dashes <:+: text.toList ∨ SomeDashes texts := by
  unfold SomeDashes
  simp only [List.mem_cons, exists_eq_or_imp]

private theorem delimiter_quoted (text : String) :
    delimiter <:+: encode (quoted text) ↔ dashes <:+: text.toList := by
  have quote : (0x22 : UInt8) ≠ 0x2d := by decide
  have other : ([0x22] : List UInt8).head? ≠ some 0x2d := by decide
  rw [encode_quoted, delimiter_cons quote, delimiter_append _ other, delimiter_escaped,
    delimiter_cons quote]
  exact or_iff_left not_delimiter_nil

private theorem blank_ne_dash {blanks : List UInt8}
    (blank : ∀ byte ∈ blanks, Token.isBlank byte = true) : ∀ byte ∈ blanks, byte ≠ 0x2d := by
  intro byte member same
  have impossible := blank byte member
  rw [same] at impossible
  cases impossible

section

variable (layout : Layout)

theorem delimiter_member (level : Nat) (name : String) (rest : List UInt8) :
    delimiter <:+: layout.gap level ++ encode (quoted name) ++ 0x3a :: rest ↔
      dashes <:+: name.toList ∨ delimiter <:+: rest := by
  have colon : (0x3a : UInt8) ≠ 0x2d := by decide
  have other : ((0x3a : UInt8) :: rest).head? ≠ some 0x2d := by
    rw [List.head?_cons]
    decide
  rw [delimiter_append _ other, delimiter_cons colon,
    delimiter_solid (blank_ne_dash (layout.gap_blank level)), delimiter_quoted]

private theorem closing_head (level : Nat) {byte : UInt8} (other : byte ≠ 0x2d) :
    (layout.gap level ++ [byte]).head? ≠ some 0x2d := by
  have blanks := blank_ne_dash (layout.gap_blank level)
  cases gap : layout.gap level with
  | nil => exact fun same => other (Option.some.inj same)
  | cons first others =>
      have different := blanks first (by rw [gap]; exact List.mem_cons_self)
      exact fun same => different (Option.some.inj same)

private theorem items_head (level : Nat) (items : List Json) :
    (spellItems layout level items).head? ≠ some 0x2d := by
  cases items with
  | nil =>
      rw [spellItems]
      exact closing_head layout level (by decide)
  | cons item items =>
      rw [spellItems, List.head?_cons]
      decide

private theorem members_head (level : Nat) (members : Members Json) :
    (spellMembers layout level members).head? ≠ some 0x2d := by
  cases members with
  | nil =>
      rw [spellMembers]
      exact closing_head layout level (by decide)
  | cons member members =>
      rw [spellMembers, List.head?_cons]
      decide

private theorem delimiter_closing (level : Nat) {byte : UInt8} (other : byte ≠ 0x2d) :
    ¬delimiter <:+: layout.gap level ++ [byte] := by
  rw [delimiter_solid (blank_ne_dash (layout.gap_blank level)), delimiter_cons other]
  exact not_delimiter_nil

private theorem delimiter_word {text : String} (other : 0x2d ∉ encode text) :
    ¬delimiter <:+: encode text := by
  apply not_delimiter_of_count
  rw [List.count_eq_zero.mpr other]
  exact Nat.zero_le 2

mutual

/-- Three dashes are written for three dashes in a name or a string, and for nothing else. -/
theorem delimiter_spell : ∀ (value : Json) (level : Nat),
    delimiter <:+: spell layout level value ↔ SomeDashes value.texts
  | .null, level => by
      rw [spell, texts]
      exact iff_of_false (delimiter_word (by decide)) someDashes_nil
  | .bool true, level => by
      rw [spell, texts]
      exact iff_of_false (delimiter_word (by decide)) someDashes_nil
  | .bool false, level => by
      rw [spell, texts]
      exact iff_of_false (delimiter_word (by decide)) someDashes_nil
  | .number value, level => by
      rw [spell, texts]
      exact iff_of_false (not_delimiter_of_count (count_dash_number value)) someDashes_nil
  | .string text, level => by
      rw [spell, texts, delimiter_quoted]
      unfold SomeDashes
      simp only [List.mem_singleton, exists_eq_left]
  | .array [], level => by
      rw [spell, texts, itemTexts]
      exact iff_of_false (not_delimiter_of_count (by decide)) someDashes_nil
  | .array (item :: items), level => by
      have bracket : (0x5b : UInt8) ≠ 0x2d := by decide
      rw [spell, texts, itemTexts, delimiter_cons bracket,
        delimiter_append _ (items_head layout level items),
        delimiter_solid (blank_ne_dash (layout.gap_blank (level + 1))),
        delimiter_spell item (level + 1), delimiter_items items level, someDashes_append]
  | .object [], level => by
      rw [spell, texts, memberTexts]
      exact iff_of_false (not_delimiter_of_count (by decide)) someDashes_nil
  | .object ((name, value) :: members), level => by
      have brace : (0x7b : UInt8) ≠ 0x2d := by decide
      rw [spell, texts, memberTexts, delimiter_cons brace, delimiter_member,
        delimiter_append _ (members_head layout level members),
        delimiter_solid (blank_ne_dash layout.space_blank), delimiter_spell value (level + 1),
        delimiter_members members level, someDashes_cons, someDashes_append]

private theorem delimiter_items : ∀ (items : List Json) (level : Nat),
    delimiter <:+: spellItems layout level items ↔ SomeDashes (itemTexts items)
  | [], level => by
      rw [spellItems, itemTexts]
      exact iff_of_false (delimiter_closing layout level (by decide)) someDashes_nil
  | item :: items, level => by
      have comma : (0x2c : UInt8) ≠ 0x2d := by decide
      rw [spellItems, itemTexts, delimiter_cons comma,
        delimiter_append _ (items_head layout level items),
        delimiter_solid (blank_ne_dash (layout.gap_blank (level + 1))),
        delimiter_spell item (level + 1), delimiter_items items level, someDashes_append]

private theorem delimiter_members : ∀ (members : Members Json) (level : Nat),
    delimiter <:+: spellMembers layout level members ↔ SomeDashes (memberTexts members)
  | [], level => by
      rw [spellMembers, memberTexts]
      exact iff_of_false (delimiter_closing layout level (by decide)) someDashes_nil
  | (name, value) :: members, level => by
      have comma : (0x2c : UInt8) ≠ 0x2d := by decide
      rw [spellMembers, memberTexts, delimiter_cons comma, delimiter_member,
        delimiter_append _ (members_head layout level members),
        delimiter_solid (blank_ne_dash layout.space_blank), delimiter_spell value (level + 1),
        delimiter_members members level, someDashes_cons, someDashes_append]

end

end

end Json

end Interleave
