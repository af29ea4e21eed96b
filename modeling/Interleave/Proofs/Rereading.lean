import Interleave.Json.Reader
import Interleave.Proofs.Attempts
import Interleave.Proofs.Numerals
import Interleave.Proofs.Spelling

set_option autoImplicit false

/-! Printed values are values again, in any layout. -/

namespace Interleave

open Utf8 Token

/-! ### Blanks -/

namespace Token

private theorem dropBlank_solid {byte : UInt8} (solid : isBlank byte = false) (rest : List UInt8) :
    dropBlank (byte :: rest) = byte :: rest := by
  unfold dropBlank
  rw [List.dropWhile_cons, solid, if_neg Bool.false_ne_true]

private theorem dropBlank_append {blanks : List UInt8}
    (blank : ∀ byte ∈ blanks, isBlank byte = true) (rest : List UInt8) :
    dropBlank (blanks ++ rest) = dropBlank rest :=
  List.dropWhile_append_of_pos blank

private theorem stops_solid {byte : UInt8} (noDigit : isDigit byte = false) (noPoint : byte ≠ 0x2e)
    (noLetter : byte ≠ 0x65) (noCapital : byte ≠ 0x45) (rest : List UInt8) :
    Stops (byte :: rest) := by
  intro head first
  rw [List.head?_cons, Option.mem_some_iff] at first
  rw [← first]
  exact ⟨noDigit, noPoint, noLetter, noCapital⟩

private theorem stops_blank {byte : UInt8} (blank : isBlank byte = true) (rest : List UInt8) :
    Stops (byte :: rest) := by
  unfold isBlank at blank
  simp only [Bool.or_eq_true, beq_iff_eq] at blank
  rcases blank with ((rfl | rfl) | rfl) | rfl
  · exact stops_solid rfl (by decide) (by decide) (by decide) rest
  · exact stops_solid rfl (by decide) (by decide) (by decide) rest
  · exact stops_solid rfl (by decide) (by decide) (by decide) rest
  · exact stops_solid rfl (by decide) (by decide) (by decide) rest

private theorem stops_append {blanks rest : List UInt8}
    (blank : ∀ byte ∈ blanks, isBlank byte = true) (stops : Stops rest) :
    Stops (blanks ++ rest) := by
  cases blanks with
  | nil => exact stops
  | cons byte blanks => exact stops_blank (blank byte List.mem_cons_self) _

/-! ### Strings -/

private theorem stringBytes_plain {byte : UInt8} (noQuote : byte ≠ 0x22) (noSlash : byte ≠ 0x5c)
    (noControl : ¬byte < 0x20) (done tail : List UInt8) :
    stringBytes done (byte :: tail) = stringBytes (byte :: done) tail := by
  rw [stringBytes.eq_def]
  dsimp only
  rw [if_neg noQuote, if_neg noSlash, if_neg noControl]

private theorem stringBytes_large {content : List UInt8}
    (large : ∀ byte ∈ content, 0x80 ≤ byte.toNat) (done tail : List UInt8) :
    stringBytes done (content ++ tail) = stringBytes (content.reverse ++ done) tail := by
  induction content generalizing done with
  | nil => rfl
  | cons byte content ih =>
      have lower := large byte List.mem_cons_self
      have plain : stringBytes done (byte :: (content ++ tail)) =
          stringBytes (byte :: done) (content ++ tail) := by
        apply stringBytes_plain
        · intro same
          rw [same] at lower
          exact absurd lower (by decide)
        · intro same
          rw [same] at lower
          exact absurd lower (by decide)
        · rw [UInt8.lt_iff_toNat_lt]
          change ¬byte.toNat < 32
          omega
      rw [List.cons_append, plain, ih (fun other member => large other (List.mem_cons_of_mem _
        member)), List.reverse_cons, List.append_assoc, List.singleton_append]

private theorem hexValue?_digit {value : Nat} (small : value < 16) :
    hexValue? (UInt8.ofNat (Hex.digit value).toNat) = some value ∧
      (Hex.digit value).toNat < 0x80 := by
  revert value
  decide

private theorem stringBytes_point (done tail : List UInt8) {point : Nat} (control : point < 32) :
    stringBytes done (bytes ['\\', 'u', '0', '0', Hex.digit (point / 16),
      Hex.digit (point % 16)] ++ tail) = stringBytes (pushPoint point done) tail := by
  obtain ⟨high, highAscii⟩ := hexValue?_digit (show point / 16 < 16 by omega)
  obtain ⟨low, lowAscii⟩ := hexValue?_digit (show point % 16 < 16 by omega)
  have spelling : bytes ['\\', 'u', '0', '0', Hex.digit (point / 16), Hex.digit (point % 16)] =
      [0x5c, 0x75, 0x30, 0x30, UInt8.ofNat (Hex.digit (point / 16)).toNat,
        UInt8.ofNat (Hex.digit (point % 16)).toNat] := by
    rw [bytes_cons_ascii (by decide), bytes_cons_ascii (by decide),
      bytes_cons_ascii (by decide), bytes_cons_ascii (by decide), bytes_cons_ascii highAscii,
      bytes_cons_ascii lowAscii]
    rfl
  have unit : hexValue4? 0x30 0x30 (UInt8.ofNat (Hex.digit (point / 16)).toNat)
      (UInt8.ofNat (Hex.digit (point % 16)).toNat) = some point := by
    have zero : hexValue? 0x30 = some 0 := rfl
    unfold hexValue4?
    rw [high, low, zero]
    change some (0 * 4096 + 0 * 256 + point / 16 * 16 + point % 16) = some point
    congr 1
    omega
  have noLow : isLowSurrogate point = false := by
    unfold isLowSurrogate
    rw [decide_eq_false (by omega), Bool.false_and]
  have noHigh : isHighSurrogate point = false := by
    unfold isHighSurrogate
    rw [decide_eq_false (by omega), Bool.false_and]
  rw [spelling, stringBytes.eq_def]
  simp only [List.cons_append, List.nil_append, unit, noLow, noHigh]
  rfl

private theorem stringBytes_short {letter char : Char} (asciiLetter : letter.toNat < 0x80)
    (ascii : char.toNat < 0x80) (short : UInt8.ofNat letter.toNat ≠ 0x75)
    (meant : shortEscape? (UInt8.ofNat letter.toNat) = some (UInt8.ofNat char.toNat))
    (done tail : List UInt8) :
    stringBytes done (bytes ['\\', letter] ++ tail) =
      stringBytes ((String.utf8EncodeChar char).reverse ++ done) tail := by
  have spelling : bytes ['\\', letter] = [0x5c, UInt8.ofNat letter.toNat] := by
    rw [bytes_cons_ascii (by decide), bytes_cons_ascii asciiLetter]
    rfl
  have noQuote : (0x5c : UInt8) ≠ 0x22 := by decide
  rw [spelling, utf8EncodeChar_ascii ascii, stringBytes.eq_def, List.cons_append,
    List.cons_append, List.nil_append]
  dsimp only
  rw [if_neg noQuote, if_pos rfl, if_neg short, meant]
  rfl

theorem stringBytes_escape (char : Char) (done tail : List UInt8) :
    stringBytes done (bytes (Json.escape char) ++ tail) =
      stringBytes ((String.utf8EncodeChar char).reverse ++ done) tail := by
  unfold Json.escape
  split_ifs with quote slash backspace formFeed lineFeed carriageReturn tab control
  · subst quote
    exact stringBytes_short (by decide) (by decide) (by decide) (by decide) done tail
  · subst slash
    exact stringBytes_short (by decide) (by decide) (by decide) (by decide) done tail
  · subst backspace
    exact stringBytes_short (by decide) (by decide) (by decide) (by decide) done tail
  · subst formFeed
    exact stringBytes_short (by decide) (by decide) (by decide) (by decide) done tail
  · subst lineFeed
    exact stringBytes_short (by decide) (by decide) (by decide) (by decide) done tail
  · subst carriageReturn
    exact stringBytes_short (by decide) (by decide) (by decide) (by decide) done tail
  · subst tab
    exact stringBytes_short (by decide) (by decide) (by decide) (by decide) done tail
  · rw [stringBytes_point done tail control]
    unfold pushPoint
    rw [Char.ofNat_toNat]
  · rw [bytes_singleton]
    by_cases ascii : char.toNat < 0x80
    · have different : ∀ other : Char, other.toNat < 0x80 → char ≠ other →
          UInt8.ofNat char.toNat ≠ UInt8.ofNat other.toNat := by
        intro other small distinct same
        apply distinct
        have points := congrArg UInt8.toNat same
        rw [toNat_byte (by omega), toNat_byte (by omega)] at points
        exact Char.toNat_inj.mp points
      rw [utf8EncodeChar_ascii ascii, List.singleton_append, stringBytes_plain]
      · rfl
      · exact different '"' (by decide) quote
      · exact different '\\' (by decide) slash
      · rw [UInt8.lt_iff_toNat_lt, toNat_byte (by omega)]
        exact control
    · exact stringBytes_large (fun byte member =>
        utf8EncodeChar_large (Nat.le_of_not_lt ascii) member) done tail

private theorem stringBytes_escaped (chars : List Char) (done rest : List UInt8) :
    stringBytes done (bytes (chars.flatMap Json.escape) ++ 0x22 :: rest) =
      .ok (done.reverse ++ bytes chars, rest) := by
  induction chars generalizing done with
  | nil =>
      change stringBytes done (0x22 :: rest) = .ok (done.reverse ++ [], rest)
      rw [stringBytes.eq_def, List.append_nil]
      rfl
  | cons char chars ih =>
      have whole : bytes (char :: chars) = String.utf8EncodeChar char ++ bytes chars := rfl
      rw [List.flatMap_cons, bytes_append, List.append_assoc, stringBytes_escape, ih,
        List.reverse_append, List.reverse_reverse, List.append_assoc, whole]

theorem string_quoted (text : String) (rest : List UInt8) :
    Token.string (bytes (text.toList.flatMap Json.escape) ++ 0x22 :: rest) = .ok (text, rest) := by
  unfold Token.string
  rw [stringBytes_escaped]
  dsimp only
  have decoded := decode_encode text
  change decode (bytes text.toList) = _ at decoded
  rw [List.reverse_nil, List.nil_append, decoded]

end Token

namespace Json

/-- The values that a reader can give when so many arrays and objects may be open at once:
numbers are in range, and the members of an object have different names. -/
inductive Readable : Nat → Json → Prop where
  | null (levels : Nat) : Readable levels .null
  | bool (levels : Nat) (value : Bool) : Readable levels (.bool value)
  | number (levels : Nat) {value : Number} (range : value.InRange) :
      Readable levels (.number value)
  | string (levels : Nat) (value : String) : Readable levels (.string value)
  | array {levels : Nat} {items : List Json} (all : ∀ item ∈ items, Readable levels item) :
      Readable (levels + 1) (.array items)
  | object {levels : Nat} {members : Members Json} (distinct : members.names.Nodup)
      (all : ∀ member ∈ members, Readable levels member.2) :
      Readable (levels + 1) (.object members)

mutual

/-- The value with every number as it is read from its text. -/
def reread : Json → Json
  | .null => .null
  | .bool value => .bool value
  | .number value => .number value.reread
  | .string value => .string value
  | .array items => .array (rereadItems items)
  | .object members => .object (rereadMembers members)

def rereadItems : List Json → List Json
  | [] => []
  | item :: items => reread item :: rereadItems items

def rereadMembers : Members Json → Members Json
  | [] => []
  | (name, value) :: members => (name, reread value) :: rereadMembers members

end

end Json

namespace Reader

/-! ### Brackets, names and colons -/

section

variable {layout : Layout} {byte : UInt8} {rest : List UInt8}

private theorem nextItem_first (level : Nat) (solid : isBlank byte = false) (opens : byte ≠ 0x5d) :
    nextItem true (layout.gap level ++ byte :: rest) = .ok (.more (byte :: rest)) := by
  unfold nextItem
  rw [dropBlank_append (layout.gap_blank level), dropBlank_solid solid]
  dsimp only
  rw [if_neg opens, if_pos rfl]

private theorem nextItem_comma (level : Nat) (solid : isBlank byte = false) (opens : byte ≠ 0x5d) :
    nextItem false (0x2c :: (layout.gap level ++ byte :: rest)) = .ok (.more (byte :: rest)) := by
  have comma : isBlank 0x2c = false := rfl
  have other : (0x2c : UInt8) ≠ 0x5d := by decide
  unfold nextItem
  rw [dropBlank_solid comma]
  dsimp only
  rw [if_neg other, if_neg Bool.false_ne_true, if_pos rfl,
    dropBlank_append (layout.gap_blank level), dropBlank_solid solid]
  dsimp only
  rw [if_neg opens]

private theorem nextItem_close (first : Bool) {blanks : List UInt8}
    (blank : ∀ byte ∈ blanks, isBlank byte = true) (rest : List UInt8) :
    nextItem first (blanks ++ 0x5d :: rest) = .ok (.close rest) := by
  have bracket : isBlank 0x5d = false := rfl
  unfold nextItem
  rw [dropBlank_append blank, dropBlank_solid bracket]
  dsimp only
  rw [if_pos rfl]

private theorem nextName_first (level : Nat) (rest : List UInt8) :
    nextName true (layout.gap level ++ 0x22 :: rest) = .ok (.more rest) := by
  have quote : isBlank 0x22 = false := rfl
  have other : (0x22 : UInt8) ≠ 0x7d := by decide
  unfold nextName
  rw [dropBlank_append (layout.gap_blank level), dropBlank_solid quote]
  dsimp only
  rw [if_neg other, if_pos rfl, if_pos rfl]

private theorem nextName_comma (level : Nat) (rest : List UInt8) :
    nextName false (0x2c :: (layout.gap level ++ 0x22 :: rest)) = .ok (.more rest) := by
  have comma : isBlank 0x2c = false := rfl
  have quote : isBlank 0x22 = false := rfl
  have other : (0x2c : UInt8) ≠ 0x7d := by decide
  unfold nextName
  rw [dropBlank_solid comma]
  dsimp only
  rw [if_neg other, if_neg Bool.false_ne_true, if_pos rfl,
    dropBlank_append (layout.gap_blank level), dropBlank_solid quote]
  dsimp only
  rw [if_pos rfl]

private theorem nextName_close (first : Bool) {blanks : List UInt8}
    (blank : ∀ byte ∈ blanks, isBlank byte = true) (rest : List UInt8) :
    nextName first (blanks ++ 0x7d :: rest) = .ok (.close rest) := by
  have brace : isBlank 0x7d = false := rfl
  unfold nextName
  rw [dropBlank_append blank, dropBlank_solid brace]
  dsimp only
  rw [if_pos rfl]

private theorem colon_colon (rest : List UInt8) : colon (0x3a :: rest) = .ok rest := by
  have solid : isBlank 0x3a = false := rfl
  unfold colon
  rw [dropBlank_solid solid]
  dsimp only
  rw [if_pos rfl]

end

/-! ### Rounds

What one round makes of an array or an object, once it is known what comes next in it. -/

section

variable {α : Type} {first : Bool} {bytes start rest : List UInt8}

private theorem items_close (item : List UInt8 → Read α) {size : Nat} (enough : 0 < size)
    (next : nextItem first bytes = .ok (.close rest)) (done : List α) :
    items item size first done bytes = .ok (done.reverse, rest) := by
  cases size with
  | zero => exact absurd enough (Nat.lt_irrefl 0)
  | succ size =>
      unfold items
      rw [next]

private theorem items_more {item : List UInt8 → Read α} {value : α}
    (next : nextItem first bytes = .ok (.more start)) (read : item start = .ok (value, rest))
    (size : Nat) (done : List α) :
    items item (size + 1) first done bytes = items item size false (value :: done) rest := by
  rw [items, next]
  dsimp only
  rw [read]

private theorem fields_close (field : α → String → List UInt8 → Read α) {size : Nat}
    (enough : 0 < size) (next : nextName first bytes = .ok (.close rest)) (done : α) :
    fields field size first done bytes = .ok (done, rest) := by
  cases size with
  | zero => exact absurd enough (Nat.lt_irrefl 0)
  | succ size =>
      unfold fields
      rw [next]

private theorem fields_more {field : α → String → List UInt8 → Read α} {done more : α}
    {name : String} {after : List UInt8} (next : nextName first bytes = .ok (.more start))
    (named : string start = .ok (name, after)) (taken : field done name after = .ok (more, rest))
    (size : Nat) :
    fields field (size + 1) first done bytes = fields field size false more rest := by
  rw [fields, next]
  dsimp only
  rw [named]
  dsimp only
  rw [taken]

end

/-! ### Values -/

private theorem value_blanks (size levels : Nat) {blanks : List UInt8}
    (blank : ∀ byte ∈ blanks, isBlank byte = true) (bytes : List UInt8) :
    value size levels (blanks ++ bytes) = value size levels bytes := by
  rw [value.eq_def, value.eq_def size levels bytes]
  dsimp only
  rw [dropBlank_append blank]

private theorem value_scalar (size levels : Nat) {byte : UInt8} {rest : List UInt8}
    (solid : isBlank byte = false) (noArray : byte ≠ 0x5b) (noObject : byte ≠ 0x7b) :
    value size levels (byte :: rest) = scalar byte rest := by
  rw [value.eq_def]
  dsimp only
  rw [dropBlank_solid solid]
  dsimp only
  rw [if_neg noArray, if_neg noObject]

private theorem value_array (size levels : Nat) (rest : List UInt8) :
    value size (levels + 1) (0x5b :: rest) =
      (items (value size levels) size true [] rest).map
        (fun (values, rest) => (.array values, rest)) := by
  have bracket : isBlank 0x5b = false := rfl
  rw [value.eq_def]
  dsimp only
  rw [dropBlank_solid bracket]
  dsimp only
  rw [if_pos rfl]

private theorem value_object (size levels : Nat) (rest : List UInt8) :
    value size (levels + 1) (0x7b :: rest) =
      (fields (member (value size levels)) size true [] rest).map
        (fun (members, rest) => (.object members, rest)) := by
  have brace : isBlank 0x7b = false := rfl
  have other : (0x7b : UInt8) ≠ 0x5b := by decide
  rw [value.eq_def]
  dsimp only
  rw [dropBlank_solid brace]
  dsimp only
  rw [if_neg other, if_pos rfl]

private theorem digit_cases {byte : UInt8} (digit : isDigit byte = true) :
    isBlank byte = false ∧ byte ≠ 0x5b ∧ byte ≠ 0x7b ∧ byte ≠ 0x5d ∧ byte ≠ 0x22 ∧
      byte ≠ 0x2d ∧ byte ≠ 0x6e ∧ byte ≠ 0x74 ∧ byte ≠ 0x66 := by
  have lower : 48 ≤ byte.toNat ∧ byte.toNat ≤ 57 := by
    unfold isDigit at digit
    rw [Bool.and_eq_true, decide_eq_true_iff, decide_eq_true_iff] at digit
    exact ⟨UInt8.le_iff_toNat_le.mp digit.1, UInt8.le_iff_toNat_le.mp digit.2⟩
  have different : ∀ other : UInt8, other.toNat < 48 ∨ 57 < other.toNat → byte ≠ other := by
    intro other outside same
    rw [same] at lower
    omega
  refine ⟨?_, ?_, ?_, ?_, ?_, ?_, ?_, ?_, ?_⟩
  · unfold isBlank
    simp only [Bool.or_eq_false_iff, beq_eq_false_iff_ne]
    refine ⟨⟨⟨?_, ?_⟩, ?_⟩, ?_⟩ <;> exact different _ (by decide)
  all_goals exact different _ (by decide)

/-- A printed number, before anything that does not go on with it. -/
theorem scalar_number {number : Number} (range : number.InRange) :
    ∃ byte tail, encode number.text = byte :: tail ∧ isBlank byte = false ∧ byte ≠ 0x5b ∧
      byte ≠ 0x7b ∧ byte ≠ 0x5d ∧ ∀ rest, Stops rest →
        scalar byte (tail ++ rest) = .ok (.number number.reread, rest) := by
  obtain ⟨negative, literal, written, reads⟩ := Number.text_literal range
  cases negative with
  | true =>
      refine ⟨0x2d, literal, written, rfl, by decide, by decide, by decide, ?_⟩
      intro rest stops
      have other : (0x2d : UInt8) ≠ 0x6e ∧ (0x2d : UInt8) ≠ 0x74 ∧ (0x2d : UInt8) ≠ 0x66 := by
        decide
      unfold scalar
      rw [if_neg other.1, if_neg other.2.1, if_neg other.2.2, if_pos rfl, reads rest stops]
      rfl
  | false =>
      have alone := reads [] (fun _ absent => by cases absent)
      obtain ⟨byte, tail, split, digit⟩ := number_head alone
      rw [List.append_nil] at split
      obtain ⟨solid, noArray, noObject, noEnd, _, noSign, noNull, noTrue, noFalse⟩ :=
        digit_cases digit
      refine ⟨byte, tail, by rw [written, split]; rfl, solid, noArray, noObject, noEnd, ?_⟩
      intro rest stops
      have read := reads rest stops
      rw [split, List.cons_append] at read
      unfold scalar
      rw [if_neg noNull, if_neg noTrue, if_neg noFalse, if_neg noSign, if_pos digit, read]
      rfl

theorem spell_head (layout : Layout) (level : Nat) {levels : Nat} {value : Json}
    (readable : Json.Readable levels value) :
    ∃ byte tail, Json.spell layout level value = byte :: tail ∧ isBlank byte = false ∧
      byte ≠ 0x5d := by
  cases readable with
  | null => exact ⟨0x6e, _, rfl, rfl, by decide⟩
  | bool _ value =>
      cases value with
      | true => exact ⟨0x74, _, rfl, rfl, by decide⟩
      | false => exact ⟨0x66, _, rfl, rfl, by decide⟩
  | number _ range =>
      obtain ⟨byte, tail, written, solid, _, _, noEnd, _⟩ := scalar_number range
      exact ⟨byte, tail, by rw [Json.spell, written], solid, noEnd⟩
  | string _ value => exact ⟨0x22, _, by rw [Json.spell, Json.encode_quoted], rfl, by decide⟩
  | array all =>
      rename_i items
      cases items with
      | nil => exact ⟨0x5b, _, by rw [Json.spell], rfl, by decide⟩
      | cons item items => exact ⟨0x5b, _, by rw [Json.spell], rfl, by decide⟩
  | object distinct all =>
      rename_i members
      cases members with
      | nil => exact ⟨0x7b, _, by rw [Json.spell], rfl, by decide⟩
      | cons member members => exact ⟨0x7b, _, by rw [Json.spell], rfl, by decide⟩

private theorem stops_items (layout : Layout) (level : Nat) (items : List Json)
    (rest : List UInt8) :
    Stops (Json.spellItems layout level items ++ rest) := by
  cases items with
  | nil =>
      rw [Json.spellItems, List.append_assoc]
      exact stops_append (layout.gap_blank level)
        (stops_solid rfl (by decide) (by decide) (by decide) _)
  | cons item items =>
      rw [Json.spellItems]
      exact stops_solid rfl (by decide) (by decide) (by decide) _

private theorem stops_members (layout : Layout) (level : Nat) (members : Members Json)
    (rest : List UInt8) : Stops (Json.spellMembers layout level members ++ rest) := by
  cases members with
  | nil =>
      rw [Json.spellMembers, List.append_assoc]
      exact stops_append (layout.gap_blank level)
        (stops_solid rfl (by decide) (by decide) (by decide) _)
  | cons member members =>
      rw [Json.spellMembers]
      exact stops_solid rfl (by decide) (by decide) (by decide) _

private theorem items_length_lt (layout : Layout) (level : Nat) (items : List Json) :
    items.length < (Json.spellItems layout level items).length := by
  induction items with
  | nil =>
      rw [Json.spellItems, List.length_append]
      exact Nat.lt_of_lt_of_le Nat.zero_lt_one (Nat.le_add_left _ _)
  | cons item items ih =>
      rw [Json.spellItems]
      simp only [List.length_cons, List.length_append]
      omega

private theorem members_length_lt (layout : Layout) (level : Nat) (members : Members Json) :
    members.length < (Json.spellMembers layout level members).length := by
  induction members with
  | nil =>
      rw [Json.spellMembers, List.length_append]
      exact Nat.lt_of_lt_of_le Nat.zero_lt_one (Nat.le_add_left _ _)
  | cons member members ih =>
      rw [Json.spellMembers]
      simp only [List.length_cons, List.length_append]
      omega

private theorem set_new {members : Members Json} {name : String} (absent : name ∉ members.names)
    (value : Json) : Members.set members name value = members ++ [(name, value)] := by
  induction members with
  | nil => rfl
  | cons member members ih =>
      obtain ⟨key, old⟩ := member
      change name ∉ key :: Members.names members at absent
      rw [List.mem_cons, not_or] at absent
      unfold Members.set
      rw [if_neg (Ne.symm absent.1), ih absent.2, List.cons_append]

section

variable (layout : Layout)

private theorem member_value {size levels : Nat} {done : Members Json} {name : String}
    {value : Json} {bytes rest : List UInt8} (absent : name ∉ done.names)
    (read : Reader.value size levels bytes = .ok (value, rest)) :
    member (Reader.value size levels) done name (0x3a :: (layout.space ++ bytes)) =
      .ok (done ++ [(name, value)], rest) := by
  unfold member
  rw [colon_colon]
  dsimp only
  rw [value_blanks _ _ layout.space_blank, read, ← set_new absent]
  rfl

theorem fields_member {size levels : Nat} {first : Bool} {bytes after rest : List UInt8}
    {done : Members Json} {name : String} {value : Json}
    (next : nextName first bytes = .ok (.more
      (Utf8.bytes (name.toList.flatMap Json.escape) ++ 0x22 :: 0x3a :: (layout.space ++ after))))
    (absent : name ∉ done.names)
    (read : Reader.value size levels after = .ok (value, rest)) (fuel : Nat) :
    fields (member (Reader.value size levels)) (fuel + 1) first done bytes =
      fields (member (Reader.value size levels)) fuel false (done ++ [(name, value)]) rest :=
  fields_more next (string_quoted name _) (member_value layout absent read) fuel

mutual

/-- A printed value is read again, before anything that does not go on with a number. -/
theorem value_spell : ∀ (value : Json) {level levels size : Nat},
    Json.Readable levels value → (Json.spell layout level value).length < size →
    ∀ rest, Stops rest →
      Reader.value size levels (Json.spell layout level value ++ rest) =
        .ok (value.reread, rest)
  | .null, level, levels, size, _, _, rest, _ => by
      rw [Json.spell]
      exact value_scalar size levels rfl (by decide) (by decide)
  | .bool true, level, levels, size, _, _, rest, _ => by
      rw [Json.spell]
      exact value_scalar size levels rfl (by decide) (by decide)
  | .bool false, level, levels, size, _, _, rest, _ => by
      rw [Json.spell]
      exact value_scalar size levels rfl (by decide) (by decide)
  | .number number, level, levels, size, readable, _, rest, stops => by
      cases readable with
      | number _ range =>
          obtain ⟨byte, tail, written, solid, noArray, noObject, _, reads⟩ :=
            scalar_number range
          rw [Json.spell, written, List.cons_append, value_scalar _ _ solid noArray noObject,
            reads rest stops, Json.reread]
  | .string text, level, levels, size, _, _, rest, _ => by
      rw [Json.spell, Json.encode_quoted, List.cons_append, List.append_assoc,
        value_scalar size levels rfl (by decide) (by decide), List.singleton_append]
      change (Token.string _).map _ = _
      rw [string_quoted, Json.reread]
      rfl
  | .array [], level, levels, size, readable, room, rest, _ => by
      cases readable with
      | array all =>
          rw [Json.spell] at room ⊢
          have close := nextItem_close true (fun _ absent => absurd absent List.not_mem_nil) rest
          rw [List.nil_append] at close
          rw [List.cons_append, value_array, List.singleton_append,
            items_close _ (Nat.zero_lt_of_lt room) close, Json.reread, Json.rereadItems]
          rfl
  | .array (item :: rest'), level, levels, size, readable, room, rest, _ => by
      cases readable with
      | array all =>
          rename_i levels
          have few := items_length_lt layout level rest'
          obtain ⟨byte, tail, written, solid, noEnd⟩ :=
            spell_head layout (level + 1) (all item List.mem_cons_self)
          rw [Json.spell] at room ⊢
          simp only [List.length_cons, List.length_append] at room
          have first := value_spell item (all item List.mem_cons_self)
            (show (Json.spell layout (level + 1) item).length < size by omega)
            (Json.spellItems layout level rest' ++ rest) (stops_items layout level rest' rest)
          rw [List.cons_append, value_array, List.append_assoc, List.append_assoc]
          cases size with
          | zero => exact absurd room (Nat.not_lt_zero _)
          | succ size =>
              have later := items_spell rest' level size
                [item.reread] (fun other member => all other (List.mem_cons_of_mem _ member))
                (show (Json.spellItems layout level rest').length < size + 1 by omega)
                (by omega) rest
              rw [written, List.cons_append] at first ⊢
              rw [items_more (nextItem_first (level + 1) solid noEnd) first, later, Json.reread,
                Json.rereadItems]
              rfl
  | .object [], level, levels, size, readable, room, rest, _ => by
      cases readable with
      | object distinct all =>
          rw [Json.spell] at room ⊢
          have close := nextName_close true (fun _ absent => absurd absent List.not_mem_nil) rest
          rw [List.nil_append] at close
          rw [List.cons_append, value_object, List.singleton_append,
            fields_close _ (Nat.zero_lt_of_lt room) close, Json.reread, Json.rereadMembers]
          rfl
  | .object ((name, value) :: members), level, levels, size, readable, room, rest, _ => by
      cases readable with
      | object distinct all =>
          rename_i levels
          have few := members_length_lt layout level members
          change (name :: Members.names members).Nodup at distinct
          rw [List.nodup_cons] at distinct
          rw [Json.spell] at room ⊢
          simp only [List.length_cons, List.length_append] at room
          have first := value_spell value (all (name, value) List.mem_cons_self)
            (show (Json.spell layout (level + 1) value).length < size by omega)
            (Json.spellMembers layout level members ++ rest)
            (stops_members layout level members rest)
          rw [List.cons_append, value_object]
          cases size with
          | zero => exact absurd room (Nat.not_lt_zero _)
          | succ size =>
              have later := members_spell members level size
                [(name, value.reread)]
                (fun other member => all other (List.mem_cons_of_mem _ member))
                (by
                  change (name :: Members.names members).Nodup
                  rw [List.nodup_cons]
                  exact distinct)
                (show (Json.spellMembers layout level members).length < size + 1 by omega)
                (by omega) rest
              have absent : name ∉ Members.names ([] : Members Json) := List.not_mem_nil
              rw [Json.encode_quoted]
              simp only [List.append_assoc, List.cons_append, List.nil_append]
              rw [fields_member layout (nextName_first (level + 1) _) absent first,
                List.nil_append, later, Json.reread, Json.rereadMembers]
              rfl

private theorem items_spell : ∀ (items : List Json) (level fuel : Nat) {levels size : Nat}
    (done : List Json),
    (∀ item ∈ items, Json.Readable levels item) →
    (Json.spellItems layout level items).length < size → items.length < fuel → ∀ rest,
      Reader.items (Reader.value size levels) fuel false done
          (Json.spellItems layout level items ++ rest) =
        .ok (done.reverse ++ Json.rereadItems items, rest)
  | [], level, fuel, levels, size, done, _, _, enough, rest => by
      rw [Json.spellItems, List.append_assoc, List.singleton_append,
        items_close _ enough (nextItem_close false (layout.gap_blank level) rest),
        Json.rereadItems, List.append_nil]
  | item :: items, level, fuel, levels, size, done, all, room, enough, rest => by
      cases fuel with
      | zero => exact absurd enough (Nat.not_lt_zero _)
      | succ fuel =>
          obtain ⟨byte, tail, written, solid, noEnd⟩ :=
            spell_head layout (level + 1) (all item List.mem_cons_self)
          rw [Json.spellItems] at room ⊢
          rw [List.length_cons] at enough
          simp only [List.length_cons, List.length_append] at room
          have first := value_spell item (all item List.mem_cons_self)
            (show (Json.spell layout (level + 1) item).length < size by omega)
            (Json.spellItems layout level items ++ rest) (stops_items layout level items rest)
          have later := items_spell items level fuel (item.reread :: done)
            (fun other member => all other (List.mem_cons_of_mem _ member))
            (show (Json.spellItems layout level items).length < size by omega)
            (by omega) rest
          rw [List.cons_append, List.append_assoc, List.append_assoc]
          rw [written, List.cons_append] at first ⊢
          rw [items_more (nextItem_comma (level + 1) solid noEnd) first, later,
            Json.rereadItems, List.reverse_cons, List.append_assoc, List.singleton_append]

private theorem members_spell : ∀ (members : Members Json) (level fuel : Nat) {levels size : Nat}
    (done : Members Json), (∀ member ∈ members, Json.Readable levels member.2) →
    (done.names ++ members.names).Nodup →
    (Json.spellMembers layout level members).length < size → members.length < fuel → ∀ rest,
      Reader.fields (member (Reader.value size levels)) fuel false done
          (Json.spellMembers layout level members ++ rest) =
        .ok (done ++ Json.rereadMembers members, rest)
  | [], level, fuel, levels, size, done, _, _, _, enough, rest => by
      rw [Json.spellMembers, List.append_assoc, List.singleton_append,
        fields_close _ enough (nextName_close false (layout.gap_blank level) rest),
        Json.rereadMembers, List.append_nil]
  | (name, value) :: members, level, fuel, levels, size, done, all, distinct, room, enough,
      rest => by
      cases fuel with
      | zero => exact absurd enough (Nat.not_lt_zero _)
      | succ fuel =>
          rw [Json.spellMembers] at room ⊢
          rw [List.length_cons] at enough
          simp only [List.length_cons, List.length_append] at room
          have first := value_spell value (all (name, value) List.mem_cons_self)
            (show (Json.spell layout (level + 1) value).length < size by omega)
            (Json.spellMembers layout level members ++ rest)
            (stops_members layout level members rest)
          have absent : name ∉ done.names := by
            intro present
            exact (List.nodup_append.mp distinct).2.2 name present name
              (List.mem_cons_self (l := Members.names members)) rfl
          have moved : (Members.names (done ++ [(name, value.reread)]) ++
              Members.names members).Nodup := by
            unfold Members.names at distinct ⊢
            rw [List.map_append, List.append_assoc]
            exact distinct
          have later := members_spell members level fuel
            (done ++ [(name, value.reread)])
            (fun other member => all other (List.mem_cons_of_mem _ member)) moved
            (show (Json.spellMembers layout level members).length < size by omega)
            (by omega) rest
          rw [Json.encode_quoted]
          simp only [List.append_assoc, List.cons_append, List.nil_append]
          rw [fields_member layout (nextName_comma (level + 1) _) absent first, later,
            Json.rereadMembers, List.append_assoc, List.singleton_append]

end

theorem object_spell {members : Members Json}
    (readable : Json.Readable deepest (.object members)) {size : Nat}
    {before after : List UInt8} (blankBefore : ∀ byte ∈ before, isBlank byte = true)
    (blankAfter : ∀ byte ∈ after, isBlank byte = true)
    (room : (Json.spell layout 0 (.object members)).length < size) :
    object size (before ++ (Json.spell layout 0 (.object members) ++ after)) =
      .ok (Json.rereadMembers members, after) := by
  have stops : Stops after := by
    have ended : Stops [] := fun _ absent => by cases absent
    have blanks := stops_append blankAfter ended
    rw [List.append_nil] at blanks
    exact blanks
  have read := value_spell layout (.object members) readable room after stops
  have opening : ∃ tail, Json.spell layout 0 (.object members) = 0x7b :: tail := by
    cases members with
    | nil => exact ⟨_, by rw [Json.spell]⟩
    | cons member members => exact ⟨_, by rw [Json.spell]⟩
  obtain ⟨tail, written⟩ := opening
  have brace : isBlank 0x7b = false := rfl
  rw [written, List.cons_append] at read ⊢
  unfold object
  rw [dropBlank_append blankBefore, dropBlank_solid brace]
  dsimp only
  rw [if_pos rfl]
  obtain ⟨⟨found, rest⟩, fields, same⟩ := exists_of_map_ok read
  rw [Json.reread, Prod.mk.injEq, Json.object.injEq] at same
  rw [← same.1, ← same.2] at fields
  exact fields

theorem parseObject_spell {members : Members Json}
    (readable : Json.Readable deepest (.object members)) {before after : List UInt8}
    (blankBefore : ∀ byte ∈ before, isBlank byte = true)
    (blankAfter : ∀ byte ∈ after, isBlank byte = true) :
    Json.parseObject (before ++ (Json.spell layout 0 (.object members) ++ after)) =
      .ok (Json.rereadMembers members) := by
  have ended : dropBlank after = [] := by
    have blanks := dropBlank_append blankAfter []
    rw [List.append_nil] at blanks
    exact blanks
  unfold Json.parseObject whole
  rw [object_spell layout readable blankBefore blankAfter
    (by simp only [List.length_append]; omega)]
  dsimp only
  rw [ended]

end

end Reader

end Interleave
