import Interleave.Native.Literal
import Interleave.Proofs.Rereading

set_option autoImplicit false

/-! Literals of values in the native languages. Where the first character of a literal tells what
kind of value it is, and its end is known by what may follow a literal, no other value has it. -/

namespace Interleave.Literal

variable {language : Language}

/-- Values made of null, truth values, whole numbers, strings and arrays of such values. The
truth values of C are left out: they are written as whole numbers. -/
inductive Plain (language : Language) : Json → Prop where
  | null : Plain language .null
  | bool (named : language = .cpp) (value : Bool) : Plain language (.bool value)
  | whole (value : Int) : Plain language (.number (.whole value))
  | string (value : String) : Plain language (.string value)
  | array {items : List Json} (all : ∀ item ∈ items, Plain language item) :
      Plain language (.array items)

theorem ofItems_eq (items : List Json) : ofItems language items = items.mapM (ofJson language) := by
  induction items with
  | nil => rfl
  | cons item items ih =>
      rw [ofItems, List.mapM_cons, ih]

theorem Plain.exists_ofJson {value : Json} (plain : Plain language value) :
    ∃ text, ofJson language value = .ok text := by
  induction plain with
  | null => exact ⟨_, rfl⟩
  | bool named value => exact ⟨_, rfl⟩
  | whole value => exact ⟨_, rfl⟩
  | string value => exact ⟨_, rfl⟩
  | array all ih =>
      obtain ⟨texts, written⟩ := exists_mapM_eq_ok ih
      rw [ofJson, ofItems_eq, written]
      exact ⟨_, rfl⟩

/-! ### Characters of literals -/

theorem toList_quoted (value : String) :
    (Json.quoted value).toList = '"' :: (value.toList.flatMap Json.escape ++ ['"']) :=
  String.toList_ofList

def following (texts : List String) : List Char :=
  texts.flatMap (fun text => ',' :: ' ' :: text.toList) ++ ['\x7d']

private theorem following_cons (text : String) (texts : List String) :
    following (text :: texts) = ", ".toList ++ (text.toList ++ following texts) := by
  unfold following
  rw [List.flatMap_cons, List.append_assoc]
  rfl

theorem toList_intercalate_cons (text : String) (texts : List String) :
    (", ".intercalate (text :: texts)).toList ++ ['\x7d'] = text.toList ++ following texts := by
  induction texts generalizing text with
  | nil =>
      rw [String.intercalate_singleton]
      rfl
  | cons next texts ih =>
      rw [String.intercalate_cons_cons, String.toList_append, String.toList_append,
        List.append_assoc, ih, List.append_assoc, following_cons]

theorem array_written {items : List Json} {text : String}
    (written : ofJson language (.array items) = .ok text) :
    ∃ texts, List.Forall₂ (fun item text => ofJson language item = .ok text) items texts ∧
      text.toList = '\x7b' :: ((", ".intercalate texts).toList ++ ['\x7d']) := by
  rw [ofJson, ofItems_eq] at written
  obtain ⟨texts, each, rfl⟩ := exists_of_map_ok written
  refine ⟨texts, mapM_eq_ok_iff.mp each, ?_⟩
  rw [String.toList_append, String.toList_append]
  rfl

/-! ### First characters -/

inductive Kind where
  | null
  | bool
  | number
  | string
  | array
  | object

def kind : Json → Kind
  | .null => .null
  | .bool _ => .bool
  | .number _ => .number
  | .string _ => .string
  | .array _ => .array
  | .object _ => .object

/-- A character of a whole number. -/
def isNumeral (char : Char) : Bool := char == '-' || char.isDigit

/-- The kind of the plain values whose literals begin with a character. -/
def Kind.ofFirst : Char → Option Kind
  | 'N' | 'n' => some .null
  | 't' | 'f' => some .bool
  | '"' => some .string
  | '\x7b' => some .array
  | char => if isNumeral char then some .number else none

private theorem isNumeral_of_whole (value : Int) :
    ∀ char ∈ (toString value).toList, isNumeral char = true := by
  have natural : ∀ value : Nat, ∀ char ∈ value.repr.toList, isNumeral char = true := by
    intro value char member
    rw [Nat.toList_repr] at member
    unfold isNumeral
    rw [(Token.numeral_toDigits value).digits char member, Bool.or_true]
  intro char member
  cases value with
  | ofNat value => exact natural value char member
  | negSucc below =>
      change char ∈ ("-" ++ (below + 1).repr).toList at member
      rw [String.toList_append] at member
      rcases List.mem_append.mp member with sign | digit
      · rw [List.mem_singleton.mp sign]
        rfl
      · exact natural _ char digit

theorem whole_nonempty (value : Int) : (toString value).toList ≠ [] := by
  intro none
  have empty : (toString value : String) = "" := String.toList_eq_nil_iff.mp none
  cases value with
  | ofNat value => exact Nat.repr_ne_empty empty
  | negSucc below => exact absurd (String.append_eq_empty_iff.mp empty).1 (by decide)

private theorem Kind.ofFirst_numeral {char : Char} (numeral : isNumeral char = true) :
    Kind.ofFirst char = some .number := by
  unfold Kind.ofFirst
  split
  case h_7 => exact if_pos numeral
  all_goals exact absurd numeral (by decide)

theorem Plain.first {value : Json} (plain : Plain language value) {text : String}
    (written : ofJson language value = .ok text) :
    ∃ char rest, text.toList = char :: rest ∧ Kind.ofFirst char = some (kind value) := by
  cases plain with
  | null =>
      cases written
      cases language with
      | c => exact ⟨'N', ['U', 'L', 'L'], rfl, rfl⟩
      | cpp => exact ⟨'n', ['u', 'l', 'l', 'p', 't', 'r'], rfl, rfl⟩
  | bool named value =>
      cases named
      cases written
      cases value with
      | true => exact ⟨'t', ['r', 'u', 'e'], rfl, rfl⟩
      | false => exact ⟨'f', ['a', 'l', 's', 'e'], rfl, rfl⟩
  | whole value =>
      cases written
      obtain ⟨char, rest, split⟩ := List.exists_cons_of_ne_nil (whole_nonempty value)
      have numeral := isNumeral_of_whole value char (by rw [split]; exact List.mem_cons_self)
      exact ⟨char, rest, split, Kind.ofFirst_numeral numeral⟩
  | string value =>
      cases written
      exact ⟨'"', _, toList_quoted value, rfl⟩
  | array all =>
      obtain ⟨texts, _, braced⟩ := array_written written
      exact ⟨'\x7b', _, braced, rfl⟩

/-! ### Ends of literals -/

/-- What follows a literal continues no number. -/
def Ends (after : List Char) : Prop := ∀ char ∈ after.head?, isNumeral char = false

private theorem ends_nil : Ends [] := fun _ absent => by cases absent

private theorem ends_following (texts : List String) (after : List Char) :
    Ends (following texts ++ after) := by
  intro char first
  cases texts with
  | nil =>
      cases first
      rfl
  | cons text texts =>
      cases first
      rfl

private theorem takeWhile_whole (value : Int) {after : List Char} (ends : Ends after) :
    ((toString value).toList ++ after).takeWhile isNumeral = (toString value).toList := by
  rw [List.takeWhile_append_of_pos (isNumeral_of_whole value)]
  cases after with
  | nil => rw [List.takeWhile_nil, List.append_nil]
  | cons char after =>
      rw [List.takeWhile_cons, ends char rfl, if_neg Bool.false_ne_true, List.append_nil]

private theorem eq_of_whole {value other : Int} {after otherAfter : List Char} (ends : Ends after)
    (otherEnds : Ends otherAfter)
    (same : (toString value).toList ++ after = (toString other).toList ++ otherAfter) :
    value = other ∧ after = otherAfter := by
  have digits := congrArg (List.takeWhile isNumeral) same
  rw [takeWhile_whole value ends, takeWhile_whole other otherEnds] at digits
  refine ⟨Int.repr_injective (String.toList_inj.mp digits), ?_⟩
  rw [digits] at same
  exact List.append_cancel_left same

/-- A quoted text is read back from whatever it begins, so its closing quote is known. -/
theorem eq_of_quoted {value other : String} {after otherAfter : List Char}
    (same : (Json.quoted value).toList ++ after = (Json.quoted other).toList ++ otherAfter) :
    value = other ∧ after = otherAfter := by
  have read : ∀ (text : String) (rest : List Char),
      Token.string (Utf8.bytes ((Json.quoted text).toList ++ rest).tail) =
        .ok (text, Utf8.bytes rest) := by
    intro text rest
    have quote : Utf8.bytes ('"' :: rest) = 0x22 :: Utf8.bytes rest :=
      Utf8.bytes_cons_ascii (by decide) rest
    rw [toList_quoted, List.cons_append, List.tail_cons, List.append_assoc,
      List.singleton_append, Utf8.bytes_append, quote, Token.string_quoted]
  have left := read value after
  rw [same, read other otherAfter] at left
  obtain rfl : other = value := congrArg Prod.fst (Except.ok.inj left)
  exact ⟨rfl, List.append_cancel_left same⟩

/-! ### One value for each literal -/

/-- Wherever its literal begins a text, no other plain value's literal does: the literal and what
comes after it are known from the text. -/
def Separable (language : Language) (value : Json) : Prop :=
  ∀ {other : Json} {text otherText : String} {after otherAfter : List Char},
    Plain language other → ofJson language value = .ok text →
    ofJson language other = .ok otherText → Ends after → Ends otherAfter →
    text.toList ++ after = otherText.toList ++ otherAfter → value = other ∧ after = otherAfter

theorem kind_eq {value other : Json} (plain : Plain language value)
    (otherPlain : Plain language other) {text otherText : String}
    (written : ofJson language value = .ok text)
    (otherWritten : ofJson language other = .ok otherText) {after otherAfter : List Char}
    (same : text.toList ++ after = otherText.toList ++ otherAfter) : kind value = kind other := by
  obtain ⟨char, rest, begins, isKind⟩ := plain.first written
  obtain ⟨otherChar, otherRest, otherBegins, isOther⟩ := otherPlain.first otherWritten
  rw [begins, otherBegins] at same
  rw [(List.cons.inj same).1, isOther] at isKind
  exact (Option.some.inj isKind).symm

theorem not_brace {value : Json} (plain : Plain language value) {text : String}
    (written : ofJson language value = .ok text) {after rest : List Char} :
    '\x7d' :: rest ≠ text.toList ++ after := by
  intro same
  obtain ⟨char, later, begins, isKind⟩ := plain.first written
  rw [begins] at same
  rw [← (List.cons.inj same).1] at isKind
  cases isKind

private theorem eq_of_following {items otherItems : List Json} {texts otherTexts : List String}
    (written : List.Forall₂ (fun item text => ofJson language item = .ok text) items texts)
    (otherWritten : List.Forall₂ (fun item text => ofJson language item = .ok text)
      otherItems otherTexts)
    (separable : ∀ item ∈ items, Separable language item)
    (plain : ∀ item ∈ otherItems, Plain language item) {after otherAfter : List Char}
    (same : following texts ++ after = following otherTexts ++ otherAfter) :
    items = otherItems ∧ after = otherAfter := by
  -- The texts are taken apart item by item, each item followed by a comma or the brace.
  induction written generalizing otherItems otherTexts with
  | nil =>
      cases otherWritten with
      | nil => exact ⟨rfl, List.append_cancel_left same⟩
      | cons _ _ => cases same
  | @cons item text items texts here later ih =>
      cases otherWritten with
      | nil => cases same
      | @cons other otherText otherItems otherTexts otherHere otherLater =>
          simp only [following_cons, List.append_assoc] at same
          obtain ⟨rfl, rest⟩ := separable item List.mem_cons_self
            (plain other List.mem_cons_self) here otherHere (ends_following _ _)
            (ends_following _ _) (List.append_cancel_left same)
          obtain ⟨rfl, rfl⟩ := ih otherLater
            (fun item member => separable item (List.mem_cons_of_mem _ member))
            (fun item member => plain item (List.mem_cons_of_mem _ member)) rest
          exact ⟨rfl, rfl⟩

theorem eq_of_items {items otherItems : List Json} {texts otherTexts : List String}
    (written : List.Forall₂ (fun item text => ofJson language item = .ok text) items texts)
    (otherWritten : List.Forall₂ (fun item text => ofJson language item = .ok text)
      otherItems otherTexts)
    (allPlain : ∀ item ∈ items, Plain language item)
    (separable : ∀ item ∈ items, Separable language item)
    (plain : ∀ item ∈ otherItems, Plain language item) {after otherAfter : List Char}
    (same : (", ".intercalate texts).toList ++ ['\x7d'] ++ after =
      (", ".intercalate otherTexts).toList ++ ['\x7d'] ++ otherAfter) :
    items = otherItems ∧ after = otherAfter := by
  cases written with
  | nil =>
      cases otherWritten with
      | nil => exact ⟨rfl, List.append_cancel_left same⟩
      | @cons other otherText otherItems otherTexts here _ =>
          rw [toList_intercalate_cons, List.append_assoc, List.append_assoc] at same
          exact absurd same (not_brace (plain other List.mem_cons_self) here)
  | @cons item text items texts here later =>
      cases otherWritten with
      | nil =>
          rw [toList_intercalate_cons, List.append_assoc, List.append_assoc] at same
          exact absurd same.symm (not_brace (allPlain item List.mem_cons_self) here)
      | @cons other otherText otherItems otherTexts otherHere otherLater =>
          simp only [toList_intercalate_cons, List.append_assoc] at same
          apply eq_of_following (.cons here later) (.cons otherHere otherLater) separable plain
          simp only [following_cons, List.append_assoc, same]

private theorem Plain.separable {value : Json} (plain : Plain language value) :
    Separable language value := by
  induction plain with
  | null =>
      intro other text otherText after otherAfter otherPlain written otherWritten _ _ same
      have alike := kind_eq .null otherPlain written otherWritten same
      cases otherPlain with
      | null =>
          rw [written] at otherWritten
          cases otherWritten
          exact ⟨rfl, List.append_cancel_left same⟩
      | bool | whole | string | array => cases alike
  | bool named value =>
      intro other text otherText after otherAfter otherPlain written otherWritten _ _ same
      have alike := kind_eq (.bool named value) otherPlain written otherWritten same
      cases otherPlain with
      | bool _ otherValue =>
          cases named
          cases written
          cases otherWritten
          cases value <;> cases otherValue
          case false.false | true.true => exact ⟨rfl, List.append_cancel_left same⟩
          case false.true | true.false => cases same
      | null | whole | string | array => cases alike
  | whole value =>
      intro other text otherText after otherAfter otherPlain written otherWritten ends otherEnds
        same
      have alike := kind_eq (.whole value) otherPlain written otherWritten same
      cases otherPlain with
      | whole otherValue =>
          cases written
          cases otherWritten
          obtain ⟨rfl, rest⟩ := eq_of_whole ends otherEnds same
          exact ⟨rfl, rest⟩
      | null | bool | string | array => cases alike
  | string value =>
      intro other text otherText after otherAfter otherPlain written otherWritten _ _ same
      have alike := kind_eq (.string value) otherPlain written otherWritten same
      cases otherPlain with
      | string otherValue =>
          cases written
          cases otherWritten
          obtain ⟨rfl, rest⟩ := eq_of_quoted same
          exact ⟨rfl, rest⟩
      | null | bool | whole | array => cases alike
  | array all ih =>
      intro other text otherText after otherAfter otherPlain written otherWritten _ _ same
      have alike := kind_eq (.array all) otherPlain written otherWritten same
      cases otherPlain with
      | array otherAll =>
          obtain ⟨texts, each, braced⟩ := array_written written
          obtain ⟨otherTexts, otherEach, otherBraced⟩ := array_written otherWritten
          rw [braced, otherBraced] at same
          obtain ⟨rfl, rest⟩ := eq_of_items each otherEach all ih otherAll (List.cons.inj same).2
          exact ⟨rfl, rest⟩
      | null | bool | whole | string => cases alike

/-- A plain value has a literal, and no other plain value has the same. -/
theorem plain_literal {value : Json} (plain : Plain language value) :
    ∃ text, ofJson language value = .ok text ∧
      ∀ other, Plain language other → (ofJson language other = .ok text ↔ other = value) := by
  obtain ⟨text, written⟩ := plain.exists_ofJson
  refine ⟨text, written, fun other otherPlain => ⟨fun otherWritten => ?_, ?_⟩⟩
  · exact (plain.separable otherPlain written otherWritten ends_nil ends_nil rfl).1.symm
  · rintro rfl
    exact written

/-! A string that looks like the end of an array, between a negative number and arrays that
differ in nothing else. -/

theorem plain_literal_nested :
    let value : Json := .array [.number (.whole (-12)), .string "\", \x7b\\", .array [], .bool true,
      .array [.null, .array []]]
    let text := "\x7b-12, \"\\\", \x7b\\\\\", \x7b\x7d, true, \x7bnullptr, \x7b\x7d\x7d\x7d"
    Plain .cpp value ∧ ofJson .cpp value = .ok text ∧
      ∀ other, Plain .cpp other → (ofJson .cpp other = .ok text ↔ other = value) := by
  intro value text
  have empty : Plain .cpp (.array []) := .array (List.forall_mem_nil _)
  have inner : Plain .cpp (.array [.null, .array []]) := by
    refine .array (List.forall_mem_cons.mpr ⟨.null, ?_⟩)
    exact List.forall_mem_singleton.mpr empty
  have plain : Plain .cpp value := by
    refine .array ?_
    simp only [List.forall_mem_cons]
    exact ⟨.whole _, .string _, empty, .bool rfl _, inner, List.forall_mem_nil _⟩
  have shown : ofJson .cpp value = .ok text := rfl
  obtain ⟨found, written, only⟩ := plain_literal plain
  cases shown.symm.trans written
  exact ⟨plain, shown, only⟩

/-! In C a truth value has the literal of a whole number. -/

example : ofJson .c (.bool true) = ofJson .c (.number (.whole 1)) := rfl

end Interleave.Literal
