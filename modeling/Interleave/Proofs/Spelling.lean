import Interleave.Json.Printer
import Interleave.Json.Token
import Interleave.Proofs.Unicode

set_option autoImplicit false

/-! The bytes of printed values, part by part instead of after what stands before them, and when
three dashes follow one another in them. -/

namespace Interleave

/-- The blanks of a printed value: before an item, a member or a closing bracket at some level,
and after a colon. -/
structure Layout where
  gap : Nat → List UInt8
  space : List UInt8
  gap_blank : ∀ level, ∀ byte ∈ gap level, Token.isBlank byte = true
  space_blank : ∀ byte ∈ space, Token.isBlank byte = true

def Layout.dense : Layout :=
  ⟨fun _ => [], [], fun _ _ absent => absurd absent List.not_mem_nil,
    fun _ absent => absurd absent List.not_mem_nil⟩

namespace Json

open Utf8

theorem encode_quoted (text : String) :
    encode (quoted text) =
      0x22 :: (bytes (text.toList.flatMap escape) ++ [0x22]) := by
  unfold quoted
  rw [encode_ofList, ← List.singleton_append, List.append_assoc, bytes_append, bytes_append]
  rfl

mutual

def spell (layout : Layout) (level : Nat) : Json → List UInt8
  | .null => encode "null"
  | .bool value => encode (if value then "true" else "false")
  | .number value => encode value.text
  | .string value => encode (quoted value)
  | .array [] => [0x5b, 0x5d]
  | .array (item :: items) =>
      0x5b :: (layout.gap (level + 1) ++ spell layout (level + 1) item ++
        spellItems layout level items)
  | .object [] => [0x7b, 0x7d]
  | .object ((name, value) :: members) =>
      0x7b :: (layout.gap (level + 1) ++ encode (quoted name) ++ 0x3a :: (layout.space ++
        spell layout (level + 1) value ++ spellMembers layout level members))

def spellItems (layout : Layout) (level : Nat) : List Json → List UInt8
  | [] => layout.gap level ++ [0x5d]
  | item :: items =>
      0x2c :: (layout.gap (level + 1) ++ spell layout (level + 1) item ++
        spellItems layout level items)

def spellMembers (layout : Layout) (level : Nat) : Members Json → List UInt8
  | [] => layout.gap level ++ [0x7d]
  | (name, value) :: members =>
      0x2c :: (layout.gap (level + 1) ++ encode (quoted name) ++ 0x3a :: (layout.space ++
        spell layout (level + 1) value ++ spellMembers layout level members))

end

mutual

private theorem encode_write : ∀ (value : Json) (level : Nat) (before : String),
    encode (write before value) = encode before ++ spell .dense level value
  | .null, level, before => by rw [write, encode_append, spell]
  | .bool value, level, before => by rw [write, encode_append, spell]
  | .number value, level, before => by rw [write, encode_append, spell]
  | .string value, level, before => by rw [write, encode_append, spell]
  | .array [], level, before => by
      rw [write, encode_append, spell]
      rfl
  | .array (item :: items), level, before => by
      rw [write, encode_writeItems items level, encode_write item (level + 1), encode_append,
        spell, List.append_assoc, List.append_assoc]
      rfl
  | .object [], level, before => by
      rw [write, encode_append, spell]
      rfl
  | .object ((name, value) :: members), level, before => by
      rw [write, encode_writeMembers members level, encode_write value (level + 1),
        encode_append, encode_append, encode_append, spell]
      simp only [List.append_assoc]
      rfl

private theorem encode_writeItems : ∀ (items : List Json) (level : Nat) (before : String),
    encode (writeItems before items) = encode before ++ spellItems .dense level items
  | [], level, before => by
      rw [writeItems, encode_append, spellItems]
      rfl
  | item :: items, level, before => by
      rw [writeItems, encode_writeItems items level, encode_write item (level + 1),
        encode_append, spellItems, List.append_assoc, List.append_assoc]
      rfl

private theorem encode_writeMembers : ∀ (members : Members Json) (level : Nat) (before : String),
    encode (writeMembers before members) = encode before ++ spellMembers .dense level members
  | [], level, before => by
      rw [writeMembers, encode_append, spellMembers]
      rfl
  | (name, value) :: members, level, before => by
      rw [writeMembers, encode_writeMembers members level, encode_write value (level + 1),
        encode_append, encode_append, encode_append, spellMembers]
      simp only [List.append_assoc]
      rfl

end

theorem encode_compact (value : Json) : encode (compact value) = spell .dense 0 value := by
  unfold compact
  rw [encode_write value 0]
  rfl

end Json

end Interleave
