import Interleave.Enumeration
import Interleave.Proofs.RunEnds

set_option autoImplicit false

/-! The stream that scenarios are written to, and its documents. Indented text has the bytes of a
layout with line breaks, so it is read as compact text is, and it holds three dashes only where a
name or a string does. -/

open Interleave.Frame

namespace Interleave

open Utf8

private theorem Json.encode_newline (level : Nat) :
    encode (newline level) = 0x0a :: List.replicate (2 * level) 0x20 := by
  have blanks : ∀ count, bytes (List.replicate count ' ') = List.replicate count 0x20 := by
    intro count
    induction count with
    | zero => rfl
    | succ count ih =>
        rw [List.replicate_succ, List.replicate_succ, bytes_cons_ascii (by decide), ih]
        rfl
  unfold newline
  rw [encode_ofList, bytes_cons_ascii (by decide), blanks]
  rfl

def Layout.indented : Layout where
  gap level := encode (Json.newline level)
  space := [0x20]
  gap_blank level byte member := by
    rw [Json.encode_newline] at member
    cases member with
    | head => rfl
    | tail _ blank =>
        rw [List.eq_of_mem_replicate blank]
        rfl
  space_blank byte member := by
    rw [List.mem_singleton.mp member]
    rfl

namespace Json

mutual

private theorem encode_writeIndented : ∀ (value : Json) (level : Nat) (before : String),
    encode (writeIndented level before value) = encode before ++ spell .indented level value
  | .null, level, before => by rw [writeIndented, encode_append, spell]
  | .bool value, level, before => by rw [writeIndented, encode_append, spell]
  | .number value, level, before => by rw [writeIndented, encode_append, spell]
  | .string value, level, before => by rw [writeIndented, encode_append, spell]
  | .array [], level, before => by
      rw [writeIndented, encode_append, spell]
      rfl
  | .array (item :: items), level, before => by
      rw [writeIndented, encode_indentedItems items level, encode_writeIndented item (level + 1),
        encode_append, encode_append, spell]
      simp only [List.append_assoc]
      rfl
  | .object [], level, before => by
      rw [writeIndented, encode_append, spell]
      rfl
  | .object ((name, value) :: members), level, before => by
      rw [writeIndented, encode_indentedMembers members level,
        encode_writeIndented value (level + 1), encode_append, encode_append, encode_append,
        encode_append, spell]
      simp only [List.append_assoc]
      rfl

private theorem encode_indentedItems : ∀ (items : List Json) (level : Nat) (before : String),
    encode (indentedItems level before items) = encode before ++ spellItems .indented level items
  | [], level, before => by
      rw [indentedItems, encode_append, encode_append, spellItems, List.append_assoc]
      rfl
  | item :: items, level, before => by
      rw [indentedItems, encode_indentedItems items level, encode_writeIndented item (level + 1),
        encode_append, encode_append, spellItems]
      simp only [List.append_assoc]
      rfl

private theorem encode_indentedMembers : ∀ (members : Members Json) (level : Nat) (before : String),
    encode (indentedMembers level before members) =
      encode before ++ spellMembers .indented level members
  | [], level, before => by
      rw [indentedMembers, encode_append, encode_append, spellMembers, List.append_assoc]
      rfl
  | (name, value) :: members, level, before => by
      rw [indentedMembers, encode_indentedMembers members level,
        encode_writeIndented value (level + 1), encode_append, encode_append, encode_append,
        encode_append, spellMembers]
      simp only [List.append_assoc]
      rfl

end

private theorem encode_indented (value : Json) :
    encode (indented value) = spell .indented 0 value := by
  unfold indented
  rw [encode_writeIndented value 0]
  rfl

end Json

namespace Written

def textOf (scenario : Scenario) : List UInt8 := Json.spell .indented 0 scenario.toJson

private theorem loop_eq (scenarios : List Scenario) (output : String) (count : Nat) :
    encode (loop none output count scenarios).output =
        encode output ++ (scenarios.map textOf).flatMap (fun text => delimiter ++ framed text) ∧
      (loop none output count scenarios).count = some (count + scenarios.length) := by
  induction scenarios generalizing output count with
  | nil => exact ⟨(List.append_nil _).symm, rfl⟩
  | cons scenario scenarios ih =>
      obtain ⟨written, counted⟩ :=
        ih (output ++ Frame.ofText (Json.indented scenario.toJson)) (count + 1)
      unfold loop
      dsimp only
      rw [if_neg (by simp), written, counted, encode_append, encode_ofText, Json.encode_indented,
        List.map_cons, List.flatMap_cons, List.append_assoc, List.length_cons, Nat.add_assoc,
        Nat.add_comm 1]
      exact ⟨rfl, rfl⟩

theorem count_ofScenarios (scenarios : List Scenario) :
    (ofScenarios none scenarios).count = some scenarios.length := by
  unfold ofScenarios
  rw [(loop_eq scenarios "" 0).2, Nat.zero_add]

/-- Without three dashes in a name or a string, the documents are the texts of the scenarios. -/
theorem documents_ofScenarios {scenarios : List Scenario}
    (clean : ∀ scenario ∈ scenarios, ¬Json.SomeDashes (Json.texts scenario.toJson)) :
    documentsOf (encode (ofScenarios none scenarios).output) none =
      scenarios.map (fun scenario => framed (textOf scenario)) := by
  have stream : encode (ofScenarios none scenarios).output =
      (scenarios.map textOf).flatMap (fun text => delimiter ++ framed text) :=
    (loop_eq scenarios "" 0).1
  have braced : ∀ text ∈ scenarios.map textOf, Braced text := by
    intro text member
    obtain ⟨scenario, _, same⟩ := List.mem_map.mp member
    rw [← same]
    exact Run.braced_spell .indented scenario.members
  have whole : ∀ text ∈ scenarios.map textOf, ¬delimiter <:+: text := by
    intro text member
    obtain ⟨scenario, inScenarios, same⟩ := List.mem_map.mp member
    rw [← same]
    exact fun found => clean scenario inScenarios
      ((Json.delimiter_spell .indented scenario.toJson 0).mp found)
  unfold documentsOf
  rw [stream, (nonblank_frames_iff braced).2 whole, List.map_map]
  rfl

end Written

end Interleave
