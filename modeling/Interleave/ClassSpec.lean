import Interleave.Json.Record

set_option autoImplicit false

/-! Class specifications: a class and its methods. They are decoded while their text is read, so
that whatever is wrong first in the text is reported, with its place. -/

namespace Interleave

structure MethodSpec where
  name : String
  parameters : List String
  /-- Trusted methods may stand beside the method under test. -/
  trusted : Bool
  isVoid : Bool
  deriving DecidableEq

structure ClassSpec where
  name : String
  methods : List MethodSpec
  deriving DecidableEq

namespace MethodSpec

open Reader

structure Draft where
  name : Option String
  parameters : Option (List String)
  trusted : Option Bool
  isVoid : Option Bool

def Draft.field (size : Nat) (draft : Draft) (name : String) (bytes : List UInt8) :
    Read Draft :=
  match name with
  | "name" =>
      fieldOnce name draft.name.isSome text (fun value => { draft with name := some value }) bytes
  | "parameters" =>
      fieldOnce name draft.parameters.isSome (list text size)
        (fun value => { draft with parameters := some value }) bytes
  | "trusted" =>
      fieldOnce name draft.trusted.isSome flag
        (fun value => { draft with trusted := some value }) bytes
  | "void" =>
      fieldOnce name draft.isVoid.isSome flag
        (fun value => { draft with isVoid := some value }) bytes
  | _ => unknownField draft bytes

def ofFields (size : Nat) (bytes : List UInt8) : Read MethodSpec :=
  match fields (Draft.field size) size true ⟨none, none, none, none⟩ bytes with
  | .error stop => .error stop
  | .ok (draft, rest) =>
      match draft.name with
      | none => .error (.after (.mismatch (.missingField "name")) rest)
      | some name =>
          .ok (⟨name, draft.parameters.getD [], draft.trusted.getD false,
            draft.isVoid.getD false⟩, rest)

/-- The array form: name, parameters, trusted, void. -/
def ofPlaces (size : Nat) (bytes : List UInt8) :
    Except Stop (MethodSpec × List UInt8) := do
  let (name, bytes) ← text bytes
  let ((parameters, isOpen), bytes) ← nextPlace [] (list text size) bytes
  let ((trusted, isOpen), bytes) ← placeIf isOpen false flag bytes
  let ((isVoid, isOpen), bytes) ← placeIf isOpen false flag bytes
  let rest ← endOfPlacesIf isOpen bytes
  return (⟨name, parameters, trusted, isVoid⟩, rest)

def read (size : Nat) (bytes : List UInt8) : Read MethodSpec :=
  record (.record "MethodSpec" 4) (ofPlaces size) (ofFields size) bytes

def toJson (method : MethodSpec) : Json :=
  .object [("name", .string method.name),
    ("parameters", .array (method.parameters.map .string)),
    ("trusted", .bool method.trusted), ("void", .bool method.isVoid)]

end MethodSpec

namespace ClassSpec

open Reader

structure Draft where
  name : Option String
  methods : Option (List MethodSpec)

def Draft.field (size : Nat) (draft : Draft) (name : String) (bytes : List UInt8) :
    Read Draft :=
  match name with
  | "class" =>
      fieldOnce name draft.name.isSome text (fun value => { draft with name := some value }) bytes
  | "methods" =>
      fieldOnce name draft.methods.isSome (list (MethodSpec.read size) size)
        (fun value => { draft with methods := some value }) bytes
  | _ => unknownField draft bytes

def ofFields (size : Nat) (bytes : List UInt8) : Read ClassSpec :=
  match fields (Draft.field size) size true ⟨none, none⟩ bytes with
  | .error stop => .error stop
  | .ok (draft, rest) =>
      match draft.name with
      | none => .error (.after (.mismatch (.missingField "class")) rest)
      | some name => .ok (⟨name, draft.methods.getD []⟩, rest)

def ofPlaces (size : Nat) (bytes : List UInt8) :
    Except Stop (ClassSpec × List UInt8) := do
  let (name, bytes) ← text bytes
  let ((methods, isOpen), bytes) ← nextPlace [] (list (MethodSpec.read size) size) bytes
  let rest ← endOfPlacesIf isOpen bytes
  return (⟨name, methods⟩, rest)

def parse (text : List UInt8) : Except SyntaxError ClassSpec :=
  whole (fun size => record (.record "ClassSpec" 2) (ofPlaces size) (ofFields size)) text

def toJson (spec : ClassSpec) : Json :=
  .object [("class", .string spec.name),
    ("methods", .array (spec.methods.map MethodSpec.toJson))]

def method? (spec : ClassSpec) (name : String) : Option MethodSpec :=
  spec.methods.find? (fun method => method.name == name)

def trusted (spec : ClassSpec) : List MethodSpec :=
  spec.methods.filter (fun method => method.trusted)

end ClassSpec

end Interleave
