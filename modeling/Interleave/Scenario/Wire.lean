import Interleave.Scenario.Order

set_option autoImplicit false

/-! The written form of scenarios. Members are decoded in the order of the document, the first
failure is reported, and names that are no field are passed over. -/

namespace Interleave

def indexType : String := "usize"

namespace Language

def known : List String := ["c", "c++", "cpp", "cxx"]

def ofName (name : String) : Except Mismatch Language :=
  match name with
  | "c" => .ok .c
  | "cpp" => .ok .cpp
  | "c++" => .ok .cpp
  | "cxx" => .ok .cpp
  | _ => .error (.unknownChoice name known)

/-- A name, or an object whose only member has that name and holds nothing. -/
def ofJson : Json → Except Mismatch Language
  | .string name => ofName name
  | .object [(name, value)] => do
      let language ← ofName name
      match value with
      | .null => return language
      | other => Decode.refuse other .nothing
  | .object _ => .error (.wrongValue .object .singleEntry)
  | other => Decode.refuse other .choice

end Language

namespace Thread

structure Draft where
  index : Option Nat
  calls : List Call

def Draft.field (draft : Draft) (member : String × Json) : Except Mismatch Draft :=
  match member.1 with
  | "index" => do return { draft with index := some (← Decode.natural indexType member.2) }
  | "invocations" => do return { draft with calls := ← Decode.list Call.ofJson member.2 }
  | _ => .ok draft

def ofMembers (members : Members Json) : Except Mismatch Thread := do
  let draft ← members.foldlM Draft.field ⟨none, []⟩
  match draft.index with
  | some index => return ⟨index, draft.calls⟩
  | none => .error (.missingField "index")

def wanted : Wanted := .record "SequenceSchema" 2

/-- The array form: index, calls; only the first must be there. -/
def ofPlaces (places : List Json) : Except Mismatch Thread :=
  match places with
  | [] => .error (.tooShort 0 wanted)
  | index :: _ => do
      let index ← Decode.natural indexType index
      let calls ← Decode.place places 1 [] (Decode.list Call.ofJson)
      Decode.noMoreThan 2 places
      return ⟨index, calls⟩

def ofJson : Json → Except Mismatch Thread
  | .object members => ofMembers members
  | .array places => ofPlaces places
  | other => Decode.refuse other wanted

def toJson (thread : Thread) : Json :=
  .object [("index", .natural thread.index),
    ("invocations", .array (thread.calls.map Call.toJson))]

end Thread

namespace Scenario

def orderPair : Json → Except Mismatch (Nat × Nat)
  | .array [] => .error (.tooShort 0 .pair)
  | .array [before] => do
      let _ ← Decode.natural indexType before
      .error (.tooShort 1 .pair)
  | .array (before :: after :: others) => do
      let before ← Decode.natural indexType before
      let after ← Decode.natural indexType after
      match others with
      | [] => return (before, after)
      | _ => .error (.tooLong (others.length + 2))
  | other => Decode.refuse other .pair

def field (scenario : Scenario) (member : String × Json) : Except Mismatch Scenario :=
  let value := member.2
  match member.1 with
  | "class" => do return { scenario with className := ← Decode.optional Decode.string value }
  | "id" => do return { scenario with id := ← Decode.optional (Decode.natural "u64") value }
  | "sequences" => do return { scenario with threads := ← Decode.list Thread.ofJson value }
  | "order" => do return { scenario with order := ← Decode.list orderPair value }
  | "language" => do
      return { scenario with language := ← Decode.optional Language.ofJson value }
  | "object_name" => do
      return { scenario with objectName := ← Decode.optional Decode.string value }
  | "init" => do return { scenario with setup := ← Decode.optional Decode.string value }
  | "init_parameters" => do return { scenario with setupParameters := ← Decode.array value }
  | "outcomes" => do return { scenario with outcomes := ← Decode.list Decode.array value }
  | _ => .ok scenario

/-- Decodes without tagging the calls and without asking whether the scenario is valid. -/
def ofMembers (members : Members Json) : Except Mismatch Scenario :=
  members.foldlM field Scenario.empty

def read (members : Members Json) : Except ScenarioError Scenario :=
  match ofMembers members with
  | .error cause => .error (.mismatch cause)
  | .ok decoded =>
      match decoded.tagged.validate with
      | .error error => .error error
      | .ok () => .ok decoded.tagged

def optionalMember (name : String) (value : Option Json) : Members Json :=
  match value with
  | some value => [(name, value)]
  | none => []

def nonemptyMember (name : String) (items : List Json) : Members Json :=
  if items.isEmpty then [] else [(name, .array items)]

def members (scenario : Scenario) : Members Json :=
  optionalMember "class" (scenario.className.map .string) ++
  optionalMember "id" (scenario.id.map .natural) ++
  [("sequences", .array (scenario.threads.map Thread.toJson)),
    ("order", .array (scenario.order.map (fun pair =>
      .array [.natural pair.1, .natural pair.2])))] ++
  optionalMember "language" (scenario.language.map (fun language => .string language.name)) ++
  optionalMember "object_name" (scenario.objectName.map .string) ++
  optionalMember "init" (scenario.setup.map .string) ++
  nonemptyMember "init_parameters" scenario.setupParameters ++
  nonemptyMember "outcomes" (scenario.outcomes.map .array)

def toJson (scenario : Scenario) : Json := .object scenario.members

end Scenario

end Interleave
