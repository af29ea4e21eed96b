import Interleave.Json.Decode
import Interleave.Json.Printer

set_option autoImplicit false

/-! Method calls: how they are written, read, compared and shown. The thread that issues a call
is no part of its written form. -/

namespace Interleave

structure Call where
  method : String
  arguments : List Json
  /-- A void call has no observable result. -/
  isVoid : Bool
  thread : Option Nat

namespace Call

def ofMethod (method : String) (arguments : List Json) : Call := ⟨method, arguments, false, none⟩

def onThread (call : Call) (index : Nat) : Call := { call with thread := some index }

def hasResult (call : Call) : Bool := !call.isVoid

def render (call : Call) : String :=
  call.method ++ "(" ++ ", ".intercalate (call.arguments.map Json.compact) ++ ")"

def toJson (call : Call) : Json :=
  .object (("method", .string call.method) :: ("arguments", .array call.arguments) ::
    (if call.isVoid then [("void", .bool true)] else []))

def sameValue (left right : Call) : Bool :=
  left.method == right.method && Json.sameItems left.arguments right.arguments &&
    left.isVoid == right.isVoid && left.thread == right.thread

structure Draft where
  method : Option String
  arguments : List Json
  isVoid : Bool

/-- Takes one member; a name that is no field is passed over. -/
def Draft.field (draft : Draft) (member : String × Json) : Except Mismatch Draft :=
  match member.1 with
  | "method" => do return { draft with method := some (← Decode.string member.2) }
  | "arguments" => do return { draft with arguments := ← Decode.array member.2 }
  | "void" => do return { draft with isVoid := ← Decode.boolean member.2 }
  | _ => .ok draft

def ofMembers (members : Members Json) : Except Mismatch Call := do
  let draft ← members.foldlM Draft.field ⟨none, [], false⟩
  match draft.method with
  | some method => return ⟨method, draft.arguments, draft.isVoid, none⟩
  | none => .error (.missingField "method")

def wanted : Wanted := .record "Invocation" 3

/-- The array form: method, arguments, void; only the first must be there. -/
def ofPlaces (places : List Json) : Except Mismatch Call :=
  match places with
  | [] => .error (.tooShort 0 wanted)
  | method :: _ => do
      let method ← Decode.string method
      let arguments ← Decode.place places 1 [] Decode.array
      let isVoid ← Decode.place places 2 false Decode.boolean
      Decode.noMoreThan 3 places
      return ⟨method, arguments, isVoid, none⟩

def ofJson : Json → Except Mismatch Call
  | .object members => ofMembers members
  | .array places => ofPlaces places
  | other => Decode.refuse other wanted

end Call

end Interleave
