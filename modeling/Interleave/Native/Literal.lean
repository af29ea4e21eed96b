import Interleave.Json.Printer
import Interleave.Scenario.Basic

set_option autoImplicit false

/-! JSON values as expressions of the native program: arguments of calls, and the results that
an outcome accepts. -/

namespace Interleave

inductive NativeError where
  /-- A thread is ordered relative to one that is neither initial nor final. -/
  | illegalOrder (index : Nat)
  | missingObject (language : Language)
  | missingClass
  | outcomeArity (outcome expected got : Nat)
  | objectArgument (value : Json) (language : Language)

def NativeError.message : NativeError → String
  | .illegalOrder index =>
      "sequence " ++ toString index ++
        " cannot be translated: only an initial and a final sequence may be ordered"
  | .missingObject language => language.name ++ " translation requires `object_name`"
  | .missingClass =>
      "`object_name` is set but the scenario has no `class` to declare it with"
  | .outcomeArity outcome expected got =>
      "outcome " ++ toString outcome ++ " has " ++ toString got ++ " values, expected " ++
        toString expected
  | .objectArgument value language =>
      "unsupported feature: object argument " ++ value.compact ++ " has no " ++
        language.name ++ " literal"

namespace Literal

def ofNull : Language → String
  | .c => "NULL"
  | .cpp => "nullptr"

def ofBool : Language → Bool → String
  | .c, value => if value then "1" else "0"
  | .cpp, value => if value then "true" else "false"

mutual

def ofJson (language : Language) : Json → Except NativeError String
  | .null => .ok (ofNull language)
  | .bool value => .ok (ofBool language value)
  | .number value => .ok value.text
  | .string value => .ok (Json.quoted value)
  | .array items =>
      (ofItems language items).map (fun texts => "\x7b" ++ ", ".intercalate texts ++ "\x7d")
  | .object members => .error (.objectArgument (.object members) language)

def ofItems (language : Language) : List Json → Except NativeError (List String)
  | [] => .ok []
  | item :: items => do
      let text ← ofJson language item
      let texts ← ofItems language items
      return text :: texts

end

/-- A parameter of the setup call; a string is an expression already. -/
def ofParameter (language : Language) : Json → Except NativeError String
  | .string expression => .ok expression
  | value => ofJson language value

def noResult : String := "EMPTY"

def mentions (word : List Char) : List Char → Bool
  | [] => word.isEmpty
  | char :: rest => word.isPrefixOf (char :: rest) || mentions word rest

/-- The expression for an accepted result. A string is an expression already, unless it names
an exception. -/
def ofOutcome : Json → String
  | .null => noResult
  | .string value =>
      if mentions "Exception".toList value.toList then noResult else value
  | .bool value => if value then "1" else "0"
  | value => value.compact

end Literal

end Interleave
