import Interleave.Scenario.Basic
import Interleave.Text.Uppercase

set_option autoImplicit false

/-! Names of generated test programs. -/

namespace Interleave.Name

/-- Drops every underscore; the first character of each part, and at the start if
`partStarts`, becomes upper case. -/
def pascalChars : (partStarts : Bool) → List Char → List Char
  | _, [] => []
  | partStarts, char :: rest =>
      if char = '_' then pascalChars true rest
      else (if partStarts then Uppercase.ofChar char else [char]) ++ pascalChars false rest

def pascal (name : String) : String := String.ofList (pascalChars true name.toList)

def qualifies (char : Char) : Bool := char == '.' || char == ':'

def short (name : String) : String :=
  String.ofList (name.toList.reverse.takeWhile (fun char => !qualifies char)).reverse

def ofClass (className : Option String) : String :=
  match className with
  | none => "Harness"
  | some name => if (short name).isEmpty then "Harness" else short name

def ofProgram (scenario : Scenario) : String :=
  pascal (ofClass scenario.className) ++ "Test" ++ (scenario.id.map toString).getD "" ++ "." ++
    scenario.targetLanguage.name

end Interleave.Name
