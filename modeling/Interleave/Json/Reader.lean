import Interleave.Json.Token

set_option autoImplicit false

/-! The grammar of JSON texts over the tokens: arrays and objects with any reader for what
stands in them, values of bounded nesting, and whole texts. A reader of a whole text turns
the place where it stopped into a line and a column. -/

namespace Interleave

inductive Next where
  | close (rest : List UInt8)
  | more (bytes : List UInt8)

namespace Reader

open Token

/-! ### Arrays and objects -/

def nextItem (first : Bool) (bytes : List UInt8) : Except Stop Next :=
  match dropBlank bytes with
  | [] => .error (.before .endOfArray [])
  | byte :: rest =>
      if byte = 0x5d then .ok (.close rest)
      else if first then .ok (.more (byte :: rest))
      else if byte = 0x2c then
        match dropBlank rest with
        | [] => .error (.before .endOfValue [])
        | next :: rest =>
            if next = 0x5d then .error (.before .trailingComma (next :: rest))
            else .ok (.more (next :: rest))
      else .error (.before .expectedArrayEnd (byte :: rest))

def nextName (first : Bool) (bytes : List UInt8) : Except Stop Next :=
  match dropBlank bytes with
  | [] => .error (.before .endOfObject [])
  | byte :: rest =>
      if byte = 0x7d then .ok (.close rest)
      else if first then
        if byte = 0x22 then .ok (.more rest)
        else .error (.before .nameNotString (byte :: rest))
      else if byte = 0x2c then
        match dropBlank rest with
        | [] => .error (.before .endOfValue [])
        | next :: rest =>
            if next = 0x22 then .ok (.more rest)
            else if next = 0x7d then .error (.before .trailingComma (next :: rest))
            else .error (.before .nameNotString (next :: rest))
      else .error (.before .expectedObjectEnd (byte :: rest))

def colon (bytes : List UInt8) : Except Stop (List UInt8) :=
  match dropBlank bytes with
  | [] => .error (.before .endOfObject [])
  | byte :: rest =>
      if byte = 0x3a then .ok rest else .error (.before .expectedColon (byte :: rest))

/-- The items of an array whose bracket has been passed. Each takes a byte at least, so `size`
need only exceed the number of bytes. -/
def items {α : Type} (item : List UInt8 → Read α) :
    (size : Nat) → (first : Bool) → (done : List α) → List UInt8 → Read (List α)
  | 0, _, _, bytes => .error (.before .endOfArray bytes)
  | size + 1, first, done, bytes =>
      match nextItem first bytes with
      | .error stop => .error stop
      | .ok (.close rest) => .ok (done.reverse, rest)
      | .ok (.more bytes) =>
          match item bytes with
          | .error stop => .error stop
          | .ok (value, rest) => items item size false (value :: done) rest

/-- The members of an object whose brace has been passed; `field` takes over after each name,
colon included. -/
def fields {α : Type} (field : α → String → List UInt8 → Read α) :
    (size : Nat) → (first : Bool) → (done : α) → List UInt8 → Read α
  | 0, _, _, bytes => .error (.before .endOfObject bytes)
  | size + 1, first, done, bytes =>
      match nextName first bytes with
      | .error stop => .error stop
      | .ok (.close rest) => .ok (done, rest)
      | .ok (.more bytes) =>
          match string bytes with
          | .error stop => .error stop
          | .ok (name, rest) =>
              match field done name rest with
              | .error stop => .error stop
              | .ok (done, rest) => fields field size false done rest

/-! ### Values -/

def scalar (byte : UInt8) (rest : List UInt8) : Read Json :=
  if byte = 0x6e then (word [0x75, 0x6c, 0x6c] rest).map (fun rest => (.null, rest))
  else if byte = 0x74 then (word [0x72, 0x75, 0x65] rest).map (fun rest => (.bool true, rest))
  else if byte = 0x66 then
    (word [0x61, 0x6c, 0x73, 0x65] rest).map (fun rest => (.bool false, rest))
  else if byte = 0x2d then (number true rest).map (fun (value, rest) => (.number value, rest))
  else if isDigit byte then
    (number false (byte :: rest)).map (fun (value, rest) => (.number value, rest))
  else if byte = 0x22 then (string rest).map (fun (value, rest) => (.string value, rest))
  else .error (.before .expectedValue (byte :: rest))

def member (value : List UInt8 → Read Json) (members : Members Json) (name : String)
    (bytes : List UInt8) : Read (Members Json) :=
  match colon bytes with
  | .error stop => .error stop
  | .ok bytes => (value bytes).map (fun (value, rest) => (Members.set members name value, rest))

/-- A value in which at most `levels` arrays and objects are open at once. -/
def value (size : Nat) : (levels : Nat) → List UInt8 → Read Json
  | levels, bytes =>
      match dropBlank bytes with
      | [] => .error (.before .endOfValue [])
      | byte :: rest =>
          if byte = 0x5b then
            match levels with
            | 0 => .error (.before .tooDeep (byte :: rest))
            | levels + 1 =>
                (items (value size levels) size true [] rest).map
                  (fun (values, rest) => (.array values, rest))
          else if byte = 0x7b then
            match levels with
            | 0 => .error (.before .tooDeep (byte :: rest))
            | levels + 1 =>
                (fields (member (value size levels)) size true [] rest).map
                  (fun (members, rest) => (.object members, rest))
          else scalar byte rest

def deepest : Nat := 127

/-! ### Other shapes -/

/-- The complaint about a value of the wrong type, or about what makes it no value at all. An
array or an object is pointed at before its bracket. -/
def unwanted (wanted : Wanted) (byte : UInt8) (rest : List UInt8) : Stop :=
  if byte = 0x5b then .after (.mismatch (.wrongType .array wanted)) (byte :: rest)
  else if byte = 0x7b then .after (.mismatch (.wrongType .object wanted)) (byte :: rest)
  else match scalar byte rest with
    | .error stop => stop
    | .ok (value, rest) => .after (.mismatch (.wrongType (.ofJson value) wanted)) rest

def object (size : Nat) (bytes : List UInt8) : Read (Members Json) :=
  match dropBlank bytes with
  | [] => .error (.before .endOfValue [])
  | byte :: rest =>
      if byte = 0x7b then fields (member (value size (deepest - 1))) size true [] rest
      else .error (unwanted .object byte rest)

/-! ### Whole texts -/

def locate (text : List UInt8) (stop : Stop) : SyntaxError :=
  let passed := text.take (text.length - stop.rest.length)
  { complaint := stop.complaint
    line := 1 + passed.count 0x0a
    column := (passed.reverse.takeWhile (fun byte => byte != 0x0a)).length - stop.back }

/-- Reads one thing with blanks around it. The reader is told a size above that of the text. -/
def whole {α : Type} (reader : Nat → List UInt8 → Read α) (text : List UInt8) :
    Except SyntaxError α :=
  match reader (text.length + 1) text with
  | .error stop => .error (locate text stop)
  | .ok (value, rest) =>
      match dropBlank rest with
      | [] => .ok value
      | rest => .error (locate text (.before .trailingCharacters rest))

end Reader

namespace Json

def parse (text : List UInt8) : Except SyntaxError Json :=
  Reader.whole (fun size => Reader.value size Reader.deepest) text

def parseObject (text : List UInt8) : Except SyntaxError (Members Json) :=
  Reader.whole Reader.object text

end Json

end Interleave
