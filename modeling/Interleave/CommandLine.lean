import Interleave.Directory
import Interleave.Enumeration
import Interleave.Run

set_option autoImplicit false

/-! The command line: what its arguments ask for, and the standard output and exit status that
follow from the files and the standard input. -/

namespace Interleave.CommandLine

-- Powers of naturals are the core ones, whatever else a module imports.
attribute [local instance (high)] instPowNat

structure GenerateOptions where
  native : Bool
  libraryFile : Option String
  limit : Option Nat
  policy : Option String

structure EnumerateOptions where
  specFile : Option String
  method : Option String
  threads : Option Nat
  calls : Option Nat
  values : Option Nat

inductive Command where
  | version
  | help
  | generate (native : Bool) (libraryFile : Option String) (limit : Nat) (policy : String)
  | enumerate (specFile : String) (request : EnumerationRequest)

/-- Why arguments are no command: they are wrong, or they ask for help before anything in them
is wrong. -/
inductive Refusal where
  | usage
  | help

/-! ### Options -/

/-- How an option goes on after its name. Storing fails when the option has been given before or
its value is not of the right kind. -/
inductive Taking (σ : Type) where
  | unknown
  | flag (store : σ → Option σ)
  | value (store : String → σ → Option σ)

def once {α σ : Type} (present : Option α) (parsed : Option α) (keep : α → σ) : Option σ :=
  match present, parsed with
  | none, some value => some (keep value)
  | _, _ => none

/-- Decimal digits after an optional plus, below `2 ^ 64`. -/
def parseNumber (text : String) : Option Nat :=
  let digits := match text.toList with
    | '+' :: digits => digits
    | digits => digits
  let isDigit (char : Char) : Bool := '0' ≤ char && char ≤ '9'
  let value := digits.foldl (fun value digit => value * 10 + (digit.toNat - 48)) 0
  if digits.isEmpty || !digits.all isDigit || 2 ^ (64 : Nat) ≤ value then none else some value

def parsePath (text : String) : Option String := if text.isEmpty then none else some text

def generateOption (name : String) : Taking GenerateOptions :=
  match name with
  | "clang" => .flag (fun options =>
      if options.native then none else some { options with native := true })
  | "lib-file" => .value (fun value options =>
      once options.libraryFile (parsePath value) (fun file => { options with libraryFile := some file }))
  | "max-linearizations" => .value (fun value options =>
      once options.limit (parseNumber value) (fun limit => { options with limit := some limit }))
  | "on-error" => .value (fun value options =>
      once options.policy (some value) (fun policy => { options with policy := some policy }))
  | _ => .unknown

def enumerateOption (name : String) : Taking EnumerateOptions :=
  match name with
  | "spec" => .value (fun value options =>
      once options.specFile (parsePath value) (fun file => { options with specFile := some file }))
  | "method" => .value (fun value options =>
      once options.method (some value) (fun method => { options with method := some method }))
  | "sequences" => .value (fun value options =>
      once options.threads (parseNumber value) (fun count => { options with threads := some count }))
  | "invocations" => .value (fun value options =>
      once options.calls (parseNumber value) (fun count => { options with calls := some count }))
  | "values" => .value (fun value options =>
      once options.values (parseNumber value) (fun count => { options with values := some count }))
  | _ => .unknown

def stored {σ : Type} (result : Option σ) : Except Refusal σ :=
  match result with
  | some options => .ok options
  | none => .error .usage

def splitAtEquals : List Char → List Char × Option (List Char)
  | [] => ([], none)
  | '=' :: value => ([], some value)
  | char :: rest =>
      let (name, value) := splitAtEquals rest
      (char :: name, value)

/-- Whether an argument may be the value of the option before it. -/
def isValue (argument : String) : Bool :=
  match argument.toList with
  | '-' :: _ :: _ => false
  | _ => true

def options {σ : Type} (option? : String → Taking σ) : List String → σ → Except Refusal σ
  | [], done => .ok done
  | argument :: rest, done =>
      match argument.toList with
      | ['-', '-'] => if rest.isEmpty then .ok done else .error .usage
      | '-' :: '-' :: long =>
          let (name, attached) := splitAtEquals long
          match option? (String.ofList name), attached with
          | .flag store, none =>
              match stored (store done) with
              | .error refusal => .error refusal
              | .ok done => options option? rest done
          | .value store, some value =>
              match stored (store (String.ofList value) done) with
              | .error refusal => .error refusal
              | .ok done => options option? rest done
          | .value store, none =>
              match rest with
              | [] => .error .usage
              | value :: rest =>
                  if isValue value then
                    match stored (store value done) with
                    | .error refusal => .error refusal
                    | .ok done => options option? rest done
                  else .error .usage
          | .flag _, some _ => .error .usage
          | .unknown, none => if argument = "--help" then .error .help else .error .usage
          | .unknown, some _ => .error .usage
      | '-' :: 'h' :: _ => .error .help
      | _ => .error .usage

/-! ### Commands -/

/-- A library file is of use for native programs only. -/
def GenerateOptions.command (options : GenerateOptions) : Except Refusal Command :=
  if options.libraryFile.isSome && !options.native then .error .usage
  else .ok (.generate options.native options.libraryFile
    (options.limit.getD Settings.defaultLimit) (options.policy.getD ErrorPolicy.abort.name))

/-- The specification and the method must be given; all numbers are two unless given. -/
def EnumerateOptions.command (options : EnumerateOptions) : Except Refusal Command :=
  match options.specFile, options.method with
  | some specFile, some method =>
      .ok (.enumerate specFile
        ⟨method, options.threads.getD 2, options.calls.getD 2, options.values.getD 2⟩)
  | _, _ => .error .usage

def helpTopic : List String → Except Refusal Command
  | [] => .error .help
  | [topic] =>
      if topic = "generate" ∨ topic = "enumerate" ∨ topic = "help" then .error .help
      else .error .usage
  | _ => .error .usage

def subcommand (name : String) (arguments : List String) : Except Refusal Command := do
  match name with
  | "generate" => (← options generateOption arguments ⟨false, none, none, none⟩).command
  | "enumerate" =>
      (← options enumerateOption arguments ⟨none, none, none, none, none⟩).command
  | "help" => helpTopic arguments
  | _ => .error .usage

def parse : List String → Except Refusal Command
  | [] => .error .usage
  | first :: rest =>
      match first.toList with
      | '-' :: 'V' :: _ => .ok .version
      | '-' :: 'h' :: _ => .ok .help
      | _ =>
          match first with
          | "--version" => .ok .version
          | "--help" => .ok .help
          | name =>
              match subcommand name rest with
              | .error .help => .ok .help
              | result => result

/-! ### Execution -/

structure Report where
  status : Nat
  output : String

def success : Nat := 0

def failure : Nat := 1

def usageFailure : Nat := 2

def versionText : String := "jcsgen 0.1.0\n"

def helpText : String :=
  "Usage: jcsgen generate [--clang] [--lib-file FILE] [--max-linearizations N] " ++
    "[--on-error abort|skip]\n" ++
  "       jcsgen enumerate --spec FILE --method NAME [--sequences N] [--invocations N] " ++
    "[--values N]\n"

/-- The library source: none asked for, or the content of a file, which must be a text. -/
def readLibrary (content : Option (List UInt8)) : Option String → Option (Option String)
  | none => some none
  | some _ => (content.bind Utf8.decode?).map some

def generate (content : Option (List UInt8)) (input : List UInt8) (native : Bool)
    (libraryFile : Option String) (limit : Nat) (policy : String) : Report :=
  match ErrorPolicy.ofText policy, readLibrary content libraryFile with
  | .ok policy, some library =>
      let outcome := run { native, library, limit } policy none ⟨[input], false⟩
      match outcome.result with
      | .ok summary => ⟨if summary.isSuccess then success else failure, outcome.output⟩
      | .error _ => ⟨failure, outcome.output⟩
  | _, _ => ⟨failure, ""⟩

def enumerate (content : Option (List UInt8)) (request : EnumerationRequest) : Report :=
  match content.bind Utf8.decode? with
  | none => ⟨failure, ""⟩
  | some text =>
      match Enumeration.readSpec (Utf8.encode text) with
      | .error _ => ⟨failure, ""⟩
      | .ok spec =>
          match spec.enumerate request with
          | .error _ => ⟨failure, ""⟩
          | .ok scenarios => ⟨success, (Written.ofScenarios none scenarios).output⟩

def Command.file? : Command → Option String
  | .generate _ libraryFile _ _ => libraryFile
  | .enumerate specFile _ => some specFile
  | _ => none

def Command.readsInput : Command → Bool
  | .generate _ _ _ _ => true
  | _ => false

def execute (content : Option (List UInt8)) (input : List UInt8) : Command → Report
  | .version => ⟨success, versionText⟩
  | .help => ⟨success, helpText⟩
  | .generate native libraryFile limit policy =>
      generate content input native libraryFile limit policy
  | .enumerate _ request => enumerate content request

/-- The whole program in a working directory. The file of a command is read before the standard
input, which is empty afterwards if it was the file. -/
def respond (arguments : List String) (directory : Directory) (input : List UInt8) : Report :=
  match parse arguments with
  | .error _ => ⟨usageFailure, ""⟩
  | .ok command =>
      match command.file?.bind directory.target? with
      | none => execute none input command
      | some (.file content) => execute (some content) input command
      | some .input => execute (some input) [] command

end Interleave.CommandLine
