set_option autoImplicit false

/-! A working directory: the files in it, and where a path leads that starts from it. -/

namespace Interleave

/-- Files, each at the end of a way of names. All names on a way but the last are directories. -/
structure Directory where
  files : List (List String × List UInt8)

def splitAtSlashes : List Char → List (List Char)
  | [] => [[]]
  | '/' :: rest => [] :: splitAtSlashes rest
  | char :: rest =>
      match splitAtSlashes rest with
      | [] => [[char]]
      | name :: names => (char :: name) :: names

def steps (path : String) : List String := (splitAtSlashes path.toList).map String.ofList

def isStill (step : String) : Bool := step == "" || step == "."

namespace Directory

inductive Target where
  | file (content : List UInt8)
  | input

def ofFiles (files : List (String × List UInt8)) : Directory :=
  ⟨files.map (fun file => ((steps file.1).filter (fun step => !isStill step), file.2))⟩

def isDirectory (directory : Directory) (way : List String) : Bool :=
  way.isEmpty ||
    directory.files.any (fun file => way.length < file.1.length && way.isPrefixOf file.1)

/-- The way to which steps lead. Each of them, one that leads nowhere too, has to start from a
directory; what lies above the working directory is not known. -/
def follow (directory : Directory) : List String → List String → Option (List String)
  | way, [] => some way
  | way, step :: rest =>
      if !directory.isDirectory way then none
      else if isStill step then directory.follow way rest
      else if step == ".." then
        if way.isEmpty then none else directory.follow way.dropLast rest
      else directory.follow (way ++ [step]) rest

/-- What a path leads to. Outside the working directory only the empty device and the standard
input are known. -/
def target? (directory : Directory) (path : String) : Option Target :=
  match path.toList with
  | '/' :: _ =>
      match (steps path).filter (fun step => !isStill step) with
      | ["dev", "null"] => some (.file [])
      | ["dev", "stdin"] => some .input
      | _ => none
  | _ =>
      match directory.follow [] (steps path) with
      | none => none
      | some way =>
          (directory.files.find? (fun file => file.1 == way)).map (fun file => .file file.2)

end Directory

end Interleave
