import Interleave.Stream.Frame

set_option autoImplicit false

/-! Documents from bytes that arrive in chunks. The reader keeps the bytes of the open document
in two parts: those known not to start a delimiter, and those still to be examined. It cuts at
the leftmost delimiter, knows nothing of what the documents hold, and passes over blank
pieces. -/

namespace Interleave

/-- Bytes to come, chunk by chunk. After the last chunk the input ends, or every further read
fails. An empty chunk is the end of the input too. -/
structure Source where
  chunks : List (List UInt8)
  fails : Bool

inductive ReadError where
  | failed
  deriving DecidableEq

structure DocumentReader where
  source : Source
  /-- Bytes of the open document that start no delimiter, latest first. -/
  passed : List UInt8
  ahead : List UInt8
  ended : Bool

namespace DocumentReader

def ofSource (source : Source) : DocumentReader := ⟨source, [], [], false⟩

inductive Scan where
  | document (piece rest : List UInt8)
  | incomplete (passed ahead : List UInt8)

/-- Searches for the end of the first piece that is not blank. Fewer than three bytes may still
start a delimiter, and stay ahead. -/
def scan : (passed ahead : List UInt8) → Scan
  | passed, a :: b :: c :: rest =>
      if a = 0x2d ∧ b = 0x2d ∧ c = 0x2d then
        if Frame.isBlank passed.reverse then scan [] rest else .document passed.reverse rest
      else scan (a :: passed) (b :: c :: rest)
  | passed, ahead => .incomplete passed ahead

def last (passed ahead : List UInt8) : Option (List UInt8) :=
  let piece := passed.reverse ++ ahead
  if Frame.isBlank piece then none else some piece

def fill (fails : Bool) : (chunks : List (List UInt8)) → (passed ahead : List UInt8) →
    Except ReadError (Option (List UInt8)) × DocumentReader
  | [], passed, ahead =>
      if fails then (.error .failed, ⟨⟨[], fails⟩, passed, ahead, false⟩)
      else (.ok (last passed ahead), ⟨⟨[], fails⟩, [], [], true⟩)
  | [] :: chunks, passed, ahead => (.ok (last passed ahead), ⟨⟨chunks, fails⟩, [], [], true⟩)
  | chunk :: chunks, passed, ahead =>
      match scan passed (ahead ++ chunk) with
      | .document piece rest => (.ok (some piece), ⟨⟨chunks, fails⟩, [], rest, false⟩)
      | .incomplete passed ahead => fill fails chunks passed ahead

def next (reader : DocumentReader) :
    Except ReadError (Option (List UInt8)) × DocumentReader :=
  match scan reader.passed reader.ahead with
  | .document piece rest => (.ok (some piece), { reader with passed := [], ahead := rest })
  | .incomplete passed ahead =>
      if reader.ended then (.ok (last passed ahead), { reader with passed := [], ahead := [] })
      else fill reader.source.fails reader.source.chunks passed ahead

structure Reading where
  documents : List (List UInt8)
  failed : Bool

def drain : (calls : Nat) → DocumentReader → (documents : List (List UInt8)) → Reading
  | 0, _, documents => ⟨documents.reverse, false⟩
  | calls + 1, reader, documents =>
      match reader.next with
      | (.error _, _) => ⟨documents.reverse, true⟩
      | (.ok none, _) => ⟨documents.reverse, false⟩
      | (.ok (some document), reader) => drain calls reader (document :: documents)

/-- All that a source yields. Every document takes a byte at least, so one call more than there
are bytes reaches the end. -/
def readAll (source : Source) : Reading :=
  drain (source.chunks.flatten.length + 1) (ofSource source) []

end DocumentReader

end Interleave
