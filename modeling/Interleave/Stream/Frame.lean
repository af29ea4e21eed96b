import Interleave.Text.Utf8

set_option autoImplicit false

/-! Documents in a stream: how one is framed for output, and what a delimiter and a blank piece
of a stream are. -/

namespace Interleave.Frame

def delimiter : List UInt8 := [0x2d, 0x2d, 0x2d]

def ofText (text : String) : String := "---\n" ++ text ++ "\n"

/-- Blank, tab, line feed, form feed and carriage return; the vertical tab is not among them. -/
def isWhitespace (byte : UInt8) : Bool :=
  byte == 0x20 || byte == 0x09 || byte == 0x0a || byte == 0x0c || byte == 0x0d

def isBlank (piece : List UInt8) : Bool := piece.all isWhitespace

end Interleave.Frame
