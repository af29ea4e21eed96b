set_option autoImplicit false

/-! White space after the Unicode property of that name. -/

namespace Interleave.Blank

def isBlank (char : Char) : Bool :=
  let point := char.toNat
  (0x09 ≤ point && point ≤ 0x0d) || point == 0x20 || point == 0x85 || point == 0xa0 ||
    point == 0x1680 || (0x2000 ≤ point && point ≤ 0x200a) || point == 0x2028 ||
    point == 0x2029 || point == 0x202f || point == 0x205f || point == 0x3000

def trim (text : String) : String :=
  String.ofList ((text.toList.dropWhile isBlank).reverse.dropWhile isBlank).reverse

end Interleave.Blank
