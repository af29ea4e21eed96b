set_option autoImplicit false

/-! Lower-case hexadecimal text. -/

namespace Interleave.Hex

def digit (value : Nat) : Char :=
  if value < 10 then Char.ofNat (48 + value) else Char.ofNat (87 + value)

def ofBytes (bytes : List UInt8) : String :=
  String.ofList (bytes.flatMap (fun byte => [digit (byte.toNat / 16), digit (byte.toNat % 16)]))

end Interleave.Hex
