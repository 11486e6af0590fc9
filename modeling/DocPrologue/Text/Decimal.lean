import DocPrologue.Bytes

/-! Numbers in messages: decimal digits, with a minus sign for negative numbers. -/

namespace DocPrologue.Text

def decimal (value : Nat) : Bytes := (Nat.toDigits 10 value).map fun digit => digit.toNat.toUInt8

def decimalInt : Int → Bytes
  | .ofNat value => decimal value
  | .negSucc value => Byte.dash :: decimal (value + 1)

end DocPrologue.Text
