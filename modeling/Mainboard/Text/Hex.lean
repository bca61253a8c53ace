/-!
# Hexadecimal text

Addresses and sizes are written in lower case with a leading `0x`; a padded form fills up with
zeros to a fixed number of digits.
-/
namespace Mainboard.Text

/-- The digits of `n` in base sixteen, at least one. -/
def hexDigits (n : Nat) : List Char := Nat.toDigits 16 n

/-- At least `width` digits of `n`, filled up with zeros. -/
def hexFilled (width n : Nat) : List Char :=
  let digits := hexDigits n
  List.replicate (width - digits.length) '0' ++ digits

/-- The digits of `n` after `0x`. -/
def hex (n : Nat) : String := String.ofList ('0' :: 'x' :: hexDigits n)

/-- The digits of `n` after `0x`, filled up with zeros to `width` digits. -/
def hexPadded (width n : Nat) : String := String.ofList ('0' :: 'x' :: hexFilled width n)

end Mainboard.Text
