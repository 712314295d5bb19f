import StepLang.Text.Basic

/-!
# Numbers as text

Decimal and hexadecimal spellings, most significant digit first, in lower case and without leading zeros
unless a width asks for them.
-/

namespace StepLang.Numeral

def digitsOnto (base n : Nat) (low : List Char) : List Char :=
  if base < 2 ∨ n < base then n.digitChar :: low
  else digitsOnto base (n / base) ((n % base).digitChar :: low)
termination_by n
decreasing_by exact Nat.div_lt_self (by omega) (by omega)

def digits (base n : Nat) : List Char := digitsOnto base n []

def nat (n : Nat) : Text := .ofChars (digits 10 n)

def int (n : Int) : Text := if n < 0 then .char '-' :: nat n.natAbs else nat n.natAbs

def zeroFilled (width : Nat) (ds : List Char) : Text :=
  .ofChars (List.replicate (width - ds.length) '0' ++ ds)

def hex (width n : Nat) : Text := zeroFilled width (digits 16 n)

/-- An address: hexadecimal behind `0x`, with the sign in front. -/
def address (n : Int) : Text := (if n < 0 then "-" else "" : String) ++ ("0x" ++ hex 1 n.natAbs : Text)

def hexByte (b : UInt8) : Text := hex 2 b.toNat

def hexBytes (bs : List UInt8) : Text := bs.flatMap hexByte

end StepLang.Numeral
