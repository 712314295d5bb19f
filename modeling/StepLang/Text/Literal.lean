import StepLang.Text.Basic

/-!
# Reading integers

Digits are read from the left into a magnitude, and reading stops with a range fault as soon as the magnitude
needs more than the given number of bits, whatever follows. A magnitude that fits the bits but not the signed
range is refused only after its last digit, so a bad character in between is reported first.
-/

namespace StepLang

inductive LiteralFault where
  | malformed
  | outOfRange
  deriving DecidableEq

namespace Literal

def digit? : Glyph → Option Nat
  | .char c =>
    if '0' ≤ c ∧ c ≤ '9' then some (c.toNat - '0'.toNat)
    else if 'a' ≤ c ∧ c ≤ 'z' then some (c.toNat - 'a'.toNat + 10)
    else if 'A' ≤ c ∧ c ≤ 'Z' then some (c.toNat - 'A'.toNat + 10)
    else none
  | .stray _ => none

def separator : Glyph := .char '_'

/-- The value of digits in a base, none above the limit. Separators are passed over where they are allowed. -/
def magnitude (base limit : Nat) (separators : Bool) : Nat → Text → Except LiteralFault Nat
  | n, [] => .ok n
  | n, g :: rest =>
    if separators && g = separator then magnitude base limit separators n rest
    else
      match digit? g with
      | none => .error .malformed
      | some d =>
        if base ≤ d then .error .malformed
        else if limit < n * base + d then .error .outOfRange
        else magnitude base limit separators (n * base + d) rest

/-- Every separator stands behind a digit and before one; `behind` says whether a digit came last. -/
def separated (behind : Bool) : Text → Bool
  | [] => behind
  | g :: rest => if g = separator then behind && separated false rest else separated true rest

/-- A base marker: `0b`, `0o` or `0x` before at least one more glyph, or else a leading zero for octal. -/
structure Marked where
  base : Nat
  digits : Text
  marker : Bool

def Marked.ofText : Text → Marked
  | .char '0' :: .char m :: g :: rest =>
    if m = 'b' ∨ m = 'B' then ⟨2, g :: rest, true⟩
    else if m = 'o' ∨ m = 'O' then ⟨8, g :: rest, true⟩
    else if m = 'x' ∨ m = 'X' then ⟨16, g :: rest, true⟩
    else ⟨8, .char m :: g :: rest, true⟩
  | .char '0' :: rest => ⟨8, rest, true⟩
  | t => ⟨10, t, false⟩

/-- The largest magnitude of that many bits. -/
def largest (bits : Nat) : Nat := Nat.pow 2 bits - 1

/-- The least magnitude that only a negative number may have. -/
def signedLimit (bits : Nat) : Nat := Nat.pow 2 (bits - 1)

def decimalMagnitude (bits : Nat) (t : Text) : Except LiteralFault Nat :=
  if t = [] then .error .malformed else magnitude 10 (largest bits) false 0 t

def markedMagnitude (bits : Nat) (t : Text) : Except LiteralFault Nat :=
  if t = [] then .error .malformed
  else
    let m := Marked.ofText t
    match magnitude m.base (largest bits) true 0 m.digits with
    | .error e => .error e
    | .ok n =>
      if m.digits.contains separator && !separated m.marker m.digits then .error .malformed else .ok n

/-- An optional sign, then a magnitude that fits the signed range. -/
def signed (bits : Nat) (read : Text → Except LiteralFault Nat) (t : Text) : Except LiteralFault Int :=
  let (negative, rest) :=
    match t with
    | .char '+' :: rest => (false, rest)
    | .char '-' :: rest => (true, rest)
    | t => (false, t)
  match read rest with
  | .error e => .error e
  | .ok n =>
    if negative then
      if signedLimit bits < n then .error .outOfRange else .ok (-(n : Int))
    else
      if signedLimit bits ≤ n then .error .outOfRange else .ok (n : Int)

def decimal? (bits : Nat) (t : Text) : Except LiteralFault Int := signed bits (decimalMagnitude bits) t

/-- An integer whose base is told by its marker, with `_` between digits. -/
def marked? (bits : Nat) (t : Text) : Except LiteralFault Int := signed bits (markedMagnitude bits) t

end Literal

end StepLang
