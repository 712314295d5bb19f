import StepLang.Text.Numeral
import StepLang.Text.Printable

/-!
# Quoted text

A quotation shows printable characters as they are, a backslash before the quote and the backslash, the
short escapes of the seven control characters that have one, and numeric escapes for all else. A stray
byte is shown by its two hexadecimal digits, so it differs from the replacement character.
-/

namespace StepLang.Text

def shortEscape? (c : Char) : Option Char :=
  match c.toNat with
  | 0x07 => some 'a'
  | 0x08 => some 'b'
  | 0x0C => some 'f'
  | 0x0A => some 'n'
  | 0x0D => some 'r'
  | 0x09 => some 't'
  | 0x0B => some 'v'
  | _ => none

def numericEscape (n : Nat) : Text :=
  if n < 0x80 then "\\x" ++ Numeral.hex 2 n
  else if n < 0x10000 then "\\u" ++ Numeral.hex 4 n
  else "\\U" ++ Numeral.hex 8 n

def escapeChar (quote c : Char) : Text :=
  if c = quote ∨ c = '\\' then [.char '\\', .char c]
  else if isPrintable c then [.char c]
  else
    match shortEscape? c with
    | some e => [.char '\\', .char e]
    | none => numericEscape c.toNat

def escape (quote : Char) : Glyph → Text
  | .char c => escapeChar quote c
  | .stray b => "\\x" ++ Numeral.hexByte b

def quoted (t : Text) : Text := .char '"' :: (t.flatMap (escape '"') ++ [.char '"'])

def quotedChar (c : Char) : Text := .char '\'' :: (escapeChar '\'' c ++ [.char '\''])

end StepLang.Text
