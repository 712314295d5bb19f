/-!
# Texts

A text stands for an arbitrary byte string. Where the bytes spell a character in UTF-8 the text holds
that character; every other byte stands in it alone, as a stray byte.
-/

namespace StepLang

inductive Glyph where
  | char (c : Char)
  | stray (b : UInt8)
  deriving DecidableEq

abbrev Text := List Glyph

namespace Glyph

def bytes : Glyph → List UInt8
  | char c => String.utf8EncodeChar c
  | stray b => [b]

/-- A stray byte is read as the replacement character. -/
def toChar : Glyph → Char
  | char c => c
  | stray _ => '\uFFFD'

def isStray : Glyph → Bool
  | char _ => false
  | stray _ => true

end Glyph

namespace Text

def ofChars (cs : List Char) : Text := cs.map Glyph.char

def ofString (s : String) : Text := ofChars s.toList

instance : Coe String Text := ⟨ofString⟩

def newline : Glyph := .char '\n'

def toBytes (t : Text) : List UInt8 := t.flatMap Glyph.bytes

/-- The number of bytes that a lead byte announces. -/
def announced (lead : UInt8) : Nat :=
  if lead < 0x80 then 1 else if lead < 0xE0 then 2 else if lead < 0xF0 then 3 else 4

/-- The number in the bits of a lead byte that are left of its announcement. -/
def payload (lead : UInt8) : Nat :=
  match announced lead with
  | 1 => lead.toNat
  | 2 => lead.toNat % 32
  | 3 => lead.toNat % 16
  | _ => lead.toNat % 8

/-- The number spelled by a lead byte and its continuation bytes, six bits each. -/
def spelled (lead : UInt8) (more : List UInt8) : Nat :=
  more.foldl (fun n b => n * 64 + b.toNat % 64) (payload lead)

/-- The character spelled at the front, accepted only when the bytes are its own encoding. This refuses
overlong spellings, surrogates, numbers that are no code point, and sequences cut short. -/
def firstChar? (lead : UInt8) (rest : List UInt8) : Option Char :=
  let more := rest.take (announced lead - 1)
  let c := Char.ofNat (spelled lead more)
  if String.utf8EncodeChar c = lead :: more then some c else none

def ofBytesOnto (read : Text) : List UInt8 → Text
  | [] => read.reverse
  | b :: rest =>
    match firstChar? b rest with
    | some c => ofBytesOnto (.char c :: read) (rest.drop (announced b - 1))
    | none => ofBytesOnto (.stray b :: read) rest
termination_by bs => bs.length

def ofBytes (bs : List UInt8) : Text := ofBytesOnto [] bs

def isValid (t : Text) : Bool := !t.any Glyph.isStray

/-- Fills up with spaces on the right, counting characters; a longer text stays whole. -/
def padRight (width : Nat) (t : Text) : Text :=
  t ++ List.replicate (width - t.length) (.char ' ')

def lines (t : Text) : List Text := t.splitOnP (· = newline)

def unlines (ls : List Text) : Text := ls.flatMap (· ++ [newline])

end Text

end StepLang
