import StepLang.Text.Basic
import StepLang.Text.Ranges

/-!
# White space

The characters with the Unicode property White_Space. A stray byte is never blank.
-/

namespace StepLang

namespace Text

def blankRanges : Ranges :=
  [(0x9, 0xD), (0x20, 0x20), (0x85, 0x85), (0xA0, 0xA0), (0x1680, 0x1680), (0x2000, 0x200A),
   (0x2028, 0x2029), (0x202F, 0x202F), (0x205F, 0x205F), (0x3000, 0x3000)]

def isBlank (c : Char) : Bool := blankRanges.has c.toNat

end Text

def Glyph.isBlank : Glyph → Bool
  | char c => Text.isBlank c
  | stray _ => false

namespace Text

def trim (t : Text) : Text :=
  ((t.dropWhile Glyph.isBlank).reverse.dropWhile Glyph.isBlank).reverse

def words (t : Text) : List Text := (t.splitOnP Glyph.isBlank).filter (· ≠ [])

theorem length_trim_le (t : Text) : (trim t).length ≤ t.length := by
  simp only [trim, List.length_reverse]
  have inner := (List.dropWhile_sublist (l := t) Glyph.isBlank).length_le
  have outer := (List.dropWhile_sublist (l := (t.dropWhile Glyph.isBlank).reverse) Glyph.isBlank).length_le
  rw [List.length_reverse] at outer
  omega

end Text

end StepLang
