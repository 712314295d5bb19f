import StepLang.Assembly.Assembler

/-!
# Machine code by instructions
-/

namespace StepLang

structure Slice where
  offset : Nat
  bytes : List UInt8
  line : Nat
  deriving DecidableEq

namespace Slice

/-- Cuts code at the offsets of the instructions; the code starts at the first of them. -/
def cut (code : List UInt8) : List (Nat × Nat) → List Slice
  | [] => []
  | [(offset, line)] => [⟨offset, code, line⟩]
  | (offset, line) :: (next, number) :: rest =>
    ⟨offset, code.take (next - offset), line⟩ :: cut (code.drop (next - offset)) ((next, number) :: rest)

def text (s : Slice) : Text :=
  Numeral.hex 4 s.offset ++ "  " ++ (Numeral.hexBytes s.bytes).padRight 30 ++ "  ; line " ++
    Numeral.nat s.line

end Slice

def Object.slices (o : Object) : List Slice := Slice.cut o.code o.sourceMap

end StepLang
