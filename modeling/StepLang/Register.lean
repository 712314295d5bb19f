import StepLang.Text.Case

/-!
# Registers

Sixteen general registers of 64 bits, numbered in the order of their names.
-/

namespace StepLang

abbrev Register := Fin 16

namespace Register

def names : Vector String 16 :=
  #v["rax", "rcx", "rdx", "rbx", "rsp", "rbp", "rsi", "rdi",
    "r8", "r9", "r10", "r11", "r12", "r13", "r14", "r15"]

def name (r : Register) : Text := names.get r

/-- Names are told apart without regard to case. -/
def ofName? (t : Text) : Option Register :=
  let lower := t.lowerToAscii
  (List.finRange 16).find? fun r => name r = lower

/-- The register whose number has the lowest bit of `top` above the three lowest bits of `low`. -/
def ofBits (top low : Nat) : Register := ⟨8 * (top % 2) + low % 8, by omega⟩

def rax : Register := ⟨0, by decide⟩

end Register

end StepLang
