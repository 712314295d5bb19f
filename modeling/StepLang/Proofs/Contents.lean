import StepLang.Assembly.Content

/-!
# What commands mean

A command that contributes something is one of the two directives, or spells an instruction that can be
encoded. The relations below list these forms, and reading a command is deciding them.
-/

namespace StepLang

namespace Content

def bytes : Content → List UInt8
  | code _ bs => bs
  | _ => []

def instruction? : Content → Option Instruction
  | code i _ => some i
  | _ => none

def exported : Content → List Text
  | exports names => names
  | _ => []

end Content

namespace Command

/-- The mnemonics of the instructions on a register and a source. -/
inductive Names : Text → (Register → Operand → Instruction) → Prop where
  | mov : Names "MOV" .mov
  | add : Names "ADD" (.alu .add)
  | sub : Names "SUB" (.alu .sub)

/-- A word that is no register's name stands for the integer that it spells. -/
inductive Denotes : Text → Operand → Prop where
  | register {word : Text} {r : Register} (h : Register.ofName? word = some r) : Denotes word (.reg r)
  | integer {word : Text} {z : Int} (hname : Register.ofName? word = none)
      (h : Literal.marked? 64 word = .ok z) :
      Denotes word (.imm (.ofInt z))

inductive Spells : Command → Instruction → Prop where
  | ret : Spells ⟨"RET", []⟩ .ret
  | nop : Spells ⟨"NOP", []⟩ .nop
  | binary {mnemonic dst src : Text} {form : Register → Operand → Instruction} {r : Register}
      {operand : Operand}
      (hform : Names mnemonic form) (hdst : Register.ofName? dst = some r) (hsrc : Denotes src operand) :
      Spells ⟨mnemonic, [dst, src]⟩ (form r operand)

inductive Means : Command → Content → Prop where
  | textSection : Means ⟨"SECTION", [".text"]⟩ .textSection
  | exports {names : List Text} (h : names ≠ []) : Means ⟨"GLOBAL", names⟩ (.exports names)
  | code {c : Command} {i : Instruction} {bytes : List UInt8} (hi : c.Spells i)
      (hbytes : i.encode? = some bytes) :
      Means c (.code i bytes)

theorem source_eq_ok_iff {word : Text} {operand : Operand} :
    source word = .ok operand ↔ Denotes word operand := by
  constructor
  · intro h
    unfold source at h
    split at h
    · rename_i r hname
      cases h
      exact .register hname
    · rename_i hname
      split at h
      · rename_i z hvalue
        cases h
        exact .integer hname hvalue
      · cases h
      · cases h
  · intro h
    cases h with
    | register hname => rw [source, hname]
    | integer hname hvalue => rw [source, hname, hvalue]

theorem alone_eq_ok_iff {c : Command} {i : Instruction} {bytes : List UInt8} {content : Content} :
    c.alone i bytes = .ok content ↔ c.operands = [] ∧ content = .code i bytes := by
  rw [alone]
  by_cases h : c.operands = []
  · simp [h, eq_comm]
  · simp [h]

theorem binary_eq_ok_iff {c : Command} {form : Register → Operand → Instruction} {content : Content} :
    c.binary form = .ok content ↔ ∃ dst src r operand bytes, c.operands = [dst, src] ∧
      Register.ofName? dst = some r ∧ source src = .ok operand ∧ (form r operand).encode? = some bytes ∧
      content = .code (form r operand) bytes := by
  constructor
  · intro h
    unfold binary at h
    split at h
    · rename_i dst src hoperands
      split at h
      · cases h
      rename_i r hr
      split at h
      · cases h
      rename_i operand hoperand
      split at h
      · rename_i bytes hbytes
        cases h
        exact ⟨dst, src, r, operand, bytes, hoperands, hr, hoperand, hbytes, rfl⟩
      · cases h
    · cases h
  · rintro ⟨dst, src, r, operand, bytes, hoperands, hr, hoperand, hbytes, rfl⟩
    simp only [binary, hoperands, hr, hoperand, hbytes]

theorem instruction_of_names {mnemonic : Text} {form : Register → Operand → Instruction}
    (h : Names mnemonic form)
    (operands : List Text) : instruction ⟨mnemonic, operands⟩ = binary ⟨mnemonic, operands⟩ form := by
  cases h <;> rfl

theorem spells_of_binary {mnemonic : Text} {operands : List Text} {form : Register → Operand → Instruction}
    {content : Content} (hform : Names mnemonic form) (h : binary ⟨mnemonic, operands⟩ form = .ok content) :
    ∃ i bytes, Spells ⟨mnemonic, operands⟩ i ∧ i.encode? = some bytes ∧ content = .code i bytes := by
  obtain ⟨dst, src, r, operand, bytes, rfl, hr, hoperand, hbytes, rfl⟩ := binary_eq_ok_iff.mp h
  exact ⟨_, bytes, .binary hform hr (source_eq_ok_iff.mp hoperand), hbytes, rfl⟩

theorem spells_of_instruction {c : Command} {content : Content} (h : c.instruction = .ok content) :
    ∃ i bytes, c.Spells i ∧ i.encode? = some bytes ∧ content = .code i bytes := by
  obtain ⟨mnemonic, operands⟩ := c
  simp only [instruction] at h
  split at h
  · rename_i hm
    subst hm
    obtain ⟨rfl, rfl⟩ := alone_eq_ok_iff.mp h
    exact ⟨_, _, .ret, rfl, rfl⟩
  split at h
  · rename_i hm
    subst hm
    obtain ⟨rfl, rfl⟩ := alone_eq_ok_iff.mp h
    exact ⟨_, _, .nop, rfl, rfl⟩
  split at h
  · rename_i hm
    subst hm
    exact spells_of_binary .mov h
  split at h
  · rename_i hm
    subst hm
    exact spells_of_binary .add h
  split at h
  · rename_i hm
    subst hm
    exact spells_of_binary .sub h
  · cases h

theorem instruction_of_spells {c : Command} {i : Instruction} {bytes : List UInt8} (h : c.Spells i)
    (hbytes : i.encode? = some bytes) : c.instruction = .ok (.code i bytes) := by
  cases h with
  | ret =>
    cases hbytes
    rfl
  | nop =>
    cases hbytes
    rfl
  | binary hform hdst hsrc =>
    rw [instruction_of_names hform]
    exact binary_eq_ok_iff.mpr ⟨_, _, _, _, _, rfl, hdst, source_eq_ok_iff.mpr hsrc, hbytes, rfl⟩

theorem Names.unique {mnemonic : Text} {form other : Register → Operand → Instruction}
    (h : Names mnemonic form) (hother : Names mnemonic other) : form = other := by
  have heq : ∀ {form : Register → Operand → Instruction}, Names mnemonic form →
      form = if mnemonic = "MOV" then .mov else if mnemonic = "ADD" then .alu .add else .alu .sub := by
    intro form h
    cases h <;> rfl
  rw [heq h, heq hother]

theorem Denotes.unique {word : Text} {operand other : Operand} (h : Denotes word operand)
    (hother : Denotes word other) : operand = other := by
  have hsame := (source_eq_ok_iff.mpr h).symm.trans (source_eq_ok_iff.mpr hother)
  exact Except.ok.inj hsame

theorem Spells.unique {c d : Command} {i j : Instruction} (h : c.Spells i) (hd : d.Spells j) (heq : c = d) :
    i = j := by
  cases h with
  | ret =>
    cases hd with
    | ret => rfl
    | nop => exact absurd heq (by decide)
    | binary => simp at heq
  | nop =>
    cases hd with
    | ret => exact absurd heq (by decide)
    | nop => rfl
    | binary => simp at heq
  | binary hform hdst hsrc =>
    cases hd with
    | ret => simp at heq
    | nop => simp at heq
    | binary hform' hdst' hsrc' =>
      cases heq
      rw [hdst, Option.some.injEq] at hdst'
      rw [hform.unique hform', hdst', hsrc.unique hsrc']

theorem Means.instruction_eq {c : Command} {i : Instruction} {bytes : List UInt8}
    (h : c.Means (.code i bytes)) :
    c.instruction = .ok (.code i bytes) := by
  cases h with
  | code hi hbytes => exact instruction_of_spells hi hbytes

theorem isDirective_of_spells {c : Command} {i : Instruction} (h : c.Spells i) : c.isDirective = false := by
  cases h with
  | ret => rfl
  | nop => rfl
  | binary hform _ _ => cases hform <;> rfl

theorem Spells.not_directive {c : Command} {i : Instruction} (h : c.Spells i) :
    ¬ (c.mnemonic = "SECTION" ∨ c.mnemonic = "GLOBAL") := by
  have hnot := isDirective_of_spells h
  simp only [isDirective, Bool.or_eq_false_iff, decide_eq_false_iff_not] at hnot
  exact not_or.mpr hnot

theorem content_of_not_directive {c : Command} (h : c.isDirective = false) : c.content = c.instruction := by
  simp only [isDirective, Bool.or_eq_false_iff, decide_eq_false_iff_not] at h
  rw [content, if_neg h.1, if_neg h.2]

theorem content_eq_ok_iff {c : Command} {content : Content} : c.content = .ok content ↔ c.Means content := by
  constructor
  · intro h
    obtain ⟨mnemonic, operands⟩ := c
    unfold Command.content at h
    split at h
    · rename_i hm
      split at h
      · split at h
        · cases h
          simp_all only
          exact .textSection
        · cases h
      · cases h
    split at h
    · rename_i hm
      split at h
      · cases h
      · rename_i hne
        cases h
        simp only at hm
        subst hm
        exact .exports (by simpa using hne)
    · obtain ⟨i, bytes, hi, hbytes, rfl⟩ := spells_of_instruction h
      exact .code hi hbytes
  · intro h
    cases h with
    | textSection => rfl
    | @exports names h =>
      have hsection : ("GLOBAL" : Text) ≠ "SECTION" := by decide
      rw [Command.content, if_neg hsection, if_pos rfl, if_neg (by simpa using h)]
    | code hi hbytes =>
      rw [content_of_not_directive (isDirective_of_spells hi)]
      exact instruction_of_spells hi hbytes

end Command

namespace Line

/-- What a line means, its labels aside. -/
def Means (l : Line) (content : Content) : Prop :=
  match l.command with
  | none => content = .nothing
  | some c => c.Means content

theorem content_eq_ok_iff {l : Line} {content : Content} : l.content = .ok content ↔ l.Means content := by
  unfold Line.content Means
  cases l.command with
  | none => simp [eq_comm]
  | some c => exact Command.content_eq_ok_iff

/-- What is to be carried out on a line, without its bytes. A directive and an empty line say nothing of
it. -/
inductive Orders : Line → Option Instruction → Prop where
  | empty {labels : List Text} : Orders ⟨labels, none⟩ none
  | directive {labels : List Text} {c : Command} (h : c.mnemonic = "SECTION" ∨ c.mnemonic = "GLOBAL") :
      Orders ⟨labels, some c⟩ none
  | instruction {labels : List Text} {c : Command} {i : Instruction} (h : c.Spells i) :
      Orders ⟨labels, some c⟩ (some i)

theorem Orders.unique {l : Line} {i? j? : Option Instruction} (h : l.Orders i?) (hother : l.Orders j?) :
    i? = j? := by
  cases h with
  | empty =>
    cases hother
    rfl
  | directive hdirective =>
    cases hother with
    | directive => rfl
    | instruction hspells => exact absurd hdirective hspells.not_directive
  | instruction hspells =>
    cases hother with
    | directive hdirective => exact absurd hdirective hspells.not_directive
    | instruction hspells' => rw [hspells.unique hspells' rfl]

theorem Means.orders {l : Line} {content : Content} (h : l.Means content) :
    l.Orders content.instruction? := by
  obtain ⟨labels, command⟩ := l
  cases command with
  | none =>
    cases h
    exact .empty
  | some c =>
    change c.Means content at h
    cases h with
    | textSection => exact .directive (.inl rfl)
    | exports => exact .directive (.inr rfl)
    | code hspells hbytes => exact .instruction hspells

theorem Means.encode {l : Line} {i : Instruction} {bytes : List UInt8} (h : l.Means (.code i bytes)) :
    i.encode? = some bytes := by
  unfold Means at h
  split at h
  · cases h
  · cases h with
    | code _ hbytes => exact hbytes

end Line

end StepLang
