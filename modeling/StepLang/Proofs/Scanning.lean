import StepLang.Token.Scan

/-!
# What scanning gives

Every token but the last is an atom or a bracket of one of the two shapes, and the last is the end of input.
An atom holds no delimiter, its first character can be printed, and its kind is told by its characters.
-/

namespace StepLang

def Token.Opens (t : Token) : Prop :=
  t.kind = .opening ∧ (t.lexeme = ("(" : Text) ∨ t.lexeme = ("[" : Text))

/-- The token is of a shape that stands before the end of a scanned source. -/
def Token.Scanned (t : Token) : Prop :=
  t.Opens ∨ (t.kind = .closing ∧ (t.lexeme = (")" : Text) ∨ t.lexeme = ("]" : Text))) ∨
    t.kind = .integer ∨ t.kind = .symbol

/-- Characters that are read as one atom. -/
structure Atomic (cs : List Char) : Prop where
  printable : ∃ c rest, cs = c :: rest ∧ Text.isPrintable c = true
  unbroken : ∀ c ∈ cs, Text.isBlank c = false ∧ c ≠ '(' ∧ c ≠ ')' ∧ c ≠ '[' ∧ c ≠ ']' ∧ c ≠ ';'

inductive Token.Formed : Token → Prop where
  | opening {c : Char} (h : c = '(' ∨ c = '[') (pos : Position) : Formed (Scanner.bracket .opening c pos)
  | closing {c : Char} (h : c = ')' ∨ c = ']') (pos : Position) : Formed (Scanner.bracket .closing c pos)
  | atom {cs : List Char} (h : Atomic cs) (pos : Position) : Formed (Scanner.atomToken pos cs)

theorem Token.Formed.scanned {t : Token} (h : t.Formed) : t.Scanned := by
  cases h with
  | opening hc pos =>
    rcases hc with rfl | rfl
    · exact .inl ⟨rfl, .inl rfl⟩
    · exact .inl ⟨rfl, .inr rfl⟩
  | closing hc pos =>
    rcases hc with rfl | rfl
    · exact .inr (.inl ⟨rfl, .inl rfl⟩)
    · exact .inr (.inl ⟨rfl, .inr rfl⟩)
  | @atom cs _ pos =>
    unfold Scanner.atomToken
    split
    · exact .inr (.inr (.inl rfl))
    · exact .inr (.inr (.inr rfl))

theorem Token.Formed.kind_ne_eof {t : Token} (h : t.Formed) : t.kind ≠ .eof := by
  intro hkind
  cases h with
  | opening _ pos => cases hkind
  | closing _ pos => cases hkind
  | @atom cs _ pos =>
    simp only [Scanner.atomToken] at hkind
    split at hkind <;> cases hkind

namespace Scanner

theorem isDelimiter_eq_false_iff {c : Char} :
    isDelimiter c = false ↔ Text.isBlank c = false ∧ c ≠ '(' ∧ c ≠ ')' ∧ c ≠ '[' ∧ c ≠ ']' ∧ c ≠ ';' := by
  simp only [isDelimiter, Bool.or_eq_false_iff, decide_eq_false_iff_not, ne_eq]
  rw [and_comm]
  simp only [and_assoc]

theorem enter_cases {pos : Position} {tokens : List Token} {c : Char} {next : Scanner}
    (h : enter pos tokens c = .ok next) :
    (Text.isBlank c = true ∧ next = ⟨pos.after c, .gap, tokens⟩) ∨
      (c = ';' ∧ next = ⟨pos.after c, .comment, tokens⟩) ∨
      ((c = '(' ∨ c = '[') ∧ next = ⟨pos.after c, .gap, bracket .opening c pos :: tokens⟩) ∨
      ((c = ')' ∨ c = ']') ∧ next = ⟨pos.after c, .gap, bracket .closing c pos :: tokens⟩) ∨
      (Atomic [c] ∧ next = ⟨pos.after c, .atom pos [c], tokens⟩) := by
  simp only [enter, Bool.or_eq_true, decide_eq_true_eq] at h
  split at h
  · rename_i hblank
    cases h
    exact .inl ⟨hblank, rfl⟩
  rename_i hblank
  split at h
  · rename_i hcomment
    cases h
    exact .inr (.inl ⟨hcomment, rfl⟩)
  rename_i hcomment
  split at h
  · rename_i hopening
    cases h
    exact .inr (.inr (.inl ⟨hopening, rfl⟩))
  rename_i hopening
  split at h
  · rename_i hclosing
    cases h
    exact .inr (.inr (.inr (.inl ⟨hclosing, rfl⟩)))
  rename_i hclosing
  split at h
  · rename_i hprintable
    cases h
    refine .inr (.inr (.inr (.inr ⟨⟨⟨c, [], rfl, hprintable⟩, ?_⟩, rfl⟩)))
    rw [List.forall_mem_singleton]
    grind
  · cases h

theorem enter_pos {pos : Position} {tokens : List Token} {c : Char} {next : Scanner}
    (h : enter pos tokens c = .ok next) : next.pos = pos.after c := by
  rcases enter_cases h with ⟨-, rfl⟩ | ⟨-, rfl⟩ | ⟨-, rfl⟩ | ⟨-, rfl⟩ | ⟨-, rfl⟩
  all_goals rfl

theorem step_pos {s next : Scanner} {c : Char} (h : s.step c = .ok next) : next.pos = s.pos.after c := by
  unfold step at h
  split at h
  · exact enter_pos h
  · cases h
    rfl
  · split at h
    · exact enter_pos h
    · cases h
      rfl

/-- The scanner has finished tokens of the right form only, and can finish the atom that it is inside of. -/
structure Formed (s : Scanner) : Prop where
  tokens : ∀ t ∈ s.tokens, t.Formed
  atom : ∀ pos read, s.mode = .atom pos read → Atomic read.reverse

theorem Formed.closed {s : Scanner} (h : s.Formed) : ∀ t ∈ s.closed, t.Formed := by
  unfold Scanner.closed
  split
  · rename_i pos read hmode
    exact List.forall_mem_cons.mpr ⟨.atom (h.atom pos read hmode) pos, h.tokens⟩
  · exact h.tokens

theorem Formed.enter {pos : Position} {tokens : List Token} {c : Char} {next : Scanner}
    (h : ∀ t ∈ tokens, t.Formed) (hs : enter pos tokens c = .ok next) : next.Formed := by
  rcases enter_cases hs with ⟨-, rfl⟩ | ⟨-, rfl⟩ | ⟨hc, rfl⟩ | ⟨hc, rfl⟩ | ⟨hc, rfl⟩
  · exact ⟨h, by simp⟩
  · exact ⟨h, by simp⟩
  · exact ⟨List.forall_mem_cons.mpr ⟨.opening hc pos, h⟩, by simp⟩
  · exact ⟨List.forall_mem_cons.mpr ⟨.closing hc pos, h⟩, by simp⟩
  · refine ⟨h, ?_⟩
    rintro start read hmode
    cases hmode
    exact hc

theorem Formed.step {s next : Scanner} {c : Char} (h : s.Formed) (hs : s.step c = .ok next) :
    next.Formed := by
  unfold Scanner.step at hs
  split at hs
  · exact .enter h.tokens hs
  · cases hs
    refine ⟨h.tokens, ?_⟩
    intro start read hmode
    dsimp only at hmode
    split at hmode <;> cases hmode
  · rename_i pos read hmode
    split at hs
    · exact .enter h.closed hs
    · rename_i hc
      cases hs
      refine ⟨h.tokens, ?_⟩
      rintro start read' hmode'
      cases hmode'
      obtain ⟨⟨first, rest, hread, hprintable⟩, hunbroken⟩ := h.atom pos read hmode
      refine ⟨⟨first, rest ++ [c], by rw [List.reverse_cons, hread, List.cons_append], hprintable⟩, ?_⟩
      rw [List.reverse_cons, List.forall_mem_append, List.forall_mem_singleton]
      exact ⟨hunbroken, isDelimiter_eq_false_iff.mp (Bool.eq_false_iff.mpr hc)⟩

/-- The scanner takes the characters without an error. -/
inductive Passes : Scanner → List Char → Scanner → Prop where
  | refl (s : Scanner) : Passes s [] s
  | cons {s next last : Scanner} {c : Char} {cs : List Char} (h : s.step c = .ok next)
      (rest : Passes next cs last) :
      Passes s (c :: cs) last

namespace Passes
variable {s mid last : Scanner} {cs ds : List Char}

theorem trans (h : Passes s cs mid) (k : Passes mid ds last) : Passes s (cs ++ ds) last := by
  induction h with
  | refl => exact k
  | cons h _ ih => exact .cons h (ih k)

theorem run_append (h : Passes s cs last) (ds : List Char) : s.run (cs ++ ds) = last.run ds := by
  induction h with
  | refl => rfl
  | cons h _ ih =>
    rw [List.cons_append, run, h]
    exact ih

theorem run_eq (h : Passes s cs last) : s.run cs = .ok last.finish := by
  have hrun := h.run_append []
  rwa [List.append_nil] at hrun

theorem formed (h : Passes s cs last) (hs : s.Formed) : last.Formed := by
  induction h with
  | refl => exact hs
  | cons h _ ih => exact ih (hs.step h)

end Passes

theorem passes_of_run {s : Scanner} {cs : List Char} {ts : List Token} (h : s.run cs = .ok ts) :
    ∃ last, Passes s cs last ∧ ts = last.finish := by
  induction cs generalizing s with
  | nil =>
    cases h
    exact ⟨s, .refl s, rfl⟩
  | cons c cs ih =>
    rw [run] at h
    cases hstep : s.step c with
    | error e => simp [hstep] at h
    | ok next =>
      rw [hstep] at h
      obtain ⟨last, hlast, hts⟩ := ih h
      exact ⟨last, .cons hstep hlast, hts⟩

end Scanner

theorem Token.scan_formed {source : Text} {ts : List Token} (h : Token.scan source = .ok ts) :
    ∃ body pos, ts = body ++ [⟨.eof, [], pos⟩] ∧ ∀ t ∈ body, t.Formed := by
  obtain ⟨last, hpass, rfl⟩ := Scanner.passes_of_run h
  have hlast : last.Formed := hpass.formed ⟨by simp [Scanner.start], by simp [Scanner.start]⟩
  refine ⟨last.closed.reverse, last.pos, by simp [Scanner.finish], ?_⟩
  simpa using hlast.closed

theorem Token.scan_scanned {source : Text} {ts : List Token} (h : Token.scan source = .ok ts) :
    ∃ body pos, ts = body ++ [⟨.eof, [], pos⟩] ∧ ∀ t ∈ body, t.Scanned := by
  obtain ⟨body, pos, hts, hbody⟩ := Token.scan_formed h
  exact ⟨body, pos, hts, fun t ht => (hbody t ht).scanned⟩

end StepLang
