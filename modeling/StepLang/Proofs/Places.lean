import StepLang.Proofs.Scanning

/-!
# Where the scanner is

The position of the scanner, and whether it is in a gap, in a comment or in an atom, can be told from the
characters that it has taken: a comment is open where a semicolon stands on the line so far, and else the
last character decides. So scanning fails at the first character that starts a run of characters outside of
comments and cannot be printed.
-/

namespace StepLang

/-- The characters behind the last line break, newest first. -/
def lineSoFar (cs : List Char) : List Char := cs.reverse.takeWhile (· ≠ '\n')

theorem lineSoFar_concat (cs : List Char) (c : Char) :
    lineSoFar (cs ++ [c]) = if c = '\n' then [] else c :: lineSoFar cs := by
  rw [lineSoFar, List.reverse_append, List.reverse_singleton, List.singleton_append, List.takeWhile_cons]
  by_cases h : c = '\n'
  · rw [if_pos h, if_neg (by simp [h])]
  · rw [if_neg h, if_pos (by simp [h])]
    rfl

/-- Nothing but a line break ends a comment, so one is open as long as its semicolon stands on the line so
far. -/
def Commented (cs : List Char) : Prop := ';' ∈ lineSoFar cs

theorem commented_concat {cs : List Char} {c : Char} :
    Commented (cs ++ [c]) ↔ c ≠ '\n' ∧ (c = ';' ∨ Commented cs) := by
  rw [Commented, lineSoFar_concat]
  by_cases h : c = '\n'
  · rw [if_pos h]
    exact ⟨fun hmem => absurd hmem List.not_mem_nil, fun hc => absurd h hc.1⟩
  · rw [if_neg h, List.mem_cons, eq_comm (a := c) (b := ';')]
    exact ⟨fun hmem => ⟨h, hmem⟩, fun hc => hc.2⟩

/-- The position behind characters that stand at the start of a source. -/
def Position.behind (cs : List Char) : Position := ⟨1 + cs.count '\n', 1 + (lineSoFar cs).length⟩

theorem Position.behind_concat (cs : List Char) (c : Char) : behind (cs ++ [c]) = (behind cs).after c := by
  unfold behind after
  rw [lineSoFar_concat, List.count_append, List.count_singleton]
  by_cases h : c = '\n'
  · simp only [h, if_true, beq_self_eq_true, List.length_nil, mk.injEq]
    omega
  · simp only [h, if_false, beq_iff_eq, List.length_cons, mk.injEq]
    omega

/-- A run of characters that are no delimiters, between delimiters or the ends of the source. -/
structure MaximalRun (before run after : List Char) : Prop where
  nonempty : run ≠ []
  unbroken : ∀ c ∈ run, Scanner.isDelimiter c = false
  left : ∀ d ∈ before.getLast?, Scanner.isDelimiter d = true
  right : ∀ d ∈ after.head?, Scanner.isDelimiter d = true

theorem exists_maximalRun {before : List Char} {c : Char}
    (hleft : ∀ d ∈ before.getLast?, Scanner.isDelimiter d = true)
    (hc : Scanner.isDelimiter c = false) (back : List Char) :
    ∃ rest after, c :: back = (c :: rest) ++ after ∧ MaximalRun before (c :: rest) after := by
  refine ⟨back.takeWhile (!Scanner.isDelimiter ·), back.dropWhile (!Scanner.isDelimiter ·), ?_, ?_⟩
  · rw [List.cons_append, List.takeWhile_append_dropWhile]
  · refine ⟨List.cons_ne_nil _ _, ?_, hleft, ?_⟩
    · intro d hd
      rcases List.mem_cons.mp hd with rfl | hd
      · exact hc
      · simpa using List.all_eq_true.mp List.all_takeWhile d hd
    · intro d hd
      have hstop := List.head?_dropWhile_not (!Scanner.isDelimiter ·) back
      rw [Option.mem_def.mp hd] at hstop
      simpa using hstop

/-- A maximal run outside of comments that cannot be an atom, since its first character cannot be printed. -/
structure Misprint (cs before run after : List Char) : Prop where
  cover : cs = before ++ run ++ after
  maximal : MaximalRun before run after
  outside : ¬ Commented before
  first : ∃ c rest, run = c :: rest ∧ Text.isPrintable c = false

/-- The mode of the scanner, by the characters before it. -/
def ScanMode.Agrees (before : List Char) : ScanMode → Prop
  | gap => ¬ Commented before ∧ ∀ d ∈ before.getLast?, Scanner.isDelimiter d = true
  | comment => Commented before
  | atom _ _ => ¬ Commented before ∧ ∃ d ∈ before.getLast?, Scanner.isDelimiter d = false

namespace Scanner

/-- The scanner is behind these characters of a source. -/
structure Located (before : List Char) (s : Scanner) : Prop where
  pos : s.pos = .behind before
  mode : s.mode.Agrees before

theorem located_start : Located [] start where
  pos := rfl
  mode := ⟨List.not_mem_nil, by simp⟩

theorem Located.enter {before : List Char} {pos : Position} {tokens : List Token} {c : Char} {next : Scanner}
    (houtside : ¬ Commented before) (hnext : enter pos tokens c = .ok next) :
    next.mode.Agrees (before ++ [c]) := by
  have hlast : (before ++ [c]).getLast? = some c := List.getLast?_concat
  have hgap : c ≠ ';' → isDelimiter c = true → ScanMode.gap.Agrees (before ++ [c]) := by
    intro hsemicolon hc
    refine ⟨fun h => ?_, fun d hd => ?_⟩
    · rcases (commented_concat.mp h).2 with h | h
      · exact hsemicolon h
      · exact houtside h
    · rw [hlast, Option.mem_some_iff] at hd
      exact hd ▸ hc
  rcases enter_cases hnext with ⟨hc, rfl⟩ | ⟨hc, rfl⟩ | ⟨hc, rfl⟩ | ⟨hc, rfl⟩ | ⟨hc, rfl⟩
  · refine hgap ?_ ?_
    · intro h
      rw [h] at hc
      exact absurd hc (by decide)
    · simp [isDelimiter, hc]
  · rw [hc]
    exact commented_concat.mpr ⟨by decide, .inl rfl⟩
  · rcases hc with rfl | rfl
    · exact hgap (by decide) (by decide)
    · exact hgap (by decide) (by decide)
  · rcases hc with rfl | rfl
    · exact hgap (by decide) (by decide)
    · exact hgap (by decide) (by decide)
  · have hc := hc.unbroken c List.mem_cons_self
    refine ⟨fun h => ?_, c, hlast, isDelimiter_eq_false_iff.mpr hc⟩
    rcases (commented_concat.mp h).2 with h | h
    · exact hc.2.2.2.2.2 h
    · exact houtside h

theorem Located.step {before : List Char} {s next : Scanner} {c : Char} (h : Located before s)
    (hnext : s.step c = .ok next) : Located (before ++ [c]) next := by
  refine ⟨by rw [step_pos hnext, h.pos, Position.behind_concat], ?_⟩
  have hmode := h.mode
  unfold Scanner.step at hnext
  split at hnext
  · rename_i hgap
    rw [hgap] at hmode
    exact Located.enter hmode.1 hnext
  · rename_i hcomment
    rw [hcomment] at hmode
    cases hnext
    by_cases hc : c = '\n'
    · simp only [hc, if_true]
      refine ⟨fun h => absurd rfl (commented_concat.mp h).1, fun d hd => ?_⟩
      rw [List.getLast?_concat, Option.mem_some_iff] at hd
      rw [← hd]
      decide
    · simp only [hc, if_false]
      exact commented_concat.mpr ⟨hc, .inr hmode⟩
  · rename_i start read hatom
    rw [hatom] at hmode
    split at hnext
    · exact Located.enter hmode.1 hnext
    · rename_i hc
      cases hnext
      have hc := Bool.eq_false_iff.mpr hc
      refine ⟨fun h => ?_, c, List.getLast?_concat, hc⟩
      rcases (commented_concat.mp h).2 with h | h
      · exact (isDelimiter_eq_false_iff.mp hc).2.2.2.2.2 h
      · exact hmode.1 h

theorem enter_eq_error_iff {pos : Position} {tokens : List Token} {c : Char} {e : ReadError} :
    enter pos tokens c = .error e ↔
      isDelimiter c = false ∧ Text.isPrintable c = false ∧ e = ⟨pos, .unexpectedChar c⟩ := by
  by_cases hc : isDelimiter c = true
  · refine ⟨fun h => ?_, fun h => absurd hc (by simp [h.1])⟩
    simp only [isDelimiter, Bool.or_eq_true, decide_eq_true_eq] at hc
    simp only [enter, Bool.or_eq_true, decide_eq_true_eq] at h
    grind
  · have hc := Bool.eq_false_iff.mpr hc
    obtain ⟨hblank, hopen, hclose, hsquare, hend, hsemicolon⟩ := isDelimiter_eq_false_iff.mp hc
    simp only [enter, hblank, hopen, hclose, hsquare, hend, hsemicolon, hc, decide_false,
      Bool.or_self, if_false, true_and]
    by_cases hprintable : Text.isPrintable c = true
    · simp [hprintable]
    · simp [hprintable, eq_comm]

/-- A run starts with the character, outside of comments, and the character cannot be printed. -/
structure Misstart (before : List Char) (c : Char) : Prop where
  outside : ¬ Commented before
  left : ∀ d ∈ before.getLast?, isDelimiter d = true
  inside : isDelimiter c = false
  unprintable : Text.isPrintable c = false

theorem Located.step_eq_error_iff {before : List Char} {s : Scanner} {c : Char} {e : ReadError}
    (h : Located before s) :
    s.step c = .error e ↔ Misstart before c ∧ e = ⟨.behind before, .unexpectedChar c⟩ := by
  have hmode := h.mode
  unfold Scanner.step
  cases hs : s.mode with
  | gap =>
    rw [hs] at hmode
    simp only [enter_eq_error_iff, h.pos]
    constructor
    · intro ⟨hc, hprintable, he⟩
      exact ⟨⟨hmode.1, hmode.2, hc, hprintable⟩, he⟩
    · intro ⟨hstart, he⟩
      exact ⟨hstart.inside, hstart.unprintable, he⟩
  | comment =>
    rw [hs] at hmode
    constructor
    · intro herror
      cases herror
    · intro hstart
      exact absurd hmode hstart.1.outside
  | atom start read =>
    rw [hs] at hmode
    obtain ⟨-, d, hd, hinside⟩ := hmode
    have hnot : ¬ Misstart before c := by
      intro hstart
      rw [hstart.left d hd] at hinside
      cases hinside
    refine ⟨fun herror => ?_, fun hstart => absurd hstart.1 hnot⟩
    by_cases hc : isDelimiter c = true
    · simp only [hc, if_true] at herror
      rw [enter_eq_error_iff, hc] at herror
      cases herror.1
    · simp only [hc] at herror
      cases herror

theorem Passes.located {before cs : List Char} {s last : Scanner} (h : Passes s cs last)
    (hs : Located before s) :
    Located (before ++ cs) last := by
  induction h generalizing before with
  | refl s => rwa [List.append_nil]
  | @cons s next last c cs hstep _ ih =>
    have hlast := ih (hs.step hstep)
    rwa [List.append_assoc, List.singleton_append] at hlast

theorem Passes.split {front back : List Char} {c : Char} {s last : Scanner}
    (h : Passes s (front ++ c :: back) last) :
    ∃ mid next, Passes s front mid ∧ mid.step c = .ok next := by
  induction front generalizing s with
  | nil =>
    cases h with
    | cons hstep _ => exact ⟨s, _, .refl s, hstep⟩
  | cons d front ih =>
    cases h with
    | cons hstep hrest =>
      obtain ⟨mid, next, hmid, hnext⟩ := ih hrest
      exact ⟨mid, next, .cons hstep hmid, hnext⟩

theorem Passes.not_misstart {front back : List Char} {c : Char} {last : Scanner}
    (h : Passes start (front ++ c :: back) last) : ¬ Misstart front c := by
  intro hstart
  obtain ⟨mid, next, hmid, hnext⟩ := h.split
  have herror := (hmid.located located_start).step_eq_error_iff.mpr ⟨hstart, rfl⟩
  rw [hnext] at herror
  cases herror

theorem exists_failing_step {s : Scanner} {cs : List Char} {e : ReadError} (h : s.run cs = .error e) :
    ∃ front c back mid, cs = front ++ c :: back ∧ Passes s front mid ∧ mid.step c = .error e := by
  induction cs generalizing s with
  | nil => cases h
  | cons c cs ih =>
    rw [run] at h
    cases hstep : s.step c with
    | error e' =>
      rw [hstep] at h
      cases h
      exact ⟨[], c, cs, s, rfl, .refl s, hstep⟩
    | ok next =>
      rw [hstep] at h
      obtain ⟨front, d, back, mid, rfl, hmid, herror⟩ := ih h
      exact ⟨c :: front, d, back, mid, rfl, .cons hstep hmid, herror⟩

theorem Misstart.exists_misprint {before : List Char} {c : Char} (h : Misstart before c) (back : List Char) :
    ∃ rest after, Misprint (before ++ c :: back) before (c :: rest) after := by
  obtain ⟨rest, after, hback, hrun⟩ := exists_maximalRun h.left h.inside back
  refine ⟨rest, after, ?_, hrun, h.outside, c, rest, rfl, h.unprintable⟩
  rw [hback, List.append_assoc]

end Scanner

theorem Misprint.misstart {cs before run after : List Char} (h : Misprint cs before run after) :
    ∃ c rest, run = c :: rest ∧ cs = before ++ c :: (rest ++ after) ∧ Scanner.Misstart before c := by
  obtain ⟨c, rest, rfl, hprintable⟩ := h.first
  refine ⟨c, rest, rfl, ?_, h.outside, h.maximal.left, h.maximal.unbroken c List.mem_cons_self, hprintable⟩
  rw [h.cover, List.append_assoc, List.cons_append]

theorem Token.not_misprint_of_scan {source : Text} {ts : List Token} (h : Token.scan source = .ok ts)
    (before run after : List Char) : ¬ Misprint (source.map Glyph.toChar) before run after := by
  intro hmisprint
  obtain ⟨last, hpass, -⟩ := Scanner.passes_of_run h
  obtain ⟨c, rest, -, hcover, hstart⟩ := hmisprint.misstart
  rw [hcover] at hpass
  exact hpass.not_misstart hstart

theorem Token.exists_misprint_of_scan {source : Text} {e : ReadError} (h : Token.scan source = .error e) :
    ∃ before c rest after, Misprint (source.map Glyph.toChar) before (c :: rest) after ∧
      (∀ before' run' after', Misprint (source.map Glyph.toChar) before' run' after' →
        before.length ≤ before'.length) ∧
      e = ⟨.behind before, .unexpectedChar c⟩ := by
  obtain ⟨before, c, back, mid, hcover, hpass, herror⟩ := Scanner.exists_failing_step h
  obtain ⟨hstart, he⟩ := (hpass.located Scanner.located_start).step_eq_error_iff.mp herror
  obtain ⟨rest, after, hmisprint⟩ := hstart.exists_misprint back
  rw [hcover]
  refine ⟨before, c, rest, after, hmisprint, ?_, he⟩
  intro before' run' after' hother
  obtain ⟨c', rest', -, hcover', hstart'⟩ := hother.misstart
  apply Nat.le_of_not_lt
  intro hlt
  have hprefix : before' ++ [c'] <+: before := by
    have hfront : before' ++ [c'] <+: before ++ c :: back := by
      rw [hcover']
      exact ⟨rest' ++ after', by rw [List.append_assoc, List.singleton_append]⟩
    apply List.prefix_of_prefix_length_le hfront (List.prefix_append _ _)
    rw [List.length_append, List.length_singleton]
    omega
  obtain ⟨between, hbetween⟩ := hprefix
  rw [← hbetween, List.append_assoc, List.singleton_append] at hpass
  exact hpass.not_misstart hstart'

end StepLang
