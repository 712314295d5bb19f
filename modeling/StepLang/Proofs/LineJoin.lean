import StepLang.Proofs.Bytes
import StepLang.Proofs.Scanning

/-!
# Scanning line by line

Behind a line break the scanner is between tokens whatever came before, and from there it does what it does
at the start of a source, some lines further down. So two texts joined by a line break are scanned apart
from each other.
-/

namespace StepLang

def Position.down (k : Int) (p : Position) : Position := ⟨p.line + k, p.column⟩

theorem Position.after_down (k : Int) (p : Position) (c : Char) :
    (p.down k).after c = (p.after c).down k := by
  have hline : p.line + k + 1 = p.line + 1 + k := by omega
  unfold after down
  split
  · rw [hline]
  · rfl

def Token.down (k : Int) (t : Token) : Token := { t with pos := t.pos.down k }

def ReadError.down (k : Int) (e : ReadError) : ReadError := { e with pos := e.pos.down k }

def ScanMode.down (k : Int) : ScanMode → ScanMode
  | gap => gap
  | comment => comment
  | atom start read => atom (start.down k) read

namespace Scanner

/-- The same scanner some lines further down, behind other tokens. -/
def down (k : Int) (before : List Token) (s : Scanner) : Scanner :=
  ⟨s.pos.down k, s.mode.down k, s.tokens.map (Token.down k) ++ before⟩

theorem closed_down (k : Int) (before : List Token) (s : Scanner) :
    (s.down k before).closed = s.closed.map (Token.down k) ++ before := by
  obtain ⟨pos, mode, tokens⟩ := s
  cases mode <;> rfl

theorem finish_down (k : Int) (before : List Token) (s : Scanner) :
    (s.down k before).finish = before.reverse ++ s.finish.map (Token.down k) := by
  rw [finish, closed_down, finish]
  simp [down, Token.down]

theorem enter_down (k : Int) (before : List Token) (pos : Position) (tokens : List Token) (c : Char) :
    enter (pos.down k) (tokens.map (Token.down k) ++ before) c =
      match enter pos tokens c with
      | .error e => .error (e.down k)
      | .ok next => .ok (next.down k before) := by
  unfold enter
  simp only [Position.after_down]
  split
  · rfl
  split
  · rfl
  split
  · rfl
  split
  · rfl
  split
  · rfl
  · rfl

theorem step_down (k : Int) (before : List Token) (s : Scanner) (c : Char) :
    (s.down k before).step c =
      match s.step c with
      | .error e => .error (e.down k)
      | .ok next => .ok (next.down k before) := by
  have hclosed := closed_down k before s
  obtain ⟨pos, mode, tokens⟩ := s
  cases mode with
  | gap => exact enter_down k before pos tokens c
  | comment =>
    simp only [step, down, ScanMode.down, Position.after_down]
    split <;> rfl
  | atom start read =>
    simp only [down, ScanMode.down] at hclosed
    simp only [step, down, ScanMode.down, hclosed, Position.after_down]
    split
    · exact enter_down k before pos _ c
    · rfl

theorem run_down (k : Int) (before : List Token) (s : Scanner) (cs : List Char) :
    (s.down k before).run cs =
      match s.run cs with
      | .error e => .error (e.down k)
      | .ok ts => .ok (before.reverse ++ ts.map (Token.down k)) := by
  induction cs generalizing s with
  | nil => rw [run, run, finish_down]
  | cons c cs ih =>
    rw [run, run, step_down]
    cases s.step c with
    | error e => rfl
    | ok next => exact ih next

/-- Outside of comments a delimiter ends an unfinished atom and is then looked at as in a gap. -/
theorem step_delimiter {s : Scanner} {c : Char} (hmode : s.mode ≠ .comment) (hc : isDelimiter c = true) :
    s.step c = enter s.pos s.closed c := by
  obtain ⟨pos, mode, tokens⟩ := s
  cases mode with
  | gap => rfl
  | comment => exact absurd rfl hmode
  | atom start read => simp only [step, hc, if_true]

theorem step_newline (s : Scanner) : s.step '\n' = .ok (start.down s.pos.line s.closed) := by
  have hpos : s.pos.after '\n' = Position.start.down s.pos.line := by
    rw [Position.after, if_pos rfl, Int.add_comm]
    rfl
  have hnext : start.down s.pos.line s.closed = ⟨s.pos.after '\n', .gap, s.closed⟩ := by
    rw [hpos]
    rfl
  rw [hnext]
  by_cases hmode : s.mode = .comment
  · simp only [step, hmode, closed, if_true]
  · rw [step_delimiter hmode (by decide), enter, if_pos (by decide)]

theorem Passes.line_eq {s last : Scanner} {cs : List Char} (h : Passes s cs last) :
    last.pos.line = s.pos.line + cs.count '\n' := by
  induction h with
  | refl s => simp
  | @cons s next last c cs h _ ih =>
    rw [ih, step_pos h, Position.after, List.count_cons]
    by_cases hc : c = '\n'
    · simp [hc]
      omega
    · simp [hc]

theorem run_append_error {s : Scanner} {cs : List Char} {e : ReadError} (h : s.run cs = .error e)
    (ds : List Char) :
    s.run (cs ++ ds) = .error e := by
  induction cs generalizing s with
  | nil => cases h
  | cons c cs ih =>
    rw [List.cons_append, run]
    rw [run] at h
    cases hstep : s.step c with
    | error e' =>
      rw [hstep] at h
      exact h
    | ok next =>
      rw [hstep] at h
      exact ih h

end Scanner

namespace Text

def lineBreaks (t : Text) : Int := t.count newline

theorem count_toChar (t : Text) : (t.map Glyph.toChar).count '\n' = t.count newline := by
  induction t with
  | nil => rfl
  | cons g t ih =>
    have hg : (g.toChar == '\n') = (g == newline) := by
      rw [Bool.eq_iff_iff, beq_iff_eq, beq_iff_eq]
      cases g with
      | char c => simp [Glyph.toChar, newline]
      | stray b => simp [Glyph.toChar, newline]
    rw [List.map_cons, List.count_cons, List.count_cons, ih, hg]

end Text

theorem Token.scan_join (source more : Text) :
    Token.scan (source ++ Text.newline :: more) =
      match Token.scan source with
      | .error e => .error e
      | .ok ts =>
        match Token.scan more with
        | .error e => .error (e.down (1 + source.lineBreaks))
        | .ok us => .ok (ts.dropLast ++ us.map (Token.down (1 + source.lineBreaks))) := by
  have hchars : (source ++ Text.newline :: more).map Glyph.toChar =
      source.map Glyph.toChar ++ '\n' :: more.map Glyph.toChar := by
    rw [List.map_append, List.map_cons]
    rfl
  unfold scan
  rw [hchars]
  cases hrun : Scanner.start.run (source.map Glyph.toChar) with
  | error e => exact Scanner.run_append_error hrun _
  | ok ts =>
    obtain ⟨last, hpass, rfl⟩ := Scanner.passes_of_run hrun
    have hline : last.pos.line = 1 + source.lineBreaks := by
      rw [hpass.line_eq, Text.count_toChar]
      rfl
    have htokens : last.finish.dropLast = last.closed.reverse := by
      rw [Scanner.finish, List.reverse_cons, List.dropLast_concat]
    rw [hpass.run_append, Scanner.run, last.step_newline]
    simp only [htokens]
    rw [Scanner.run_down, hline]

/-- Of two byte strings joined by a line break, the first decides unless it can be scanned; then the second
is scanned as if it stood alone, below the lines of the first. -/
theorem Token.scan_bytes_join (a b : List UInt8) :
    match Token.scan (.ofBytes a), Token.scan (.ofBytes b) with
    | .error e, _ => Token.scan (.ofBytes (a ++ 0x0A :: b)) = .error e
    | .ok _, .error e => Token.scan (.ofBytes (a ++ 0x0A :: b)) =
        .error ⟨⟨e.pos.line + 1 + a.count 0x0A, e.pos.column⟩, e.fault⟩
    | .ok ts, .ok us => ∃ body pos, ts = body ++ [⟨.eof, [], pos⟩] ∧ (∀ t ∈ body, t.kind ≠ .eof) ∧
        Token.scan (.ofBytes (a ++ 0x0A :: b)) = .ok (body ++ us.map (Token.down (1 + a.count 0x0A))) := by
  have hjoin := Token.scan_join (.ofBytes a) (.ofBytes b)
  have hcount : (Text.ofBytes a).lineBreaks = a.count 0x0A := by rw [Text.lineBreaks, Text.count_ofBytes]
  rw [← Text.ofBytes_join, hcount] at hjoin
  cases ha : Token.scan (.ofBytes a) with
  | error e =>
    rw [ha] at hjoin
    exact hjoin
  | ok ts =>
    rw [ha] at hjoin
    cases hb : Token.scan (.ofBytes b) with
    | error e =>
      rw [hb] at hjoin
      simp only [ReadError.down, Position.down, ← Int.add_assoc] at hjoin
      exact hjoin
    | ok us =>
      rw [hb] at hjoin
      obtain ⟨body, pos, rfl, hformed⟩ := Token.scan_formed ha
      refine ⟨body, pos, rfl, fun t ht => (hformed t ht).kind_ne_eof, ?_⟩
      simp only [List.dropLast_concat] at hjoin
      exact hjoin

end StepLang
