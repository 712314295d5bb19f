import StepLang.Proofs.Places
import StepLang.Proofs.RoundTrip

/-!
# Scanning cuts a source into gaps and lexemes

Nothing is lost between the tokens: the source is a gap, a lexeme, a gap, a lexeme and so on up to a last
gap, and each token is at the position behind what comes before its lexeme. The gaps are blanks and
comments, and an atom goes on as far as it can.
-/

namespace StepLang

/-- Blanks and comments, with `after` behind them. A comment goes on up to a line break or the end of the
source. -/
inductive Gap (after : List Char) : List Char → Prop where
  | nil : Gap after []
  | blank {c : Char} {cs : List Char} (h : Text.isBlank c = true) (rest : Gap after cs) : Gap after (c :: cs)
  | comment {body cs : List Char} (h : '\n' ∉ body) (stop : ∀ d ∈ (cs ++ after).head?, d = '\n')
      (rest : Gap after cs) :
      Gap after (';' :: (body ++ cs))

theorem Gap.append {after xs ys : List Char} (h : Gap (ys ++ after) xs) (k : Gap after ys) :
    Gap after (xs ++ ys) := by
  induction h with
  | nil => exact k
  | blank h _ ih => exact .blank h ih
  | comment h stop _ ih =>
    rw [List.cons_append, List.append_assoc]
    refine .comment h ?_ ih
    rwa [List.append_assoc]

/-- The kind of a token by its characters, between what stands before and behind them. -/
inductive Lexeme (before : List Char) : TokenKind → List Char → List Char → Prop where
  | opening {c : Char} {after : List Char} (h : c = '(' ∨ c = '[') : Lexeme before .opening [c] after
  | closing {c : Char} {after : List Char} (h : c = ')' ∨ c = ']') : Lexeme before .closing [c] after
  | integer {cs after : List Char} (hrun : MaximalRun before cs after) (h : Datum.Numeric cs) :
      Lexeme before .integer cs after
  | symbol {cs after : List Char} (hrun : MaximalRun before cs after) (h : ¬ Datum.Numeric cs) :
      Lexeme before .symbol cs after

/-- A lexeme with the gap before it. -/
structure Piece where
  gap : List Char
  kind : TokenKind
  lexeme : List Char
  pos : Position

namespace Piece

def token (p : Piece) : Token := ⟨p.kind, .ofChars p.lexeme, p.pos⟩

def chars (p : Piece) : List Char := p.gap ++ p.lexeme

def join (ps : List Piece) : List Char := ps.flatMap chars

def IsAtom (p : Piece) : Prop := p.kind = .integer ∨ p.kind = .symbol

theorem join_cons (p : Piece) (ps : List Piece) : join (p :: ps) = p.chars ++ join ps := rfl

theorem join_concat (ps : List Piece) (p : Piece) : join (ps ++ [p]) = join ps ++ p.chars := by
  rw [join, List.flatMap_append, List.flatMap_singleton]
  rfl

/-- The piece can stand between these characters, and its token is at its position there. -/
structure Fits (p : Piece) (before after : List Char) : Prop where
  gap : Gap (p.lexeme ++ after) p.gap
  placed : p.pos = .behind (before ++ p.gap)
  lexeme : Lexeme (before ++ p.gap) p.kind p.lexeme after

/-- Every piece fits where it stands, with `after` behind the last. -/
def Fitting (ps : List Piece) (after : List Char) : Prop :=
  ∀ front p back, ps = front ++ p :: back → p.Fits (join front) (join back ++ after)

theorem fitting_nil (after : List Char) : Fitting [] after := by
  intro front p back h
  simp at h

theorem Fitting.concat {ps : List Piece} {p : Piece} {after : List Char} (h : Fitting ps (p.chars ++ after))
    (hp : p.Fits (join ps) after) : Fitting (ps ++ [p]) after := by
  intro front q back hsplit
  rcases List.eq_nil_or_concat back with rfl | ⟨back, last, rfl⟩
  · obtain ⟨rfl, hlast⟩ := List.append_inj' hsplit rfl
    cases hlast
    exact hp
  · rw [List.concat_eq_append, ← List.cons_append, ← List.append_assoc] at hsplit
    obtain ⟨hps, hlast⟩ := List.append_inj' hsplit rfl
    cases hlast
    rw [List.concat_eq_append, join_concat, List.append_assoc]
    exact h front q back hps

theorem lexeme_of_isAtom {before after : List Char} {p : Piece} (h : p.Fits before after) (hatom : p.IsAtom) :
    MaximalRun (before ++ p.gap) p.lexeme after := by
  obtain ⟨gap, kind, lexeme, pos⟩ := p
  have hlexeme := h.lexeme
  rcases hatom with hkind | hkind
  · cases hkind
    cases hlexeme with
    | integer hrun _ => exact hrun
  · cases hkind
    cases hlexeme with
    | symbol hrun _ => exact hrun

theorem Fitting.gap_ne_nil {ps front back : List Piece} {p q : Piece} {after : List Char}
    (h : Fitting ps after)
    (hsplit : ps = front ++ p :: q :: back) (hp : p.IsAtom) (hq : q.IsAtom) : q.gap ≠ [] := by
  intro hgap
  have hfirst := lexeme_of_isAtom (h front p (q :: back) hsplit) hp
  have hsecond := lexeme_of_isAtom (h (front ++ [p]) q back (by rw [hsplit, List.append_assoc]; rfl)) hq
  obtain ⟨c, rest, hlexeme⟩ := List.exists_cons_of_ne_nil hsecond.nonempty
  have hdelimiter := hfirst.right c (by rw [join_cons, chars, hgap, hlexeme]; rfl)
  have hinside := hsecond.unbroken c (by rw [hlexeme]; exact List.mem_cons_self)
  rw [hdelimiter] at hinside
  cases hinside

end Piece

/-- A source cut into pieces and a last gap. -/
structure Token.Partition (cs : List Char) (pieces : List Piece) (last : List Char) : Prop where
  cover : cs = Piece.join pieces ++ last
  fits : ∀ front p back, pieces = front ++ p :: back → p.Fits (Piece.join front) (Piece.join back ++ last)
  last : Gap [] last
  apart : ∀ front p q back, pieces = front ++ p :: q :: back → p.IsAtom → q.IsAtom → q.gap ≠ []

theorem Token.partition_of_fitting {pieces : List Piece} {last : List Char} (h : Piece.Fitting pieces last)
    (hlast : Gap [] last) : Token.Partition (Piece.join pieces ++ last) pieces last where
  cover := rfl
  fits := h
  last := hlast
  apart := fun _ _ _ _ hsplit hp hq => h.gap_ne_nil hsplit hp hq

/-- What the characters behind the last finished token are, by the mode of the scanner. -/
def ScanMode.Leaves (front tail : List Char) : ScanMode → Prop
  | gap => ∀ after, Gap after tail
  | comment => ∃ gap body, tail = gap ++ ';' :: body ∧ (∀ after, Gap after gap) ∧ '\n' ∉ body
  | atom start read =>
    ∃ gap, tail = gap ++ read.reverse ∧ (∀ after, Gap after gap) ∧ start = .behind (front ++ gap) ∧
      read ≠ [] ∧ (∀ c ∈ read, Scanner.isDelimiter c = false) ∧
      ∀ d ∈ (front ++ gap).getLast?, Scanner.isDelimiter d = true

namespace Scanner

def atomPiece (gap : List Char) (start : Position) (cs : List Char) : Piece :=
  ⟨gap, if isInteger cs then .integer else .symbol, cs, start⟩

theorem lexeme_atomPiece {gap before cs after : List Char} (start : Position)
    (h : MaximalRun before cs after) :
    Lexeme before (atomPiece gap start cs).kind cs after := by
  unfold atomPiece
  by_cases hcs : isInteger cs = true
  · simp only [hcs, if_true]
    exact .integer h (isInteger_iff.mp hcs)
  · simp only [hcs]
    exact .symbol h fun hnumeric => hcs (isInteger_iff.mpr hnumeric)

/-- The characters taken so far are cut into pieces, which fit whatever follows, and a tail that is still
open. -/
structure Tiles (before : List Char) (s : Scanner) (ps : List Piece) (tail : List Char) : Prop where
  tokens : s.tokens = (ps.map Piece.token).reverse
  cover : before = Piece.join ps ++ tail
  fits : ∀ more, Piece.Fitting ps (tail ++ more)
  tail : s.mode.Leaves (Piece.join ps) tail

theorem tiles_start : Tiles [] start [] [] where
  tokens := rfl
  cover := rfl
  fits := fun _ => Piece.fitting_nil _
  tail := fun _ => .nil

theorem fitting_concat {ps : List Piece} {p : Piece} {after : List Char}
    (hfits : ∀ more, Piece.Fitting ps (p.chars ++ more)) (hgap : ∀ after, Gap after p.gap)
    (hpos : p.pos = .behind (Piece.join ps ++ p.gap))
    (hlexeme : Lexeme (Piece.join ps ++ p.gap) p.kind p.lexeme after) : Piece.Fitting (ps ++ [p]) after :=
  (hfits after).concat ⟨hgap _, hpos, hlexeme⟩

section Entering

variable {before tail : List Char} {ps : List Piece} {tokens : List Token} {c : Char}
variable (htokens : tokens = (ps.map Piece.token).reverse) (hcover : before = Piece.join ps ++ tail)
variable (hfits : ∀ more, Piece.Fitting ps (tail ++ c :: more))
include htokens hcover hfits

theorem tiles_open {mode : ScanMode} (pos : Position) (htail : mode.Leaves (Piece.join ps) (tail ++ [c])) :
    Tiles (before ++ [c]) ⟨pos, mode, tokens⟩ ps (tail ++ [c]) where
  tokens := htokens
  cover := by rw [hcover, List.append_assoc]
  fits := by
    intro more
    rw [List.append_assoc, List.singleton_append]
    exact hfits more
  tail := htail

variable (hgap : ∀ after, Gap after tail)
include hgap

theorem tiles_bracket {kind : TokenKind} (pos : Position) (hlexeme : ∀ after, Lexeme before kind [c] after) :
    Tiles (before ++ [c]) ⟨pos, .gap, bracket kind c (.behind before) :: tokens⟩
      (ps ++ [⟨tail, kind, [c], .behind before⟩]) [] where
  tokens := by
    rw [List.map_append, List.reverse_append, htokens]
    rfl
  cover := by
    rw [Piece.join_concat, hcover, List.append_nil, List.append_assoc]
    rfl
  fits := by
    intro more
    apply fitting_concat
    · intro more
      rw [Piece.chars, List.append_assoc, List.singleton_append]
      exact hfits more
    · exact hgap
    · rw [hcover]
    · rw [← hcover]
      exact hlexeme more
  tail := fun _ => .nil

theorem tiles_enter {next : Scanner}
    (hleft : isDelimiter c = false → ∀ d ∈ before.getLast?, isDelimiter d = true)
    (hnext : enter (.behind before) tokens c = .ok next) : ∃ ps tail, Tiles (before ++ [c]) next ps tail := by
  rcases enter_cases hnext with ⟨hc, rfl⟩ | ⟨rfl, rfl⟩ | ⟨hc, rfl⟩ | ⟨hc, rfl⟩ | ⟨hc, rfl⟩
  · refine ⟨_, _, tiles_open htokens hcover hfits _ ?_⟩
    intro after
    exact (hgap _).append (.blank hc .nil)
  · refine ⟨_, _, tiles_open htokens hcover hfits _ ?_⟩
    exact ⟨tail, [], rfl, hgap, List.not_mem_nil⟩
  · exact ⟨_, _, tiles_bracket htokens hcover hfits hgap _ fun _ => .opening hc⟩
  · exact ⟨_, _, tiles_bracket htokens hcover hfits hgap _ fun _ => .closing hc⟩
  · have hinside : isDelimiter c = false := isDelimiter_eq_false_iff.mpr (hc.unbroken c List.mem_cons_self)
    refine ⟨_, _, tiles_open htokens hcover hfits _ ?_⟩
    rw [hcover] at hleft ⊢
    exact ⟨tail, rfl, hgap, rfl, List.cons_ne_nil _ _, List.forall_mem_singleton.mpr hinside, hleft hinside⟩

end Entering

theorem Tiles.close_atom {before tail : List Char} {ps : List Piece} {s : Scanner}
    (h : Tiles before s ps tail) (start : Position) (read : List Char) (hmode : s.mode = .atom start read) :
    ∃ qs, s.closed = (qs.map Piece.token).reverse ∧ before = Piece.join qs ∧
      ∀ after, (∀ d ∈ after.head?, isDelimiter d = true) → Piece.Fitting qs after := by
  have htail := h.tail
  rw [hmode] at htail
  obtain ⟨gap, rfl, hgap, hstart, hne, hread, hleft⟩ := htail
  refine ⟨ps ++ [atomPiece gap start read.reverse], ?_, ?_, ?_⟩
  · rw [List.map_append, List.reverse_append, closed, hmode, h.tokens]
    rfl
  · rw [Piece.join_concat, h.cover]
    rfl
  · intro after hafter
    have hrun : MaximalRun (Piece.join ps ++ gap) read.reverse after := by
      refine ⟨?_, ?_, hleft, hafter⟩
      · rw [ne_eq, List.reverse_eq_nil_iff]
        exact hne
      · intro c hc
        exact hread c (List.mem_reverse.mp hc)
    exact fitting_concat h.fits hgap hstart (lexeme_atomPiece start hrun)

theorem Tiles.step {before tail : List Char} {ps : List Piece} {s next : Scanner} {c : Char}
    (h : Tiles before s ps tail) (hs : Located before s) (hnext : s.step c = .ok next) :
    ∃ ps tail, Tiles (before ++ [c]) next ps tail := by
  obtain ⟨pos, mode, tokens⟩ := s
  have hatom := h.close_atom
  obtain ⟨htokens, hcover, hfits, htail⟩ := h
  obtain ⟨hpos, hmode⟩ := hs
  dsimp only at htokens htail hpos hmode
  subst hpos
  cases mode with
  | gap => exact tiles_enter htokens hcover (fun more => hfits (c :: more)) htail (fun _ => hmode.2) hnext
  | comment =>
    obtain ⟨gap, body, rfl, hgap, hbody⟩ := htail
    cases hnext
    refine ⟨_, _, tiles_open htokens hcover (fun more => hfits (c :: more)) _ ?_⟩
    by_cases hc : c = '\n'
    · subst hc
      intro after
      rw [List.append_assoc]
      apply (hgap _).append
      exact .comment hbody (by simp) (.blank (by decide) .nil)
    · simp only [hc, if_false]
      refine ⟨gap, body ++ [c], by rw [List.append_assoc, List.cons_append], hgap, ?_⟩
      rw [List.mem_append, List.mem_singleton]
      intro h
      rcases h with h | h
      · exact hbody h
      · exact hc h.symm
  | atom start read =>
    by_cases hc : isDelimiter c = true
    · simp only [Scanner.step, hc, if_true] at hnext
      obtain ⟨qs, hclosed, hjoin, hfitting⟩ := hatom start read rfl
      have hcover : before = Piece.join qs ++ [] := by rw [hjoin, List.append_nil]
      have hfits : ∀ more, Piece.Fitting qs ([] ++ c :: more) := by
        intro more
        apply hfitting
        intro d hd
        rw [List.nil_append, List.head?_cons, Option.mem_some_iff] at hd
        exact hd ▸ hc
      apply tiles_enter hclosed hcover hfits (fun _ => .nil) _ hnext
      intro hinside
      rw [hc] at hinside
      cases hinside
    · have hc := Bool.eq_false_iff.mpr hc
      simp only [Scanner.step, hc] at hnext
      cases hnext
      obtain ⟨gap, rfl, hgap, hstart, hne, hread, hleft⟩ := htail
      refine ⟨_, _, tiles_open htokens hcover (fun more => hfits (c :: more)) _ ?_⟩
      refine ⟨gap, by rw [List.reverse_cons, List.append_assoc], hgap, hstart,
        List.cons_ne_nil _ _, ?_, hleft⟩
      exact List.forall_mem_cons.mpr ⟨hc, hread⟩

theorem Passes.tiles {before cs tail : List Char} {ps : List Piece} {s last : Scanner} (h : Passes s cs last)
    (hs : Located before s) (htiles : Tiles before s ps tail) :
    ∃ ps tail, Tiles (before ++ cs) last ps tail := by
  induction h generalizing before ps tail with
  | refl s =>
    rw [List.append_nil]
    exact ⟨ps, tail, htiles⟩
  | @cons s next last c cs hstep _ ih =>
    obtain ⟨ps, tail, hnext⟩ := htiles.step hs hstep
    rw [← List.singleton_append, ← List.append_assoc]
    exact ih (hs.step hstep) hnext

theorem Tiles.finish {before tail : List Char} {ps : List Piece} {s : Scanner} (h : Tiles before s ps tail) :
    ∃ pieces last, Token.Partition before pieces last ∧
      s.finish = pieces.map Piece.token ++ [⟨.eof, [], s.pos⟩] := by
  have hfinish : ∀ qs : List Piece, s.closed = (qs.map Piece.token).reverse →
      s.finish = qs.map Piece.token ++ [⟨.eof, [], s.pos⟩] := by
    intro qs hqs
    rw [Scanner.finish, hqs, List.reverse_cons, List.reverse_reverse]
  have hopen : Gap [] tail → s.closed = s.tokens → ∃ pieces last, Token.Partition before pieces last ∧
      s.finish = pieces.map Piece.token ++ [⟨.eof, [], s.pos⟩] := by
    intro hlast hclosed
    have hfits := h.fits []
    rw [List.append_nil] at hfits
    refine ⟨ps, tail, ?_, hfinish ps (hclosed.trans h.tokens)⟩
    rw [h.cover]
    exact Token.partition_of_fitting hfits hlast
  have htail := h.tail
  cases hmode : s.mode with
  | gap =>
    rw [hmode] at htail
    exact hopen (htail []) (by rw [closed, hmode])
  | comment =>
    rw [hmode] at htail
    obtain ⟨gap, body, rfl, hgap, hbody⟩ := htail
    have hcomment : Gap [] (';' :: (body ++ [])) := .comment hbody (by simp) .nil
    rw [List.append_nil] at hcomment
    exact hopen ((hgap _).append hcomment) (by rw [closed, hmode])
  | atom start read =>
    obtain ⟨qs, hclosed, hjoin, hfitting⟩ := h.close_atom start read hmode
    refine ⟨qs, [], ?_, hfinish qs hclosed⟩
    have hpartition := Token.partition_of_fitting (hfitting [] (by simp)) .nil
    rwa [List.append_nil, ← hjoin] at hpartition

end Scanner

/-- A source that is scanned is cut into gaps and the lexemes of its tokens, with the end of input behind
them. Scanning fails exactly where there is a misprint, at the first of them. -/
theorem Token.scan_partition (source : Text) :
    (∀ ts, Token.scan source = .ok ts → ∃ pieces last, Token.Partition (source.map Glyph.toChar) pieces last ∧
      ts = pieces.map Piece.token ++ [⟨.eof, [], .behind (source.map Glyph.toChar)⟩]) ∧
    ((∃ e, Token.scan source = .error e) ↔
      ∃ before run after, Misprint (source.map Glyph.toChar) before run after) ∧
    ∀ e, Token.scan source = .error e →
      ∃ before c rest after, Misprint (source.map Glyph.toChar) before (c :: rest) after ∧
        (∀ before' run' after', Misprint (source.map Glyph.toChar) before' run' after' →
          before.length ≤ before'.length) ∧
        e = ⟨.behind before, .unexpectedChar c⟩ := by
  refine ⟨?_, ⟨?_, ?_⟩, fun e he => Token.exists_misprint_of_scan he⟩
  · intro ts hts
    obtain ⟨last, hpass, rfl⟩ := Scanner.passes_of_run hts
    have hlocated := hpass.located Scanner.located_start
    obtain ⟨ps, tail, htiles⟩ := hpass.tiles Scanner.located_start Scanner.tiles_start
    rw [List.nil_append] at hlocated htiles
    rw [← hlocated.pos]
    exact htiles.finish
  · intro ⟨e, he⟩
    obtain ⟨before, c, rest, after, hmisprint, -, -⟩ := Token.exists_misprint_of_scan he
    exact ⟨before, c :: rest, after, hmisprint⟩
  · intro ⟨before, run, after, hmisprint⟩
    cases hscan : Token.scan source with
    | error e => exact ⟨e, rfl⟩
    | ok ts => exact absurd hmisprint (Token.not_misprint_of_scan hscan before run after)

/-- A comment between two atoms with a bracket in it, and a character that cannot be printed: in an atom, in
a comment and at the start of a run. -/
theorem Token.scan_partition_comment :
    (∃ pieces last, Token.Partition ['[', 'a', ';', '(', '\n', '+', '1'] pieces last ∧
      pieces.map Piece.token = [⟨.opening, "[", ⟨1, 1⟩⟩, ⟨.symbol, "a", ⟨1, 2⟩⟩, ⟨.integer, "+1", ⟨2, 1⟩⟩]) ∧
    ∃ before rest after,
    Misprint ['a', '\x07', ';', '\x07', '\n', '\x07', 'b'] before ('\x07' :: rest) after ∧
      Position.behind before = ⟨2, 1⟩ := by
  constructor
  · have hscan : Token.scan "[a;(\n+1" =
        .ok [⟨.opening, "[", ⟨1, 1⟩⟩, ⟨.symbol, "a", ⟨1, 2⟩⟩, ⟨.integer, "+1", ⟨2, 1⟩⟩,
          ⟨.eof, [], ⟨2, 3⟩⟩] := rfl
    obtain ⟨pieces, last, hpartition, htokens⟩ := (Token.scan_partition _).1 _ hscan
    exact ⟨pieces, last, hpartition, (List.append_inj' htokens rfl).1.symm⟩
  · have hscan : Token.scan "a\x07;\x07\n\x07b" = .error ⟨⟨2, 1⟩, .unexpectedChar '\x07'⟩ := rfl
    obtain ⟨before, c, rest, after, hmisprint, -, he⟩ := (Token.scan_partition _).2.2 _ hscan
    rw [ReadError.mk.injEq, ReadFault.unexpectedChar.injEq] at he
    rw [← he.2] at hmisprint
    exact ⟨before, rest, after, hmisprint, he.1.symm⟩

end StepLang
