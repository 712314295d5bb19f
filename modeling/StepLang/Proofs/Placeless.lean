import StepLang.Proofs.Building
import StepLang.Proofs.NormalForm

/-!
# Positions decide nothing

Positions are counted along and handed on, and nothing is decided by them. So tokens that differ in their
positions alone are read as trees that do, or refused for the same reason, and such trees are built into one
expression.
-/

namespace StepLang

def ReadError.unplaced (e : ReadError) : ReadError :=
  ⟨.none, match e.fault with
    | .mismatchedClose closer opener _ => .mismatchedClose closer opener .none
    | fault => fault⟩

theorem ReadError.isIncomplete_unplaced (e : ReadError) : e.unplaced.isIncomplete = e.isIncomplete := by
  obtain ⟨pos, fault⟩ := e
  cases fault <;> rfl

/-- What reading gives, without the positions in it. -/
def unplacing {α : Type} (f : α → α) : Except ReadError α → Except ReadError α
  | .error e => .error e.unplaced
  | .ok a => .ok (f a)

theorem unplacing_eq_ok {α : Type} {f : α → α} {r : Except ReadError α} {a : α}
    (h : unplacing f r = unplacing f (.ok a)) : ∃ b, r = .ok b ∧ f b = f a := by
  cases r with
  | error e => cases h
  | ok b => exact ⟨b, rfl, Except.ok.inj h⟩

theorem unplacing_eq_error {α : Type} {f : α → α} {r : Except ReadError α} {e : ReadError}
    (h : unplacing f r = unplacing f (.error e)) :
    ∃ other, r = .error other ∧ other.unplaced = e.unplaced := by
  cases r with
  | error other => exact ⟨other, rfl, Except.error.inj h⟩
  | ok b => cases h

def Token.unplaced (t : Token) : Token := { t with pos := .none }

def ScanMode.unplaced : ScanMode → ScanMode
  | gap => gap
  | comment => comment
  | atom _ read => atom .none read

namespace Scanner

def unplaced (s : Scanner) : Scanner := ⟨.none, s.mode.unplaced, s.tokens.map Token.unplaced⟩

theorem closed_unplaced (s : Scanner) : s.unplaced.closed = s.closed.map Token.unplaced := by
  obtain ⟨pos, mode, tokens⟩ := s
  cases mode <;> rfl

theorem closed_congr {s t : Scanner} (h : s.unplaced = t.unplaced) :
    s.closed.map Token.unplaced = t.closed.map Token.unplaced := by
  rw [← closed_unplaced, h, closed_unplaced]

theorem mode_ne_comment {s t : Scanner} (h : s.unplaced = t.unplaced) (hs : s.mode ≠ .comment) :
    t.mode ≠ .comment := by
  obtain ⟨pos, mode, tokens⟩ := s
  obtain ⟨pos', mode', tokens'⟩ := t
  intro ht
  have hmode := congrArg Scanner.mode h
  simp only at ht hs
  subst ht
  cases mode with
  | gap => cases hmode
  | comment => exact hs rfl
  | atom start read => cases hmode

theorem enter_congr {tokens others : List Token} (h : tokens.map Token.unplaced = others.map Token.unplaced)
    (pos other : Position) (c : Char) :
    unplacing unplaced (enter pos tokens c) = unplacing unplaced (enter other others c) := by
  unfold enter
  split
  · simp [unplacing, unplaced, h]
  split
  · simp [unplacing, unplaced, h]
  split
  · simp [unplacing, unplaced, h, bracket, Token.unplaced]
  split
  · simp [unplacing, unplaced, h, bracket, Token.unplaced]
  split
  · simp [unplacing, unplaced, h, ScanMode.unplaced]
  · rfl

theorem step_congr {s t : Scanner} (h : s.unplaced = t.unplaced) (c : Char) :
    unplacing unplaced (s.step c) = unplacing unplaced (t.step c) := by
  have hclosed := closed_congr h
  obtain ⟨pos, mode, tokens⟩ := s
  obtain ⟨pos', mode', tokens'⟩ := t
  have hmode : mode.unplaced = mode'.unplaced := congrArg Scanner.mode h
  have htokens : tokens.map Token.unplaced = tokens'.map Token.unplaced := congrArg Scanner.tokens h
  cases mode with
  | gap =>
    cases mode' with
    | gap => exact enter_congr htokens pos pos' c
    | comment => cases hmode
    | atom start read => cases hmode
  | comment =>
    cases mode' with
    | gap => cases hmode
    | comment => simp only [step, unplacing, unplaced, htokens]
    | atom start read => cases hmode
  | atom start read =>
    cases mode' with
    | gap => cases hmode
    | comment => cases hmode
    | atom start' read' =>
      cases hmode
      simp only [step]
      split
      · exact enter_congr hclosed pos pos' c
      · simp only [unplacing, unplaced, ScanMode.unplaced, htokens]

end Scanner

def OpenList.unplaced (o : OpenList) : OpenList := ⟨o.opener.unplaced, o.items.map Datum.unplaced⟩

namespace ReadProgress

def unplaced : ReadProgress → ReadProgress
  | done result => done (unplacing Datum.unplaced result)
  | reading lists => reading (lists.map OpenList.unplaced)

theorem deliver_unplaced (d : Datum) (lists : List OpenList) :
    deliver d.unplaced (lists.map OpenList.unplaced) = (deliver d lists).unplaced := by
  cases lists <;> rfl

theorem close_unplaced (t : Token) (lists : List OpenList) :
    close t.unplaced (lists.map OpenList.unplaced) = (close t lists).unplaced := by
  cases lists with
  | nil => rfl
  | cons o outer =>
    have hdatum : o.unplaced.toDatum = o.toDatum.unplaced := by
      rw [OpenList.toDatum, OpenList.toDatum, Datum.unplaced, List.map_reverse]
      rfl
    have hlexeme : t.unplaced.lexeme = o.unplaced.closer ↔ t.lexeme = o.closer := Iff.rfl
    rw [List.map_cons, close, close]
    by_cases h : t.lexeme = o.closer
    · rw [if_pos (hlexeme.mpr h), if_pos h, hdatum, deliver_unplaced]
    · rw [if_neg (mt hlexeme.mp h), if_neg h]
      rfl

theorem take_unplaced (lists : List OpenList) (t : Token) :
    take (lists.map OpenList.unplaced) t.unplaced = (take lists t).unplaced := by
  obtain ⟨kind, lexeme, pos⟩ := t
  cases kind with
  | eof => cases lists <;> rfl
  | opening => rfl
  | closing => exact close_unplaced ⟨.closing, lexeme, pos⟩ lists
  | integer =>
    have hdeliver := deliver_unplaced (.atom .integer lexeme pos) lists
    rw [Datum.unplaced] at hdeliver
    exact hdeliver
  | symbol =>
    have hdeliver := deliver_unplaced (.atom .symbol lexeme pos) lists
    rw [Datum.unplaced] at hdeliver
    exact hdeliver
  | other code => rfl

end ReadProgress

namespace TokenStream

/-- Where tokens and open lists differ in positions alone, so do the value that is read and the tokens
behind it. -/
theorem readInto_congr {lists others : List OpenList} {ts us : List Token}
    (hlists : lists.map OpenList.unplaced = others.map OpenList.unplaced)
    (hts : ts.map Token.unplaced = us.map Token.unplaced) (pos other : Position) :
    unplacing Datum.unplaced (readInto pos lists ts).1 =
    unplacing Datum.unplaced (readInto other others us).1 ∧
      (readInto pos lists ts).2.map Token.unplaced = (readInto other others us).2.map Token.unplaced := by
  induction ts generalizing lists others us with
  | nil =>
    cases us with
    | cons u us => cases hts
    | nil =>
      cases lists with
      | nil =>
        cases others with
        | nil => exact ⟨rfl, rfl⟩
        | cons o others => cases hlists
      | cons o lists =>
        cases others with
        | nil => cases hlists
        | cons p others =>
          have hlexeme : o.opener.lexeme = p.opener.lexeme :=
            congrArg (fun q => q.opener.lexeme) (List.cons.inj hlists).1
          refine ⟨?_, rfl⟩
          simp only [readInto, ReadError.ended, unplacing, ReadError.unplaced, hlexeme]
  | cons t ts ih =>
    cases us with
    | nil => cases hts
    | cons u us =>
      obtain ⟨htu, htail⟩ := List.cons.inj hts
      have htake : (ReadProgress.take lists t).unplaced = (ReadProgress.take others u).unplaced := by
        rw [← ReadProgress.take_unplaced, hlists, htu, ReadProgress.take_unplaced]
      rw [readInto_cons, readInto_cons]
      cases ht : ReadProgress.take lists t with
      | done result =>
        cases hu : ReadProgress.take others u with
        | done result' =>
          rw [ht, hu] at htake
          exact ⟨ReadProgress.done.inj htake, htail⟩
        | reading lists' =>
          rw [ht, hu] at htake
          cases htake
      | reading inner =>
        cases hu : ReadProgress.take others u with
        | done result' =>
          rw [ht, hu] at htake
          cases htake
        | reading inner' =>
          rw [ht, hu] at htake
          exact ih (ReadProgress.reading.inj htake) htail

end TokenStream

namespace Datum

theorem ofTokens_of_readInto {ts rest : List Token} {result : Except ReadError Datum}
    (h : TokenStream.readInto (TokenStream.ofTokens ts).endPos [] ts = (result, rest)) :
    ofTokens ts =
      match result, rest with
      | .ok d, t :: _ => if t.kind = .eof then .ok d else .error ⟨t.pos, .trailing t.lexeme⟩
      | result, _ => result := by
  have hnext : (TokenStream.ofTokens ts).next = (result, ⟨rest, (TokenStream.ofTokens ts).endPos⟩) := by
    rw [TokenStream.next]
    simp only [TokenStream.ofTokens] at h ⊢
    rw [h]
  rw [ofTokens, hnext]
  cases result with
  | error e => rfl
  | ok d => cases rest <;> rfl

theorem ofTokens_congr {ts us : List Token} (h : ts.map Token.unplaced = us.map Token.unplaced) :
    unplacing unplaced (ofTokens ts) = unplacing unplaced (ofTokens us) := by
  have hread := @TokenStream.readInto_congr [] [] ts us rfl h (TokenStream.ofTokens ts).endPos
    (TokenStream.ofTokens us).endPos
  cases hts : TokenStream.readInto (TokenStream.ofTokens ts).endPos [] ts with
  | mk r rest =>
    cases hus : TokenStream.readInto (TokenStream.ofTokens us).endPos [] us with
    | mk q behind =>
      rw [hts, hus] at hread
      obtain ⟨hresult, hrest⟩ := hread
      rw [ofTokens_of_readInto hts, ofTokens_of_readInto hus]
      cases q with
      | error e =>
        obtain ⟨e', rfl, he⟩ := unplacing_eq_error hresult
        exact congrArg Except.error he
      | ok d =>
        obtain ⟨d', rfl, hd⟩ := unplacing_eq_ok hresult
        cases behind with
        | nil =>
          obtain rfl := List.map_eq_nil_iff.mp hrest
          exact congrArg Except.ok hd
        | cons u behind =>
          obtain ⟨t, tail, rfl, htu, -⟩ := List.map_eq_cons_iff.mp hrest
          obtain ⟨hkind, hlexeme, -⟩ := Token.mk.inj htu
          simp only [hkind, hlexeme]
          split
          · exact congrArg Except.ok hd
          · rfl

theorem read_congr {source other : Text}
    (h : unplacing (List.map Token.unplaced) (Token.scan source) =
      unplacing (List.map Token.unplaced) (Token.scan other)) :
    unplacing unplaced (read source) = unplacing unplaced (read other) := by
  cases hother : Token.scan other with
  | error e =>
    rw [hother] at h
    obtain ⟨e', hsource, he⟩ := unplacing_eq_error h
    simp only [read, hsource, hother, unplacing, he]
  | ok us =>
    rw [hother] at h
    obtain ⟨ts, hsource, hts⟩ := unplacing_eq_ok h
    rw [read_of_scan hsource, read_of_scan hother]
    exact ofTokens_congr hts

end Datum

namespace Expr

theorem Builds.of_unplaced {d : Datum} {r : Except FormError Expr} (h : Builds d r) {e : Expr}
    (hr : r = .ok e) {other : Datum} (hd : other.unplaced = d.unplaced) : Builds other (.ok e) := by
  induction h generalizing e other with
  | literal pos hn =>
    cases hr
    rw [Datum.unplaced] at hd
    obtain ⟨pos', rfl⟩ := Datum.eq_atom_of_unplaced hd
    exact .literal pos' hn
  | @apply operand r op namePos pos _ ih =>
    cases r with
    | error e' => cases hr
    | ok inner =>
      cases hr
      rw [Datum.unplaced, List.map_cons, List.map_singleton] at hd
      obtain ⟨parts, pos', rfl, hparts⟩ := Datum.eq_list_of_unplaced hd
      simp only [List.map_eq_cons_iff, List.map_eq_nil_iff] at hparts
      obtain ⟨head, _, rfl, hhead, operand', _, rfl, hoperand, rfl⟩ := hparts
      rw [Datum.unplaced] at hhead
      obtain ⟨namePos', rfl⟩ := Datum.eq_atom_of_unplaced hhead
      exact .apply op namePos' pos' (ih rfl hoperand)
  | missing => cases hr
  | range => cases hr
  | overlong => cases hr
  | malformed => cases hr
  | notInteger => cases hr
  | length => cases hr
  | notSymbol => cases hr
  | unknown => cases hr

theorem parse_congr {source other : Text} {e : Expr}
    (h : unplacing Datum.unplaced (Datum.read other) = unplacing Datum.unplaced (Datum.read source))
    (hsource : parse source = .ok e) : parse other = .ok e := by
  cases hread : Datum.read source with
  | error fault =>
    rw [parse, hread] at hsource
    cases hsource
  | ok d =>
    rw [hread] at h
    obtain ⟨d', hother, hd⟩ := unplacing_eq_ok h
    cases hbuild : ofDatum d with
    | error fault =>
      simp only [parse, hread, hbuild] at hsource
      cases hsource
    | ok built =>
      simp only [parse, hread, hbuild] at hsource
      cases hsource
      have hbuilds := (ofDatum_eq_iff.mp hbuild).of_unplaced rfl hd
      simp only [parse, hother, ofDatum_eq_iff.mpr hbuilds]

end Expr

theorem compile_congr {source other : Text}
    (h : unplacing Datum.unplaced (Datum.read other) = unplacing Datum.unplaced (Datum.read source))
    {code : Listing} (hsource : compile source = .ok code) : compile other = .ok code := by
  rw [compile] at hsource ⊢
  cases hparse : Expr.parse source with
  | error fault =>
    rw [hparse] at hsource
    cases hsource
  | ok e =>
    rw [hparse] at hsource
    rw [Expr.parse_congr h hparse]
    exact hsource

end StepLang
