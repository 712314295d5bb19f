import StepLang.Proofs.Building
import StepLang.Proofs.NormalForm

/-!
# Integer literals are exact

The scanner takes for an integer just what the reading of numbers takes for one, a sign and digits. So a
literal that was read from a source is the number that it spells or is out of range, and it is never
malformed.
-/

namespace StepLang

namespace Datum

theorem Numeric.denotes {cs : List Char} (h : Numeric cs) : ∃ z, Literal.Denotes (.ofChars cs) z := by
  obtain ⟨sign, digits, rfl, hsign, hne, hdigits⟩ := h
  exact ⟨_, .digits hsign hne hdigits⟩

theorem numeric_of_denotes {w : Text} {z : Int} (h : Literal.Denotes w z) :
    ∃ cs, w = .ofChars cs ∧ Numeric cs := by
  cases h with
  | @digits sign digits hsign hne hdigits => exact ⟨_, rfl, sign, digits, rfl, hsign, hne, hdigits⟩

theorem Readable.denotes {w : Text} {pos : Position} (h : (Datum.atom .integer w pos).Readable) :
    ∃ z, Literal.Denotes w z := by
  cases h with
  | atom _ _ hkind =>
    rcases hkind with ⟨-, hnumeric⟩ | ⟨hsymbol, -⟩
    · exact hnumeric.denotes
    · cases hsymbol

end Datum

namespace Token

/-- The text is that of an integer token in some source. -/
def IntegerLexeme (w : Text) : Prop :=
  ∃ source ts t, scan source = .ok ts ∧ t ∈ ts ∧ t.kind = .integer ∧ t.lexeme = w

theorem scan_atom {cs : List Char} (h : Atomic cs) :
    ∃ pos, scan (.ofChars cs) = .ok [Scanner.atomToken .start cs, ⟨.eof, [], pos⟩] := by
  obtain ⟨last, hyields⟩ := Scanner.yields_atom h .start []
  have hclosed : last.closed = [Scanner.atomToken .start cs] := hyields.closed
  have hrun := hyields.passes.run_eq
  rw [Scanner.finish, hclosed] at hrun
  exact ⟨last.pos, hrun⟩

theorem Formed.denotes {t : Token} (h : t.Formed) (hkind : t.kind = .integer) :
    ∃ z, Literal.Denotes t.lexeme z := by
  cases h with
  | opening _ pos => cases hkind
  | closing _ pos => cases hkind
  | @atom cs _ pos =>
    have hinteger : Scanner.isInteger cs = true := by
      apply Classical.byContradiction
      intro hsymbol
      rw [Scanner.atomToken, if_neg hsymbol] at hkind
      cases hkind
    exact (Scanner.isInteger_iff.mp hinteger).denotes

theorem integerLexeme_iff {w : Text} : IntegerLexeme w ↔ ∃ z, Literal.Denotes w z := by
  constructor
  · intro ⟨source, ts, t, hscan, ht, hkind, hlexeme⟩
    obtain ⟨body, pos, rfl, hbody⟩ := scan_formed hscan
    rcases List.mem_append.mp ht with ht | ht
    · rw [← hlexeme]
      exact (hbody t ht).denotes hkind
    · rw [List.mem_singleton.mp ht] at hkind
      cases hkind
  · intro ⟨z, hz⟩
    obtain ⟨cs, rfl, hnumeric⟩ := Datum.numeric_of_denotes hz
    obtain ⟨pos, hscan⟩ := scan_atom (Datum.atomic_of_numeric hnumeric)
    refine ⟨_, _, Scanner.atomToken .start cs, hscan, List.mem_cons_self, ?_, rfl⟩
    exact if_pos (Scanner.isInteger_iff.mpr hnumeric)

end Token

namespace Expr

theorem ofDatum_of_denotes {w : Text} {z : Int} (h : Literal.Denotes w z) (hlo : -0x80000000 ≤ z)
    (hhi : z ≤ 0x7FFFFFFF) (pos : Position) :
    ∃ n : Int32, n.toInt = z ∧ ofDatum (.atom .integer w pos) = .ok (num n) := by
  have hvalue : (Int32.ofInt z).toInt = z := by
    apply Int32.toInt_ofInt_of_le
    · exact hlo
    · exact Int.lt_of_le_of_lt hhi (by decide)
  rw [← hvalue] at h
  exact ⟨_, hvalue, ofDatum_eq_iff.mpr (.literal pos h)⟩

/-- Among the data that can be read from a source no literal is malformed, however deep it stands. -/
theorem Builds.ne_malformed {d : Datum} {r : Except FormError Expr} (h : Builds d r) (hd : d.Readable)
    (pos : Position) (form : Text) : r ≠ .error (.shape pos form .malformedInteger) := by
  intro hr
  induction h with
  | malformed _ _ hnone =>
    obtain ⟨z, hz⟩ := hd.denotes
    exact hnone z hz
  | @apply operand r op namePos listPos _ ih =>
    cases hd with
    | list _ hitems =>
      cases r with
      | ok e => cases hr
      | error e =>
        cases hr
        exact ih (hitems operand (by simp)) rfl
  | _ => cases hr

theorem parse_ne_malformed (source : Text) (pos : Position) (form : Text) :
    parse source ≠ .error (.form (.shape pos form .malformedInteger)) := by
  intro h
  unfold parse at h
  cases hread : Datum.read source with
  | error e =>
    rw [hread] at h
    cases h
  | ok d =>
    cases hbuild : ofDatum d with
    | ok e =>
      simp only [hread, hbuild] at h
      cases h
    | error e =>
      simp only [hread, hbuild] at h
      cases h
      exact (ofDatum_eq_iff.mp hbuild).ne_malformed (Datum.readable_of_read hread) pos form rfl

theorem parse_of_compile_error {source : Text} {e : SourceError} (h : StepLang.compile source = .error e) :
    parse source = .error e := by
  unfold StepLang.compile at h
  cases hparse : parse source with
  | error fault =>
    rw [hparse] at h
    cases h
    rfl
  | ok expr =>
    obtain ⟨n, hn⟩ := literal?_parse hparse
    simp only [hparse, Expr.compile, code_eq hn] at h
    cases h

/-- The scanner gives as integers the texts of an optional sign and digits, and the literal of such a text
is the number that it spells, if that has 32 bits, and otherwise out of range, as it is written and where it
stands. So no source has a malformed literal. -/
theorem ofDatum_integer_exact :
    (∀ w, Token.IntegerLexeme w ↔ ∃ z, Literal.Denotes w z) ∧
    (∀ w z pos, Literal.Denotes w z →
      (-0x80000000 ≤ z ∧ z ≤ 0x7FFFFFFF →
        ∃ n : Int32, n.toInt = z ∧ ofDatum (.atom .integer w pos) = .ok (num n)) ∧
      (¬ (-0x80000000 ≤ z ∧ z ≤ 0x7FFFFFFF) → ofDatum (.atom .integer w pos) = .error (.range pos w))) ∧
    ∀ source pos form, parse source ≠ .error (.form (.shape pos form .malformedInteger)) ∧
      StepLang.compile source ≠ .error (.form (.shape pos form .malformedInteger)) := by
  refine ⟨fun w => Token.integerLexeme_iff, ?_, ?_⟩
  · intro w z pos hz
    constructor
    · intro ⟨hlo, hhi⟩
      exact ofDatum_of_denotes hz hlo hhi pos
    · intro hout
      exact ofDatum_eq_iff.mpr (.range pos hz (by omega))
  · intro source pos form
    have hparse := parse_ne_malformed source pos form
    exact ⟨hparse, fun h => hparse (parse_of_compile_error h)⟩

/-- The least number behind zeros, and a number that has 32 bits only without its sign. -/
theorem ofDatum_integer_exact_limits :
    (∃ n : Int32, n.toInt = -0x80000000 ∧
      ofDatum (.atom .integer "-0002147483648" ⟨2, 7⟩) = .ok (num n)) ∧
    Token.IntegerLexeme "+4294967295" ∧
      ofDatum (.atom .integer "+4294967295" ⟨2, 7⟩) = .error (.range ⟨2, 7⟩ "+4294967295") := by
  obtain ⟨hlexeme, hexact, -⟩ := ofDatum_integer_exact
  have hleast : Literal.Denotes "-0002147483648" (-0x80000000) :=
    @Literal.Denotes.digits ['-'] "0002147483648".toList (.inr (.inr rfl)) (by decide)
    (List.all_eq_true.mp rfl)
  have hwide : Literal.Denotes "+4294967295" 0xFFFFFFFF :=
    @Literal.Denotes.digits ['+'] "4294967295".toList (.inr (.inl rfl)) (by decide) (List.all_eq_true.mp rfl)
  refine ⟨(hexact _ _ ⟨2, 7⟩ hleast).1 (by decide), (hlexeme _).mpr ⟨_, hwide⟩, ?_⟩
  exact (hexact _ _ ⟨2, 7⟩ hwide).2 (by decide)

end Expr

end StepLang
