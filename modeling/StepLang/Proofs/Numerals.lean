import StepLang.Text.Literal
import StepLang.Text.Numeral

/-!
# Reading numbers that were written

Digits are read back to the number that they spell as long as it is within the limit. What an integer is
written as has no leading zero, so reading with base markers takes it for decimal too, and gives the integer
back. Reading without markers accepts every text of a sign and digits whose integer is in range, and tells
texts that are too large from those that are no integers.
-/

namespace StepLang

namespace Numeral

theorem digitsOnto_eq {base : Nat} (hbase : 1 < base) (n : Nat) (low : List Char) :
    digitsOnto base n low = Nat.toDigits base n ++ low := by
  fun_induction digitsOnto base n low with
  | case1 n low h => rw [Nat.toDigits_of_lt_base (by omega), List.singleton_append]
  | case2 n low h ih =>
    have hle : base ≤ n := by omega
    rw [ih, Nat.toDigits_of_base_le hbase hle, List.append_assoc, List.singleton_append]

theorem digits_eq {base : Nat} (hbase : 1 < base) (n : Nat) : digits base n = Nat.toDigits base n := by
  rw [digits, digitsOnto_eq hbase, List.append_nil]

theorem nat_eq (n : Nat) : nat n = Text.ofChars (Nat.toDigits 10 n) := by rw [nat, digits_eq (by decide)]

theorem nat_of_lt_ten {n : Nat} (h : n < 10) : nat n = [.char n.digitChar] := by
  rw [nat_eq, Nat.toDigits_of_lt_base h]
  rfl

theorem mem_nat {n : Nat} {g : Glyph} (h : g ∈ nat n) : ∃ c : Char, g = .char c ∧ c.isDigit = true := by
  rw [nat_eq] at h
  obtain ⟨c, hc, rfl⟩ := List.mem_map.mp h
  exact ⟨c, rfl, Nat.isDigit_of_mem_toDigits (by decide) (by decide) hc⟩

theorem exists_digitChar {c : Char} (h : c.isDigit = true) : ∃ d : Fin 10, c = Nat.digitChar d := by
  obtain ⟨hlo, hhi⟩ := Char.isDigit_iff_toNat.mp h
  change 48 ≤ c.toNat at hlo
  change c.toNat ≤ 57 at hhi
  refine ⟨⟨c.toNat - 48, by omega⟩, Char.toNat_inj.mp ?_⟩
  rw [Nat.toNat_digitChar_of_lt_ten (show c.toNat - 48 < 10 by omega)]
  omega

theorem toDigits_head {n : Nat} (h : 0 < n) : ∃ c cs, Nat.toDigits 10 n = c :: cs ∧ c ≠ '0' := by
  induction n using Nat.strongRecOn with
  | ind n ih =>
    by_cases hn : n < 10
    · refine ⟨n.digitChar, [], Nat.toDigits_of_lt_base hn, ?_⟩
      rw [ne_eq, Nat.digitChar_eq_zero]
      omega
    · obtain ⟨c, cs, hcs, hc⟩ := ih (n / 10) (by omega) (by omega)
      refine ⟨c, cs ++ [(n % 10).digitChar], ?_, hc⟩
      rw [Nat.toDigits_of_base_le (by decide) (by omega), hcs]
      rfl

theorem nat_head {n : Nat} (h : 0 < n) : ∃ c rest, nat n = .char c :: rest ∧ c.isDigit = true ∧ c ≠ '0' := by
  obtain ⟨c, cs, hcs, hc⟩ := toDigits_head h
  refine ⟨c, Text.ofChars cs, by rw [nat_eq, hcs]; rfl, ?_, hc⟩
  exact Nat.isDigit_of_mem_toDigits (by decide) (by decide) (hcs ▸ List.mem_cons_self)

theorem nat_ne_nil (n : Nat) : nat n ≠ [] := by
  rw [nat_eq, Text.ofChars, ne_eq, List.map_eq_nil_iff]
  exact Nat.toDigits_ne_nil

theorem int_ne_nil (z : Int) : int z ≠ [] := by
  rw [int]
  split
  · exact List.cons_ne_nil _ _
  · exact nat_ne_nil _

theorem mem_int {z : Int} {g : Glyph} (h : g ∈ int z) :
    g = .char '-' ∨ ∃ d : Fin 10, g = .char (Nat.digitChar d) := by
  have hnat : ∀ n, g ∈ nat n → ∃ d : Fin 10, g = .char (Nat.digitChar d) := by
    intro n hn
    obtain ⟨c, rfl, hc⟩ := mem_nat hn
    obtain ⟨d, rfl⟩ := exists_digitChar hc
    exact ⟨d, rfl⟩
  rw [int] at h
  split at h
  · exact (List.mem_cons.mp h).imp id (hnat _)
  · exact .inr (hnat _ h)

end Numeral

namespace Literal

theorem digit?_of_isDigit {c : Char} (h : c.isDigit = true) :
    digit? (.char c) = some (c.toNat - '0'.toNat) := by
  have hrange : '0' ≤ c ∧ c ≤ '9' := by
    simpa [Char.isDigit, Char.le_def, and_comm] using h
  rw [digit?, if_pos hrange]

theorem digit_lt_ten {c : Char} (h : c.isDigit = true) : c.toNat - '0'.toNat < 10 := by
  have hrange := Char.isDigit_iff_toNat.mp h
  have hnine : '9'.toNat = '0'.toNat + 9 := rfl
  omega

theorem ne_separator {c : Char} (h : c.isDigit = true) : Glyph.char c ≠ separator := by
  intro hc
  cases hc
  exact absurd h (by decide)

theorem le_ofDigitChars (cs : List Char) (n : Nat) : n ≤ Nat.ofDigitChars 10 cs n := by
  rw [Nat.ofDigitChars_eq_ofDigitChars_zero]
  have hpos : 0 < 10 ^ cs.length := Nat.pow_pos (by decide)
  have hle := Nat.le_mul_of_pos_left n hpos
  omega

theorem magnitude_cons {c : Char} (hc : c.isDigit = true) (limit n : Nat) (separators : Bool) (t : Text) :
    magnitude 10 limit separators n (.char c :: t) =
      if limit < 10 * n + (c.toNat - '0'.toNat) then .error .outOfRange
      else magnitude 10 limit separators (10 * n + (c.toNat - '0'.toNat)) t := by
  have hlt := digit_lt_ten hc
  rw [magnitude, if_neg (by simp [ne_separator hc])]
  simp only [digit?_of_isDigit hc]
  rw [if_neg (by omega), Nat.mul_comm n 10]

/-- Digits have the value that they spell, and the limit is missed by no digits in between. -/
theorem magnitude_digits {limit n : Nat} {separators : Bool} {cs : List Char}
    (hcs : ∀ c ∈ cs, c.isDigit = true) (hn : n ≤ limit) :
    magnitude 10 limit separators n (Text.ofChars cs) =
      if Nat.ofDigitChars 10 cs n ≤ limit then .ok (Nat.ofDigitChars 10 cs n) else .error .outOfRange := by
  induction cs generalizing n with
  | nil => rw [Nat.ofDigitChars_nil, if_pos hn]; rfl
  | cons c cs ih =>
    obtain ⟨hc, hrest⟩ := List.forall_mem_cons.mp hcs
    have hle := le_ofDigitChars cs (10 * n + (c.toNat - '0'.toNat))
    rw [Text.ofChars, List.map_cons, magnitude_cons hc, Nat.ofDigitChars_cons]
    by_cases hlimit : limit < 10 * n + (c.toNat - '0'.toNat)
    · rw [if_pos hlimit, if_neg (by omega)]
    · rw [if_neg hlimit]
      exact ih hrest (by omega)

theorem magnitude_nat {limit n : Nat} (separators : Bool) (h : n ≤ limit) :
    magnitude 10 limit separators 0 (Numeral.nat n) = .ok n := by
  have hdigits : ∀ c ∈ Nat.toDigits 10 n, c.isDigit = true :=
    fun c hc => Nat.isDigit_of_mem_toDigits (by decide) (by decide) hc
  rw [Numeral.nat_eq, magnitude_digits hdigits (Nat.zero_le _), Nat.ofDigitChars_ten_toDigits, if_pos h]

theorem separator_notMem_nat (n : Nat) : separator ∉ Numeral.nat n := by
  intro h
  obtain ⟨c, hc, hdigit⟩ := Numeral.mem_nat h
  exact ne_separator hdigit hc.symm

theorem markedMagnitude_nat {bits n : Nat} (h : n ≤ largest bits) :
    markedMagnitude bits (Numeral.nat n) = .ok n := by
  rcases Nat.eq_zero_or_pos n with rfl | hpos
  · rw [Numeral.nat_of_lt_ten (by decide)]
    rfl
  · obtain ⟨c, rest, htext, -, hc⟩ := Numeral.nat_head hpos
    have hmarked : Marked.ofText (Numeral.nat n) = ⟨10, Numeral.nat n, false⟩ := by
      rw [htext]
      unfold Marked.ofText
      split <;> simp_all
    rw [markedMagnitude, if_neg (by simp [htext])]
    simp only [hmarked, magnitude_nat true h]
    rw [if_neg (by simp [separator_notMem_nat])]

/-- The integer is one of a signed word of that many bits. -/
def InRange (bits : Nat) (z : Int) : Prop := -(signedLimit bits : Int) ≤ z ∧ z < signedLimit bits

instance (bits : Nat) : DecidablePred (InRange bits) := fun z =>
  inferInstanceAs (Decidable (-(signedLimit bits : Int) ≤ z ∧ z < signedLimit bits))

/-- The integer of a sign and a magnitude. -/
def value (sign : List Char) (n : Nat) : Int := if sign = ['-'] then -(n : Int) else n

/-- The result of reading a sign and then a magnitude. -/
def settle (bits : Nat) (sign : List Char) : Except LiteralFault Nat → Except LiteralFault Int
  | .error e => .error e
  | .ok n => if InRange bits (value sign n) then .ok (value sign n) else .error .outOfRange

theorem settle_eq_ok_iff {bits : Nat} {sign : List Char} {r : Except LiteralFault Nat} {z : Int} :
    settle bits sign r = .ok z ↔ ∃ n, r = .ok n ∧ z = value sign n ∧ InRange bits z := by
  cases r with
  | error e => simp [settle]
  | ok n => grind [settle]

theorem settle_eq_outOfRange_iff {bits : Nat} {sign : List Char} {r : Except LiteralFault Nat} :
    settle bits sign r = .error .outOfRange ↔
      r = .error .outOfRange ∨ ∃ n, r = .ok n ∧ ¬ InRange bits (value sign n) := by
  cases r with
  | error e => simp [settle]
  | ok n => grind [settle]

theorem signed_plus (bits : Nat) (read : Text → Except LiteralFault Nat) (rest : Text) :
    signed bits read (.char '+' :: rest) = settle bits ['+'] (read rest) := by
  have hvalue : ∀ n, value ['+'] n = n := fun n => if_neg (by decide)
  rw [signed]
  cases read rest with
  | error e => rfl
  | ok n =>
    simp only [settle, hvalue, InRange, Bool.false_eq_true, if_false]
    by_cases hn : signedLimit bits ≤ n
    · rw [if_pos hn, if_neg (by omega)]
    · rw [if_neg hn, if_pos (by omega)]

theorem signed_minus (bits : Nat) (read : Text → Except LiteralFault Nat) (rest : Text) :
    signed bits read (.char '-' :: rest) = settle bits ['-'] (read rest) := by
  have hpos : 0 < signedLimit bits := Nat.pow_pos (by decide)
  have hvalue : ∀ n, value ['-'] n = -(n : Int) := fun n => if_pos rfl
  rw [signed]
  cases read rest with
  | error e => rfl
  | ok n =>
    simp only [settle, hvalue, InRange, if_true]
    by_cases hn : signedLimit bits < n
    · rw [if_pos hn, if_neg (by omega)]
    · rw [if_neg hn, if_pos (by omega)]

theorem signed_bare {bits : Nat} {read : Text → Except LiteralFault Nat} {t : Text}
    (hplus : ∀ rest, t ≠ .char '+' :: rest) (hminus : ∀ rest, t ≠ .char '-' :: rest) :
    signed bits read t = settle bits [] (read t) := by
  have hlike : settle bits [] (read t) = settle bits ['+'] (read t) := rfl
  rw [hlike, ← signed_plus, signed, signed]
  · exact hplus
  · exact hminus

theorem signed_int {bits : Nat} {read : Text → Except LiteralFault Nat} {z : Int}
    (hread : read (Numeral.nat z.natAbs) = .ok z.natAbs) (hlo : -(signedLimit bits : Int) ≤ z)
    (hhi : z < signedLimit bits) : signed bits read (Numeral.int z) = .ok z := by
  by_cases hz : z < 0
  · have hint : Numeral.int z = .char '-' :: Numeral.nat z.natAbs := by rw [Numeral.int, if_pos hz]
    have hvalue : z = value ['-'] z.natAbs := by
      rw [value, if_pos rfl]
      omega
    rw [hint, signed_minus, settle_eq_ok_iff]
    exact ⟨_, hread, hvalue, hlo, hhi⟩
  · have hint : Numeral.int z = Numeral.nat z.natAbs := by rw [Numeral.int, if_neg hz]
    have hvalue : z = value [] z.natAbs := by
      rw [value, if_neg (by simp)]
      omega
    have hsign : ∀ c : Char, c.isDigit = false → ∀ rest, Numeral.nat z.natAbs ≠ .char c :: rest := by
      intro c hc rest h
      obtain ⟨d, hd, hdigit⟩ := Numeral.mem_nat (h ▸ List.mem_cons_self)
      cases hd
      simp [hc] at hdigit
    rw [hint, signed_bare (hsign '+' (by decide)) (hsign '-' (by decide)), settle_eq_ok_iff]
    exact ⟨_, hread, hvalue, hlo, hhi⟩

/-- A sign is what may stand before the digits, and nothing is one too. -/
def IsSign (sign : List Char) : Prop := sign = [] ∨ sign = ['+'] ∨ sign = ['-']

theorem signed_eq (bits : Nat) (read : Text → Except LiteralFault Nat) (t : Text) :
    ∃ sign rest, IsSign sign ∧ t = .ofChars sign ++ rest ∧
    signed bits read t = settle bits sign (read rest) := by
  by_cases hplus : ∃ rest, t = .char '+' :: rest
  · obtain ⟨rest, rfl⟩ := hplus
    exact ⟨['+'], rest, .inr (.inl rfl), rfl, signed_plus bits read rest⟩
  by_cases hminus : ∃ rest, t = .char '-' :: rest
  · obtain ⟨rest, rfl⟩ := hminus
    exact ⟨['-'], rest, .inr (.inr rfl), rfl, signed_minus bits read rest⟩
  exact ⟨[], t, .inl rfl, rfl, signed_bare (not_exists.mp hplus) (not_exists.mp hminus)⟩

theorem signed_append {sign : List Char} (hsign : IsSign sign) (bits : Nat)
    (read : Text → Except LiteralFault Nat) {c : Char} (hc : c.isDigit = true) (rest : Text) :
    signed bits read (.ofChars sign ++ .char c :: rest) = settle bits sign (read (.char c :: rest)) := by
  rcases hsign with rfl | rfl | rfl
  · apply signed_bare
    · intro more h
      cases h
      cases hc
    · intro more h
      cases h
      cases hc
  · exact signed_plus bits read _
  · exact signed_minus bits read _

theorem signed_range {bits : Nat} {read : Text → Except LiteralFault Nat} {t : Text} {z : Int}
    (h : signed bits read t = .ok z) : InRange bits z := by
  obtain ⟨sign, rest, -, -, hsigned⟩ := signed_eq bits read t
  rw [hsigned] at h
  obtain ⟨-, -, -, hrange⟩ := settle_eq_ok_iff.mp h
  exact hrange

theorem signedLimit_le_largest {bits : Nat} (h : 0 < bits) : signedLimit bits ≤ largest bits := by
  obtain ⟨b, rfl⟩ := Nat.exists_eq_add_one.mpr h
  have hpos : 0 < 2 ^ b := Nat.pow_pos (by decide)
  have hpow : 2 ^ (b + 1) = 2 ^ b * 2 := Nat.pow_succ 2 b
  change 2 ^ (b + 1 - 1) ≤ 2 ^ (b + 1) - 1
  rw [Nat.add_sub_cancel]
  omega

theorem marked?_int {bits : Nat} {z : Int} (hbits : 0 < bits) (hlo : -(signedLimit bits : Int) ≤ z)
    (hhi : z < signedLimit bits) : marked? bits (Numeral.int z) = .ok z := by
  have hlimit := signedLimit_le_largest hbits
  exact signed_int (markedMagnitude_nat (by omega)) hlo hhi

theorem decimal?_int {bits : Nat} {z : Int} (hbits : 0 < bits) (hlo : -(signedLimit bits : Int) ≤ z)
    (hhi : z < signedLimit bits) : decimal? bits (Numeral.int z) = .ok z := by
  have hlimit := signedLimit_le_largest hbits
  refine signed_int ?_ hlo hhi
  rw [decimalMagnitude, if_neg (Numeral.nat_ne_nil _)]
  exact magnitude_nat false (by omega)

theorem isDigit_of_digit? {g : Glyph} {d : Nat} (h : digit? g = some d) (hd : d < 10) :
    ∃ c : Char, g = .char c ∧ c.isDigit = true := by
  cases g with
  | stray b => cases h
  | char c =>
    refine ⟨c, rfl, ?_⟩
    simp only [digit?] at h
    split at h
    · rename_i hrange
      simpa [Char.isDigit, Char.le_def, and_comm] using hrange
    split at h
    · rw [← Option.some.inj h] at hd
      omega
    split at h
    · rw [← Option.some.inj h] at hd
      omega
    · cases h

theorem magnitude_malformed {g : Glyph} (hg : ¬ ∃ c : Char, g = .char c ∧ c.isDigit = true) (limit n : Nat)
    (t : Text) :
    magnitude 10 limit false n (g :: t) = .error .malformed := by
  rw [magnitude, Bool.false_and, if_neg Bool.false_ne_true]
  cases hdigit : digit? g with
  | none => rfl
  | some d =>
    by_cases hd : 10 ≤ d
    · exact if_pos hd
    · exact absurd (isDigit_of_digit? hdigit (by omega)) hg

theorem digits_of_magnitude {limit n m : Nat} {t : Text} (h : magnitude 10 limit false n t = .ok m) :
    ∃ cs, t = .ofChars cs ∧ ∀ c ∈ cs, c.isDigit = true := by
  induction t generalizing n with
  | nil => exact ⟨[], rfl, by simp⟩
  | cons g t ih =>
    by_cases hg : ∃ c : Char, g = .char c ∧ c.isDigit = true
    · obtain ⟨c, rfl, hc⟩ := hg
      rw [magnitude_cons hc] at h
      split at h
      · cases h
      obtain ⟨cs, rfl, hcs⟩ := ih h
      exact ⟨c :: cs, rfl, List.forall_mem_cons.mpr ⟨hc, hcs⟩⟩
    · rw [magnitude_malformed hg] at h
      cases h

/-- As soon as the digits so far pass the limit the number is too large, whatever follows. -/
theorem magnitude_eq_outOfRange_iff {limit n : Nat} {t : Text} (hn : n ≤ limit) :
    magnitude 10 limit false n t = .error .outOfRange ↔ ∃ digits rest, t = .ofChars digits ++ rest ∧
      (∀ c ∈ digits, c.isDigit = true) ∧ limit < Nat.ofDigitChars 10 digits n := by
  constructor
  · intro h
    induction t generalizing n with
    | nil => cases h
    | cons g t ih =>
      by_cases hg : ∃ c : Char, g = .char c ∧ c.isDigit = true
      · obtain ⟨c, rfl, hc⟩ := hg
        rw [magnitude_cons hc] at h
        split at h
        · rename_i hlimit
          exact ⟨[c], t, rfl, List.forall_mem_singleton.mpr hc, by rwa [Nat.ofDigitChars_cons]⟩
        · rename_i hlimit
          obtain ⟨digits, rest, rfl, hdigits, hvalue⟩ := ih (by omega) h
          exact ⟨c :: digits, rest, rfl,
            List.forall_mem_cons.mpr ⟨hc, hdigits⟩, by rwa [Nat.ofDigitChars_cons]⟩
      · rw [magnitude_malformed hg] at h
        cases h
  · rintro ⟨digits, rest, rfl, hdigits, hvalue⟩
    induction digits generalizing n with
    | nil =>
      rw [Nat.ofDigitChars_nil] at hvalue
      omega
    | cons c digits ih =>
      obtain ⟨hc, hrest⟩ := List.forall_mem_cons.mp hdigits
      rw [Nat.ofDigitChars_cons] at hvalue
      rw [Text.ofChars, List.map_cons, List.cons_append, magnitude_cons hc]
      split
      · rfl
      · exact ih (by omega) hrest hvalue

theorem decimalMagnitude_eq_ok_iff {bits n : Nat} {t : Text} :
    decimalMagnitude bits t = .ok n ↔ ∃ digits, t = .ofChars digits ∧ digits ≠ [] ∧
      (∀ c ∈ digits, c.isDigit = true) ∧ n = Nat.ofDigitChars 10 digits 0 ∧ n ≤ largest bits := by
  constructor
  · intro h
    unfold decimalMagnitude at h
    split at h
    · cases h
    rename_i hne
    obtain ⟨digits, rfl, hdigits⟩ := digits_of_magnitude h
    rw [magnitude_digits hdigits (Nat.zero_le _)] at h
    split at h
    · rename_i hle
      cases h
      refine ⟨digits, rfl, ?_, hdigits, rfl, hle⟩
      intro hnil
      exact hne (by rw [hnil]; rfl)
    · cases h
  · intro ⟨digits, ht, hne, hdigits, hn, hle⟩
    subst ht hn
    rw [decimalMagnitude, if_neg (by simpa [Text.ofChars] using hne),
      magnitude_digits hdigits (Nat.zero_le _), if_pos hle]

theorem decimalMagnitude_eq_outOfRange_iff {bits : Nat} {t : Text} :
    decimalMagnitude bits t = .error .outOfRange ↔ ∃ digits rest, t = .ofChars digits ++ rest ∧
      (∀ c ∈ digits, c.isDigit = true) ∧ largest bits < Nat.ofDigitChars 10 digits 0 := by
  rw [← magnitude_eq_outOfRange_iff (Nat.zero_le _), decimalMagnitude]
  split
  · rename_i hnil
    subst hnil
    simp [magnitude]
  · rfl

/-- The text is an optional sign and one or more decimal digits, and the integer is what they spell. -/
inductive Denotes : Text → Int → Prop where
  | digits {sign digits : List Char} (hsign : IsSign sign) (hne : digits ≠ [])
      (hdigits : ∀ c ∈ digits, c.isDigit = true) :
      Denotes (.ofChars (sign ++ digits)) (value sign (Nat.ofDigitChars 10 digits 0))

/-- Behind an optional sign the text begins with digits that spell a number above the limit. -/
def Overlong (limit : Nat) (t : Text) : Prop :=
  ∃ sign digits rest, IsSign sign ∧ t = .ofChars (sign ++ digits) ++ rest ∧ (∀ c ∈ digits, c.isDigit = true) ∧
    limit < Nat.ofDigitChars 10 digits 0

theorem decimal?_append {sign digits : List Char} (hsign : IsSign sign) (hne : digits ≠ [])
    (hdigits : ∀ c ∈ digits, c.isDigit = true) (bits : Nat) (rest : Text) :
    decimal? bits (.ofChars (sign ++ digits) ++ rest) =
      settle bits sign (decimalMagnitude bits (.ofChars digits ++ rest)) := by
  obtain ⟨c, more, rfl⟩ := List.exists_cons_of_ne_nil hne
  rw [Text.ofChars, List.map_append, List.append_assoc]
  exact signed_append hsign bits _ (hdigits c List.mem_cons_self) _

theorem decimal?_digits {sign digits : List Char} (hsign : IsSign sign) (hne : digits ≠ [])
    (hdigits : ∀ c ∈ digits, c.isDigit = true) (bits : Nat) :
    decimal? bits (.ofChars (sign ++ digits)) =
      settle bits sign (if Nat.ofDigitChars 10 digits 0 ≤ largest bits then .ok (Nat.ofDigitChars 10 digits 0)
        else .error .outOfRange) := by
  have happend := decimal?_append hsign hne hdigits bits []
  rw [List.append_nil, List.append_nil, decimalMagnitude, if_neg (by simpa [Text.ofChars] using hne),
    magnitude_digits hdigits (Nat.zero_le _)] at happend
  exact happend

theorem le_largest_of_inRange {bits n : Nat} (hbits : 0 < bits) {sign : List Char}
    (h : InRange bits (value sign n)) :
    n ≤ largest bits := by
  have hlimit := signedLimit_le_largest hbits
  unfold InRange value at h
  split at h <;> omega

theorem decimal?_eq_ok_iff {bits : Nat} (hbits : 0 < bits) {t : Text} {z : Int} :
    decimal? bits t = .ok z ↔ Denotes t z ∧ InRange bits z := by
  constructor
  · intro h
    obtain ⟨sign, rest, hsign, rfl, hsigned⟩ := signed_eq bits (decimalMagnitude bits) t
    rw [decimal?, hsigned] at h
    obtain ⟨n, hread, rfl, hrange⟩ := settle_eq_ok_iff.mp h
    obtain ⟨digits, rfl, hne, hdigits, rfl, -⟩ := decimalMagnitude_eq_ok_iff.mp hread
    rw [Text.ofChars, Text.ofChars, ← List.map_append]
    exact ⟨.digits hsign hne hdigits, hrange⟩
  · rintro ⟨⟨hsign, hne, hdigits⟩, hrange⟩
    rw [decimal?_digits hsign hne hdigits, if_pos (le_largest_of_inRange hbits hrange)]
    exact settle_eq_ok_iff.mpr ⟨_, rfl, rfl, hrange⟩

/-- An integer outside of the signed range is too large, and so is any text whose digits pass what the bits
hold before something else stands in it. -/
theorem decimal?_eq_outOfRange_iff {bits : Nat} {t : Text} :
    decimal? bits t = .error .outOfRange ↔
      Overlong (largest bits) t ∨ ∃ z, Denotes t z ∧ ¬ InRange bits z := by
  constructor
  · intro h
    obtain ⟨sign, rest, hsign, rfl, hsigned⟩ := signed_eq bits (decimalMagnitude bits) t
    rw [decimal?, hsigned] at h
    rcases settle_eq_outOfRange_iff.mp h with hread | ⟨n, hread, hrange⟩
    · obtain ⟨digits, rest, rfl, hdigits, hvalue⟩ := decimalMagnitude_eq_outOfRange_iff.mp hread
      refine .inl ⟨sign, digits, rest, hsign, ?_, hdigits, hvalue⟩
      rw [Text.ofChars, Text.ofChars, Text.ofChars, List.map_append, List.append_assoc]
    · obtain ⟨digits, rfl, hne, hdigits, rfl, -⟩ := decimalMagnitude_eq_ok_iff.mp hread
      rw [Text.ofChars, Text.ofChars, ← List.map_append]
      exact .inr ⟨_, .digits hsign hne hdigits, hrange⟩
  · rintro (⟨sign, digits, rest, hsign, rfl, hdigits, hvalue⟩ | ⟨z, ⟨hsign, hne, hdigits⟩, hrange⟩)
    · have hne : digits ≠ [] := by
        rintro rfl
        exact absurd hvalue (Nat.not_lt_zero _)
      rw [decimal?_append hsign hne hdigits]
      exact settle_eq_outOfRange_iff.mpr
        (.inl (decimalMagnitude_eq_outOfRange_iff.mpr ⟨digits, rest, rfl, hdigits, hvalue⟩))
    · rw [decimal?_digits hsign hne hdigits, settle_eq_outOfRange_iff]
      split
      · exact .inr ⟨_, rfl, hrange⟩
      · exact .inl rfl

theorem decimal?_eq_malformed_iff {bits : Nat} (hbits : 0 < bits) {t : Text} :
    decimal? bits t = .error .malformed ↔ ¬ Overlong (largest bits) t ∧ ∀ z, ¬ Denotes t z := by
  constructor
  · intro h
    have hrefused : ¬ decimal? bits t = .error .outOfRange := by
      rw [h]
      intro hfault
      cases hfault
    rw [decimal?_eq_outOfRange_iff, not_or] at hrefused
    refine ⟨hrefused.1, ?_⟩
    intro z hz
    by_cases hrange : InRange bits z
    · rw [decimal?_eq_ok_iff hbits |>.mpr ⟨hz, hrange⟩] at h
      cases h
    · exact hrefused.2 ⟨z, hz, hrange⟩
  · rintro ⟨hshort, hnone⟩
    cases hread : decimal? bits t with
    | ok z => exact absurd (decimal?_eq_ok_iff hbits |>.mp hread).1 (hnone z)
    | error fault =>
      cases fault with
      | malformed => rfl
      | outOfRange =>
        rcases decimal?_eq_outOfRange_iff.mp hread with hlong | ⟨z, hz, -⟩
        · exact absurd hlong hshort
        · exact absurd hz (hnone z)

end Literal

end StepLang
