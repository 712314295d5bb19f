import StepLang.Proofs.Template

/-!
# Lines of a trace

A line shows an executed instruction in three columns: its offset and its bytes in hexadecimal, and the
accumulator in decimal. The columns can be told apart and read back, so a trace determines the instructions
that it shows.
-/

namespace StepLang

namespace Numeral

/-- The number that digits spell behind a number that was read. -/
def valueOnto (base n : Nat) (t : Text) : Nat := t.foldl (fun n g => n * base + (Literal.digit? g).getD 0) n

theorem digit?_digitChar : ∀ d : Fin 16, Literal.digit? (.char (Nat.digitChar d)) = some d.val := by decide

theorem valueOnto_digits (n : Nat) : valueOnto 16 0 (.ofChars (digits 16 n)) = n := by
  have honto : ∀ low, valueOnto 16 0 (.ofChars (digitsOnto 16 n low)) = valueOnto 16 n (.ofChars low) := by
    induction n using Nat.strongRecOn with
    | ind n ih =>
      intro low
      rw [digitsOnto]
      by_cases hn : n < 16
      · have hdigit := digit?_digitChar ⟨n, hn⟩
        rw [if_pos (.inr hn)]
        simp [valueOnto, Text.ofChars, hdigit]
      · have hdigit := digit?_digitChar ⟨n % 16, by omega⟩
        have hnumber : n / 16 * 16 + n % 16 = n := by omega
        rw [if_neg (by omega), ih (n / 16) (by omega)]
        simp [valueOnto, Text.ofChars, hdigit, hnumber]
  exact honto []

theorem valueOnto_zeroFilled (width : Nat) (ds : List Char) :
    valueOnto 16 0 (zeroFilled width ds) = valueOnto 16 0 (.ofChars ds) := by
  rw [zeroFilled]
  generalize width - ds.length = zeros
  induction zeros with
  | zero => rfl
  | succ zeros ih => exact ih

theorem hex_injective {width m n : Nat} (h : hex width m = hex width n) : m = n := by
  have hvalue := congrArg (valueOnto 16 0) h
  rw [hex, hex, valueOnto_zeroFilled, valueOnto_zeroFilled, valueOnto_digits, valueOnto_digits] at hvalue
  exact hvalue

theorem mem_digitsOnto {n : Nat} {low : List Char} {c : Char} (h : c ∈ digitsOnto 16 n low) :
    c ∈ low ∨ ∃ d : Fin 16, c = Nat.digitChar d := by
  induction n using Nat.strongRecOn generalizing low with
  | ind n ih =>
    rw [digitsOnto] at h
    by_cases hn : n < 16
    · rw [if_pos (.inr hn), List.mem_cons] at h
      rcases h with rfl | h
      · exact .inr ⟨⟨n, hn⟩, rfl⟩
      · exact .inl h
    · rw [if_neg (by omega)] at h
      rcases ih (n / 16) (by omega) h with h | h
      · rcases List.mem_cons.mp h with rfl | h
        · exact .inr ⟨⟨n % 16, by omega⟩, rfl⟩
        · exact .inl h
      · exact .inr h

theorem mem_hex {width n : Nat} {g : Glyph} (h : g ∈ hex width n) :
    ∃ d : Fin 16, g = .char (Nat.digitChar d) := by
  obtain ⟨c, hc, rfl⟩ := List.mem_map.mp h
  rcases List.mem_append.mp hc with hzero | hdigit
  · exact ⟨0, by rw [List.eq_of_mem_replicate hzero]; rfl⟩
  · rcases mem_digitsOnto hdigit with hnil | ⟨d, rfl⟩
    · cases hnil
    · exact ⟨d, rfl⟩

theorem mem_hexBytes {bs : List UInt8} {g : Glyph} (h : g ∈ hexBytes bs) :
    ∃ d : Fin 16, g = .char (Nat.digitChar d) := by
  obtain ⟨b, -, hg⟩ := List.mem_flatMap.mp h
  exact mem_hex hg

theorem digitChar_notBlank : ∀ d : Fin 16, (Glyph.char (Nat.digitChar d)).isBlank = false := by decide

theorem length_hexByte (b : UInt8) : (hexByte b).length = 2 := by
  have hb := b.toNat_lt
  rw [hexByte, hex, digits, digitsOnto]
  by_cases hsmall : b.toNat < 16
  · rw [if_pos (.inr hsmall)]
    rfl
  · rw [if_neg (by omega), digitsOnto, if_pos (by omega)]
    rfl

theorem length_hexBytes (bs : List UInt8) : (hexBytes bs).length = 2 * bs.length := by
  induction bs with
  | nil => rfl
  | cons b bs ih =>
    rw [hexBytes, List.flatMap_cons, List.length_append, length_hexByte, ← hexBytes, ih, List.length_cons]
    omega

theorem hexBytes_injective {bs cs : List UInt8} (h : hexBytes bs = hexBytes cs) : bs = cs := by
  have hlength := congrArg List.length h
  rw [length_hexBytes, length_hexBytes] at hlength
  induction bs generalizing cs with
  | nil => exact (List.length_eq_zero_iff.mp (by rw [List.length_nil] at hlength; omega)).symm
  | cons b bs ih =>
    cases cs with
    | nil =>
      rw [List.length_cons, List.length_nil] at hlength
      omega
    | cons c cs =>
      rw [hexBytes, hexBytes, List.flatMap_cons, List.flatMap_cons] at h
      obtain ⟨hbyte, hrest⟩ := List.append_inj h (by rw [length_hexByte, length_hexByte])
      rw [UInt8.toNat_inj.mp (hex_injective hbyte),
        ih hrest (by rw [List.length_cons, List.length_cons] at hlength; omega)]

theorem int_toInt_injective {a b : Int64} (h : int a.toInt = int b.toInt) : a = b := by
  have hread : ∀ c : Int64, Literal.decimal? 64 (int c.toInt) = .ok c.toInt := fun c =>
    Literal.decimal?_int (by decide) (Int64.le_toInt c) (Int64.toInt_lt c)
  have hvalue := hread a
  rw [h, hread b, Except.ok.injEq] at hvalue
  exact (Int64.toInt_inj.mp hvalue).symm

end Numeral

/-- Texts that agree up to the first blank agree behind it. -/
theorem Text.append_blank_inj {a b u v : Text} {g : Glyph} (hg : g.isBlank = true)
    (ha : ∀ c ∈ a, c.isBlank = false) (hb : ∀ c ∈ b, c.isBlank = false) (h : a ++ g :: u = b ++ g :: v) :
    a = b ∧ u = v := by
  have htake : ∀ (t w : Text), (∀ c ∈ t, c.isBlank = false) → (t ++ g :: w).takeWhile (!·.isBlank) = t := by
    intro t w ht
    rw [List.takeWhile_append_of_pos fun c hc => by simp [ht c hc], List.takeWhile_cons_of_neg (by simp [hg]),
      List.append_nil]
  have heq := congrArg (List.takeWhile (!·.isBlank)) h
  rw [htake a u ha, htake b v hb] at heq
  subst heq
  exact ⟨rfl, (List.cons.inj (List.append_cancel_left h)).2⟩

namespace Numeral

/-- An offset and bytes in hexadecimal, with blanks that fill the bytes up to a width and one more before
what follows. -/
def columns (width offset : Nat) (bytes : List UInt8) (rest : Text) : Text :=
  hex 4 offset ++ "  " ++ (hexBytes bytes).padRight width ++ .char ' ' :: rest

theorem columns_eq (width offset : Nat) (bytes : List UInt8) (rest : Text) :
    columns width offset bytes rest =
      hex 4 offset ++ .char ' ' :: .char ' ' :: (hexBytes bytes ++ .char ' ' ::
        (List.replicate (width - (hexBytes bytes).length) (.char ' ') ++ rest)) := by
  have hgap : ("  " : Text) = [.char ' ', .char ' '] := rfl
  have hfill : ∀ (n : Nat) (t : Text), List.replicate n (Glyph.char ' ') ++ .char ' ' :: t =
      .char ' ' :: (List.replicate n (.char ' ') ++ t) := by
    intro n t
    rw [List.append_cons, ← List.replicate_succ', List.replicate_succ, List.cons_append]
  rw [columns, Text.padRight, hgap]
  simp only [List.append_assoc, List.cons_append, List.nil_append, hfill]

theorem hex_notBlank (width n : Nat) : ∀ g ∈ hex width n, g.isBlank = false := by
  intro g hg
  obtain ⟨d, rfl⟩ := mem_hex hg
  exact digitChar_notBlank d

theorem hexBytes_notBlank (bs : List UInt8) : ∀ g ∈ hexBytes bs, g.isBlank = false := by
  intro g hg
  obtain ⟨d, rfl⟩ := mem_hexBytes hg
  exact digitChar_notBlank d

theorem columns_injective {width m n : Nat} {bs cs : List UInt8} {u v : Text}
    (h : columns width m bs u = columns width n cs v) : m = n ∧ bs = cs ∧ u = v := by
  have hblank : (Glyph.char ' ').isBlank = true := rfl
  rw [columns_eq, columns_eq] at h
  obtain ⟨hoffset, h⟩ := Text.append_blank_inj hblank (hex_notBlank _ _) (hex_notBlank _ _) h
  obtain ⟨hbytes, h⟩ :=
    Text.append_blank_inj hblank (hexBytes_notBlank _) (hexBytes_notBlank _) (List.cons.inj h).2
  rw [hbytes] at h
  exact ⟨hex_injective hoffset, hexBytes_injective hbytes, List.append_cancel_left h⟩

theorem newline_notMem_columns {width offset : Nat} {bytes : List UInt8} {rest : Text}
    (hrest : Text.newline ∉ rest) :
    Text.newline ∉ columns width offset bytes rest := by
  have hblank : Text.newline ≠ .char ' ' := by decide
  have hnewline : Text.newline.isBlank = true := rfl
  rw [columns_eq]
  intro h
  rcases List.mem_append.mp h with h | h
  · rw [hex_notBlank _ _ _ h] at hnewline
    cases hnewline
  · rcases List.mem_append.mp (List.mem_of_ne_of_mem hblank (List.mem_of_ne_of_mem hblank h)) with h | h
    · rw [hexBytes_notBlank _ _ h] at hnewline
      cases hnewline
    · rcases List.mem_append.mp (List.mem_of_ne_of_mem hblank h) with h | h
      · exact hblank (List.eq_of_mem_replicate h)
      · exact hrest h

end Numeral

namespace Executed

theorem text_eq (x : Executed) :
    x.text = Numeral.columns 8 x.offset.toNat x.code (("rax=" : Text) ++ Numeral.int x.rax.toInt) := by
  rw [text, Numeral.columns, List.append_assoc _ (" rax=" : Text)]
  rfl

theorem text_injective {x y : Executed} (hx : 0 ≤ x.offset) (hy : 0 ≤ y.offset)
    (h : x.text = y.text) : x = y := by
  rw [text_eq, text_eq] at h
  obtain ⟨hoffset, hcode, h⟩ := Numeral.columns_injective h
  have hrax := Numeral.int_toInt_injective (List.append_cancel_left h)
  cases x
  cases y
  rw [Executed.mk.injEq]
  exact ⟨by simp only at hx hy hoffset; omega, hcode, hrax⟩

theorem newline_notMem_text (x : Executed) : Text.newline ∉ x.text := by
  rw [text_eq]
  apply Numeral.newline_notMem_columns
  intro h
  rcases List.mem_append.mp h with h | h
  · exact absurd h (by decide)
  · exact absurd ((Numeral.isWord_int _).2 _ h).1 (by decide)

theorem lines_trace (log : List Executed) : (trace log).lines = log.map text ++ [[]] := by
  apply Text.lines_unlines
  intro line hline
  obtain ⟨x, -, rfl⟩ := List.mem_map.mp hline
  exact newline_notMem_text x

theorem trace_injective {log other : List Executed} (hlog : ∀ x ∈ log, 0 ≤ x.offset)
    (hother : ∀ x ∈ other, 0 ≤ x.offset) (h : trace log = trace other) : log = other := by
  have hlines := congrArg Text.lines h
  rw [lines_trace, lines_trace] at hlines
  have htexts := List.append_cancel_right hlines
  clear h hlines
  induction log generalizing other with
  | nil => exact (List.map_eq_nil_iff.mp htexts.symm).symm
  | cons x log ih =>
    cases other with
    | nil => cases htexts
    | cons y other =>
      obtain ⟨hx, hlog⟩ := List.forall_mem_cons.mp hlog
      obtain ⟨hy, hother⟩ := List.forall_mem_cons.mp hother
      obtain ⟨htext, htexts⟩ := List.cons.inj htexts
      rw [text_injective hx hy htext, ih hlog hother htexts]

end Executed

end StepLang
