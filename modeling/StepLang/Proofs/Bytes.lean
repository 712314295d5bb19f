import StepLang.Text.Basic

/-!
# Texts and their bytes

A character is read from bytes exactly where its encoding stands. No byte of an encoding but the first can
be a line break, so bytes can be cut at line breaks before they are read.
-/

namespace StepLang.Text

theorem announced_ofNat {n : Nat} (h : n < 256) :
    announced (.ofNat n) = if n < 128 then 1 else if n < 224 then 2 else if n < 240 then 3 else 4 := by
  simp [announced, UInt8.lt_iff_toNat_lt, Nat.mod_eq_of_lt h]

theorem toNat_lt (c : Char) : c.toNat < 0x110000 := by
  rcases c.valid with h | h
  · exact Nat.lt_trans h (by decide)
  · exact h.2

/-- The first byte of a character announces the others, and together they spell its number. -/
theorem encode_eq_cons {c : Char} {lead : UInt8} {more : List UInt8}
    (h : String.utf8EncodeChar c = lead :: more) :
    announced lead = more.length + 1 ∧ spelled lead more = c.toNat ∧ ∀ b ∈ more, 128 ≤ b.toNat := by
  have hc := toNat_lt c
  have hv : c.val.toNat = c.toNat := rfl
  simp only [String.utf8EncodeChar, hv] at h
  split at h
  · cases h
    have hlead := announced_ofNat (n := c.toNat) (by omega)
    rw [if_pos (by omega)] at hlead
    simp only [hlead, spelled, payload, UInt8.toNat_ofNat', List.foldl_nil, List.not_mem_nil, false_implies,
      implies_true, and_true, true_and, List.length_nil]
    omega
  split at h
  · cases h
    have hlead := announced_ofNat (n := c.toNat / 64 % 32 + 192) (by omega)
    rw [if_neg (by omega), if_pos (by omega)] at hlead
    simp only [hlead, spelled, payload, UInt8.toNat_ofNat', List.foldl_cons, List.foldl_nil,
      List.forall_mem_cons, List.not_mem_nil, false_implies, implies_true, and_true, true_and,
      List.length_cons, List.length_nil]
    omega
  split at h
  · cases h
    have hlead := announced_ofNat (n := c.toNat / 4096 % 16 + 224) (by omega)
    rw [if_neg (by omega), if_neg (by omega), if_pos (by omega)] at hlead
    simp only [hlead, spelled, payload, UInt8.toNat_ofNat', List.foldl_cons, List.foldl_nil,
      List.forall_mem_cons, List.not_mem_nil, false_implies, implies_true, and_true, true_and,
      List.length_cons, List.length_nil]
    omega
  · cases h
    have hlead := announced_ofNat (n := c.toNat / 262144 % 8 + 240) (by omega)
    rw [if_neg (by omega), if_neg (by omega), if_neg (by omega)] at hlead
    simp only [hlead, spelled, payload, UInt8.toNat_ofNat', List.foldl_cons, List.foldl_nil,
      List.forall_mem_cons, List.not_mem_nil, false_implies, implies_true, and_true, true_and,
      List.length_cons, List.length_nil]
    omega

theorem firstChar?_eq_some_iff {lead : UInt8} {rest : List UInt8} {c : Char} :
    firstChar? lead rest = some c ↔ String.utf8EncodeChar c <+: lead :: rest := by
  simp only [firstChar?]
  constructor
  · intro h
    split at h
    · rename_i heq
      cases h
      rw [heq]
      exact (List.prefix_cons_inj lead).mpr (List.take_prefix _ _)
    · cases h
  · rintro ⟨after, h⟩
    cases he : String.utf8EncodeChar c with
    | nil => exact absurd he String.utf8EncodeChar_ne_nil
    | cons b more =>
      rw [he, List.cons_append, List.cons.injEq] at h
      obtain ⟨rfl, rfl⟩ := h
      obtain ⟨hlead, hspelled, -⟩ := encode_eq_cons he
      rw [hlead, Nat.add_sub_cancel, List.take_left, hspelled, Char.ofNat_toNat, if_pos he]

theorem ofBytesOnto_eq (read : Text) (bs : List UInt8) :
    ofBytesOnto read bs = read.reverse ++ ofBytes bs := by
  induction hn : bs.length using Nat.strongRecOn generalizing read bs with
  | ind n ih =>
    subst hn
    cases bs with
    | nil => simp [ofBytes, ofBytesOnto]
    | cons b rest =>
      rw [ofBytes, ofBytesOnto, ofBytesOnto]
      cases firstChar? b rest with
      | some c =>
        have hlen : (rest.drop (announced b - 1)).length < (b :: rest).length := by
          rw [List.length_drop, List.length_cons]
          omega
        simp only [ih _ hlen _ _ rfl]
        simp
      | none =>
        simp only [ih rest.length (by simp) _ _ rfl]
        simp

theorem ofBytes_nil : ofBytes [] = [] := by
  rw [ofBytes, ofBytesOnto]
  rfl

theorem ofBytes_encode (c : Char) (rest : List UInt8) :
    ofBytes (String.utf8EncodeChar c ++ rest) = .char c :: ofBytes rest := by
  cases he : String.utf8EncodeChar c with
  | nil => exact absurd he String.utf8EncodeChar_ne_nil
  | cons lead more =>
    have hfirst : firstChar? lead (more ++ rest) = some c :=
      firstChar?_eq_some_iff.mpr ⟨rest, by rw [he, List.cons_append]⟩
    have hlead := (encode_eq_cons he).1
    rw [List.cons_append, ofBytes, ofBytesOnto, hfirst]
    simp only [hlead, Nat.add_sub_cancel, List.drop_left, ofBytesOnto_eq]
    rfl

theorem ofBytes_stray {b : UInt8} {rest : List UInt8} (h : ∀ c, ¬ String.utf8EncodeChar c <+: b :: rest) :
    ofBytes (b :: rest) = .stray b :: ofBytes rest := by
  have hfirst : firstChar? b rest = none := by
    rw [Option.eq_none_iff_forall_ne_some]
    exact fun c hc => h c (firstChar?_eq_some_iff.mp hc)
  rw [ofBytes, ofBytesOnto, hfirst]
  simp only [ofBytesOnto_eq]
  rfl

theorem map_toChar (cs : List Char) : (ofChars cs).map Glyph.toChar = cs := by
  rw [ofChars, List.map_map]
  exact List.map_id cs

theorem isValid_cons (g : Glyph) (t : Text) : isValid (g :: t) = (!g.isStray && t.isValid) := by
  simp [isValid]

theorem isValid_append (t u : Text) : isValid (t ++ u) = (t.isValid && u.isValid) := by
  simp [isValid]

theorem isValid_ofChars (cs : List Char) : isValid (.ofChars cs) = true := by
  simp [isValid, ofChars, Glyph.isStray]

theorem ofBytes_toBytes {t : Text} (h : t.isValid = true) : ofBytes t.toBytes = t := by
  induction t with
  | nil => exact ofBytes_nil
  | cons g t ih =>
    rw [isValid_cons, Bool.and_eq_true] at h
    cases g with
    | stray b => cases h.1
    | char c =>
      have hbytes : toBytes (.char c :: t) = String.utf8EncodeChar c ++ toBytes t := rfl
      rw [hbytes, ofBytes_encode, ih h.2]

theorem encode_prefix_of_append {c : Char} {b : UInt8} {rest more : List UInt8}
    (h : String.utf8EncodeChar c <+: b :: (rest ++ 0x0A :: more)) :
    String.utf8EncodeChar c <+: b :: rest := by
  cases he : String.utf8EncodeChar c with
  | nil => exact absurd he String.utf8EncodeChar_ne_nil
  | cons lead tail =>
    rw [he, List.cons_prefix_cons] at h
    obtain ⟨rfl, htail⟩ := h
    refine (List.prefix_cons_inj lead).mpr ?_
    by_cases hlen : tail.length ≤ rest.length
    · exact List.prefix_of_prefix_length_le htail (List.prefix_append _ _) hlen
    · exfalso
      have hmem : (0x0A : UInt8) ∈ tail := by
        have hlonger : rest ++ [0x0A] <+: tail := by
          refine List.prefix_of_prefix_length_le ?_ htail ?_
          · exact ⟨more, by simp⟩
          · simp
            omega
        exact hlonger.subset (by simp)
      have hle := (encode_eq_cons he).2.2 _ hmem
      exact absurd hle (by decide)

/-- Bytes are read from the front: there is a character, or else a stray byte. -/
theorem bytes_induction {P : List UInt8 → Prop} (nil : P [])
    (char : ∀ c rest, P rest → P (String.utf8EncodeChar c ++ rest))
    (stray : ∀ b rest, (∀ c, ¬ String.utf8EncodeChar c <+: b :: rest) → P rest → P (b :: rest))
    (bs : List UInt8) :
    P bs := by
  induction hn : bs.length using Nat.strongRecOn generalizing bs with
  | ind n ih =>
    subst hn
    cases bs with
    | nil => exact nil
    | cons lead rest =>
      by_cases h : ∃ c, String.utf8EncodeChar c <+: lead :: rest
      · obtain ⟨c, after, hc⟩ := h
        have hlen : after.length < (lead :: rest).length := by
          have hpos := List.length_pos_iff.mpr (String.utf8EncodeChar_ne_nil (c := c))
          rw [← hc, List.length_append]
          omega
        rw [← hc]
        exact char c after (ih _ hlen after rfl)
      · exact stray lead rest (fun c hc => h ⟨c, hc⟩) (ih rest.length (by simp) rest rfl)

theorem ofBytes_join (a b : List UInt8) : ofBytes (a ++ 0x0A :: b) = ofBytes a ++ newline :: ofBytes b := by
  induction a using bytes_induction with
  | nil =>
    rw [ofBytes_nil]
    exact ofBytes_encode '\n' b
  | char c rest ih => rw [List.append_assoc, ofBytes_encode, ofBytes_encode, ih, List.cons_append]
  | stray lead rest h ih =>
    have hstray : ∀ c, ¬ String.utf8EncodeChar c <+: lead :: (rest ++ 0x0A :: b) :=
      fun c hc => h c (encode_prefix_of_append hc)
    rw [List.cons_append, ofBytes_stray hstray, ofBytes_stray h, ih, List.cons_append]

theorem count_encode (c : Char) : (String.utf8EncodeChar c).count 0x0A = if c = '\n' then 1 else 0 := by
  by_cases h : c = '\n'
  · rw [h]
    rfl
  · rw [if_neg h, List.count_eq_zero]
    intro hmem
    cases he : String.utf8EncodeChar c with
    | nil => exact absurd he String.utf8EncodeChar_ne_nil
    | cons lead more =>
      obtain ⟨hlead, hspelled, hmore⟩ := encode_eq_cons he
      rw [he] at hmem
      rcases List.mem_cons.mp hmem with rfl | hmem
      · have hnil : more = [] := List.length_eq_zero_iff.mp (Nat.succ.inj hlead.symm)
        rw [hnil] at hspelled
        exact h (Char.toNat_inj.mp hspelled.symm)
      · exact absurd (hmore _ hmem) (by decide)

theorem count_ofBytes (bs : List UInt8) : (ofBytes bs).count newline = bs.count 0x0A := by
  induction bs using bytes_induction with
  | nil =>
    rw [ofBytes_nil]
    rfl
  | char c rest ih =>
    rw [ofBytes_encode, List.count_cons, List.count_append, count_encode, ih, Nat.add_comm]
    by_cases h : c = '\n'
    · simp [h, newline]
    · simp [h, newline]
  | stray b rest h ih =>
    have hb : b ≠ 0x0A := by
      intro hb
      apply h '\n'
      rw [hb]
      exact ⟨rest, rfl⟩
    rw [ofBytes_stray h, List.count_cons, List.count_cons, ih]
    simp [hb, newline]

end StepLang.Text
