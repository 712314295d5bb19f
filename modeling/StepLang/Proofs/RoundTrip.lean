import StepLang.Proofs.Bytes
import StepLang.Proofs.LineJoin
import StepLang.Proofs.Reading
import StepLang.Proofs.Rendering

/-!
# Reading what was written

A tree whose atoms could have been read is written as a text that is read as the same tree, at other
positions, and reading gives only such trees.
-/

namespace StepLang

namespace Datum

/-- An optional sign and one or more decimal digits. -/
def Numeric (cs : List Char) : Prop :=
  ∃ sign digits, cs = sign ++ digits ∧ (sign = [] ∨ sign = ['+'] ∨ sign = ['-']) ∧ digits ≠ [] ∧
    ∀ c ∈ digits, c.isDigit = true

/-- The tree has no gaps, and its atoms are of the kind that their characters tell. -/
inductive Readable : Datum → Prop where
  | atom {kind : AtomKind} {cs : List Char} (pos : Position) (hcs : Atomic cs)
      (hkind : kind = .integer ∧ Numeric cs ∨ kind = .symbol ∧ ¬ Numeric cs) : Readable
      (.atom kind (.ofChars cs) pos)
  | list {items : List Datum} (pos : Position) (h : ∀ d ∈ items, Readable d) : Readable (.list items pos)

/-- The tree without its positions. -/
def unplaced : Datum → Datum
  | missing => missing
  | atom kind text _ => atom kind text .none
  | list items _ => list (items.map unplaced) .none

end Datum

namespace Scanner

theorem isInteger_iff {cs : List Char} : isInteger cs = true ↔ Datum.Numeric cs := by
  unfold isInteger
  constructor
  · intro h
    cases cs with
    | nil => cases h
    | cons c cs =>
      simp only at h
      split at h
      · rename_i hsign
        simp only [isSign, Bool.or_eq_true, decide_eq_true_eq] at hsign
        simp only [Bool.and_eq_true, Bool.not_eq_true', List.isEmpty_eq_false_iff, List.all_eq_true] at h
        exact ⟨[c], cs, rfl, .inr (by simpa using hsign), h.1, h.2⟩
      · simp only [Bool.and_eq_true, Bool.not_eq_true', List.isEmpty_eq_false_iff, List.all_eq_true] at h
        exact ⟨[], c :: cs, rfl, .inl rfl, h.1, h.2⟩
  · rintro ⟨sign, digits, rfl, hsign, hne, hdigits⟩
    rcases hsign with rfl | rfl | rfl
    · cases digits with
      | nil => exact absurd rfl hne
      | cons c digits =>
        have hc : isSign c = false := by
          have hdigit := hdigits c List.mem_cons_self
          simp only [isSign, Bool.or_eq_false_iff, decide_eq_false_iff_not]
          constructor
          · rintro rfl
            cases hdigit
          · rintro rfl
            cases hdigit
        simpa [hc] using hdigits
    · simpa [isSign, hne] using hdigits
    · simpa [isSign, hne] using hdigits

theorem gap_ne_comment : ScanMode.gap ≠ .comment := by
  intro h
  cases h

/-- The scanner takes the text, and behind it the tokens are finished or wait for a delimiter only. -/
structure Yields (s : Scanner) (t : Text) (ts : List Token) (last : Scanner) : Prop where
  passes : Passes s (t.map Glyph.toChar) last
  mode : last.mode ≠ .comment
  closed : last.closed = ts.reverse ++ s.closed

theorem Yields.append {s mid last : Scanner} {t u : Text} {ts us : List Token} (h : Yields s t ts mid)
    (k : Yields mid u us last) : Yields s (t ++ u) (ts ++ us) last := by
  refine ⟨?_, k.mode, ?_⟩
  · rw [List.map_append]
    exact h.passes.trans k.passes
  · rw [k.closed, h.closed, List.reverse_append, List.append_assoc]

theorem Yields.refl (pos : Position) (tokens : List Token) : Yields ⟨pos, .gap, tokens⟩ []
    [] ⟨pos, .gap, tokens⟩ :=
  ⟨.refl _, gap_ne_comment, rfl⟩

theorem yields_delimiter {s : Scanner} {c : Char} {tokens : List Token} (hs : s.mode ≠ .comment)
    (hc : isDelimiter c = true)
    (h : enter s.pos s.closed c = .ok ⟨s.pos.after c, .gap, tokens.reverse ++ s.closed⟩) :
    Yields s [.char c] tokens ⟨s.pos.after c, .gap, tokens.reverse ++ s.closed⟩ :=
  ⟨.cons ((step_delimiter hs hc).trans h) (.refl _), gap_ne_comment, rfl⟩

theorem yields_space {s : Scanner} (hs : s.mode ≠ .comment) :
    Yields s [.char ' '] [] ⟨s.pos.after ' ', .gap, s.closed⟩ := yields_delimiter hs rfl rfl

theorem yields_opening {s : Scanner} (hs : s.mode ≠ .comment) :
    Yields s [.char '('] [bracket .opening '(' s.pos]
      ⟨s.pos.after '(', .gap, bracket .opening '(' s.pos :: s.closed⟩ := yields_delimiter hs rfl rfl

theorem yields_closing {s : Scanner} (hs : s.mode ≠ .comment) :
    Yields s [.char ')'] [bracket .closing ')' s.pos]
      ⟨s.pos.after ')', .gap, bracket .closing ')' s.pos :: s.closed⟩ := yields_delimiter hs rfl rfl

theorem passes_atom {cs : List Char} (h : ∀ c ∈ cs, isDelimiter c = false) (pos start : Position)
    (read : List Char) (tokens : List Token) :
    ∃ last, Passes ⟨pos, .atom start read, tokens⟩ cs last ∧ last.mode = .atom start (cs.reverse ++ read) ∧
      last.tokens = tokens := by
  induction cs generalizing pos read with
  | nil => exact ⟨_, .refl _, rfl, rfl⟩
  | cons c cs ih =>
    obtain ⟨hc, hcs⟩ := List.forall_mem_cons.mp h
    obtain ⟨last, hpass, hmode, htokens⟩ := ih hcs (pos.after c) (c :: read)
    refine ⟨last, .cons (by simp only [step, hc]; rfl) hpass, ?_, htokens⟩
    rw [hmode, List.reverse_cons, List.append_assoc, List.singleton_append]

theorem yields_atom {cs : List Char} (h : Atomic cs) (pos : Position) (tokens : List Token) :
    ∃ last, Yields ⟨pos, .gap, tokens⟩ (.ofChars cs) [atomToken pos cs] last := by
  obtain ⟨⟨c, rest, rfl, hprintable⟩, hunbroken⟩ := h
  have hdelimiter : ∀ d ∈ c :: rest, isDelimiter d = false :=
    fun d hd => isDelimiter_eq_false_iff.mpr (hunbroken d hd)
  obtain ⟨hc, hrest⟩ := List.forall_mem_cons.mp hdelimiter
  obtain ⟨last, hpass, hmode, htokens⟩ := passes_atom hrest (pos.after c) pos [c] tokens
  have henter : enter pos tokens c = .ok ⟨pos.after c, .atom pos [c], tokens⟩ := by
    obtain ⟨hblank, hparen, hclose, hsquare, hend, hcomment⟩ := isDelimiter_eq_false_iff.mp hc
    simp [enter, hblank, hparen, hclose, hsquare, hend, hcomment, hprintable]
  refine ⟨last, ?_, ?_, ?_⟩
  · rw [Text.map_toChar]
    exact .cons henter hpass
  · rw [hmode]
    intro h
    cases h
  · simp only [closed, hmode, htokens]
    simp

end Scanner

namespace Datum

open Scanner

theorem derives_atom {kind : AtomKind} {cs : List Char}
    (hkind : kind = .integer ∧ Numeric cs ∨ kind = .symbol ∧ ¬ Numeric cs) (pos : Position) :
    Derives [atomToken pos cs] (.atom kind (.ofChars cs) pos) := by
  rcases hkind with ⟨rfl, hcs⟩ | ⟨rfl, hcs⟩
  · exact .integer (atomToken pos cs) (if_pos (isInteger_iff.mpr hcs))
  · exact .symbol (atomToken pos cs) (if_neg fun h => hcs (isInteger_iff.mp h))

/-- The text of a datum, where nothing is unfinished before it, scans to tokens of the datum at their
positions. -/
def Rescanned (d : Datum) : Prop :=
  ∀ pos tokens, ∃ last ts e, Yields ⟨pos, .gap, tokens⟩ d.written ts last ∧ Derives ts e ∧
  e.unplaced = d.unplaced

theorem rescanned_items {items : List Datum} (h : ∀ d ∈ items, d.Rescanned) (pos : Position)
    (tokens : List Token) :
    ∃ last, ∃ parts : List (List Token × Datum),
      Yields ⟨pos, .gap, tokens⟩ (writtenItems items) (parts.flatMap Prod.fst) last ∧
        (∀ p ∈ parts, Derives p.1 p.2) ∧ (parts.map Prod.snd).map unplaced = items.map unplaced := by
  induction items generalizing pos tokens with
  | nil => exact ⟨_, [], .refl pos tokens, by simp, rfl⟩
  | cons d items ih =>
    obtain ⟨hd, hitems⟩ := List.forall_mem_cons.mp h
    obtain ⟨mid, ts, e, hyields, hderives, he⟩ := hd pos tokens
    rw [writtenItems_cons]
    cases items with
    | nil =>
      refine ⟨mid, [(ts, e)], ?_, by simpa using hderives, by simpa using he⟩
      simpa [spaceBefore, writtenItems] using hyields
    | cons next items =>
      obtain ⟨last, parts, hrest, hparts, hshape⟩ := ih hitems (mid.pos.after ' ') mid.closed
      refine ⟨last, (ts, e) :: parts, ?_, List.forall_mem_cons.mpr ⟨hderives, hparts⟩, ?_⟩
      · exact hyields.append ((yields_space hyields.mode).append hrest)
      · rw [List.map_cons, List.map_cons, hshape, List.map_cons (a := d), he]

theorem Readable.rescanned {d : Datum} (h : d.Readable) : d.Rescanned := by
  induction h with
  | @atom kind cs pos hcs hkind =>
    intro start tokens
    obtain ⟨last, hyields⟩ := yields_atom hcs start tokens
    refine ⟨last, _, _, ?_, derives_atom hkind start, by rw [unplaced, unplaced]⟩
    rw [written]
    exact hyields
  | @list items pos _ ih =>
    intro start tokens
    have hopening := yields_opening (s := ⟨start, .gap, tokens⟩) gap_ne_comment
    obtain ⟨last, parts, hitems, hparts, hshape⟩ :=
      rescanned_items ih (start.after '(') (bracket .opening '(' start :: tokens)
    have hcloses : (bracket .closing ')' last.pos).Closes (bracket .opening '(' start) :=
      ⟨rfl, rfl, .inl ⟨rfl, rfl⟩⟩
    have hall := hopening.append (hitems.append (yields_closing hitems.mode))
    have htext : (Datum.list items pos).written = [.char '('] ++ (writtenItems items ++ [.char ')']) :=
      written_list items pos
    rw [← htext] at hall
    exact ⟨_, _, _, hall, .list _ _ parts hcloses hparts, by rw [unplaced, unplaced, hshape]⟩

theorem read_written {d : Datum} (h : d.Readable) :
    ∃ e, read d.written = .ok e ∧ e.unplaced = d.unplaced := by
  obtain ⟨last, ts, e, hyields, hderives, he⟩ := h.rescanned .start []
  have hscan : Token.scan d.written = .ok (ts ++ [⟨.eof, [], last.pos⟩]) := by
    have hclosed : last.closed = ts.reverse := by simpa [closed] using hyields.closed
    have hrun := hyields.passes.run_eq
    rw [finish, List.reverse_cons, hclosed, List.reverse_reverse] at hrun
    exact hrun
  refine ⟨e, ?_, he⟩
  rw [read_of_scan hscan, ofTokens_of_value hderives, if_pos rfl]

theorem isValid_items {items : List Datum} (h : ∀ d ∈ items, d.written.isValid = true) :
    (writtenItems items).isValid = true := by
  induction items with
  | nil => rfl
  | cons d items ih =>
    obtain ⟨hd, hitems⟩ := List.forall_mem_cons.mp h
    rw [writtenItems_cons, Text.isValid_append, hd, Bool.true_and, spaceBefore]
    split
    · exact ih hitems
    · rw [Text.isValid_cons, ih hitems]
      rfl

theorem Readable.isValid {d : Datum} (h : d.Readable) : d.written.isValid = true := by
  induction h with
  | @atom kind cs pos _ _ =>
    rw [written]
    exact Text.isValid_ofChars cs
  | list pos _ ih =>
    rw [written_list, Text.isValid_cons, Text.isValid_append, isValid_items ih]
    rfl

theorem read_render {d : Datum} (h : d.Readable) :
    ∃ e, read (.ofBytes d.render.toBytes) = .ok e ∧ e.unplaced = d.unplaced := by
  rw [render_eq_written, Text.ofBytes_toBytes h.isValid]
  exact read_written h

theorem readable_of_derives {ts : List Token} {d : Datum} (h : Derives ts d) (hts : ∀ t ∈ ts, t.Formed) :
    d.Readable := by
  induction h with
  | integer t ht =>
    cases hts t List.mem_cons_self with
    | opening => cases ht
    | closing => cases ht
    | @atom cs hcs pos =>
      refine .atom pos hcs (.inl ⟨rfl, isInteger_iff.mp ?_⟩)
      by_cases hinteger : isInteger cs = true
      · exact hinteger
      · simp [atomToken, hinteger] at ht
  | symbol t ht =>
    cases hts t List.mem_cons_self with
    | opening => cases ht
    | closing => cases ht
    | @atom cs hcs pos =>
      refine .atom pos hcs (.inr ⟨rfl, fun hnumeric => ?_⟩)
      simp [atomToken, isInteger_iff.mpr hnumeric] at ht
  | list o c parts _ _ ih =>
    refine .list o.pos ?_
    intro d hd
    obtain ⟨p, hp, rfl⟩ := List.mem_map.mp hd
    refine ih p hp fun t ht => hts t ?_
    exact List.mem_cons_of_mem o (List.mem_append_left _ (List.mem_flatMap.mpr ⟨p, hp, ht⟩))

theorem readable_of_read {source : Text} {d : Datum} (h : read source = .ok d) : d.Readable := by
  cases hscan : Token.scan source with
  | error e => simp [read, hscan] at h
  | ok ts =>
    obtain ⟨body, pos, rfl, hbody⟩ := Token.scan_formed hscan
    rw [read_of_scan hscan] at h
    have hderives := (ofTokens_eq_ok_iff (fun t ht => (hbody t ht).scanned) pos d).mp h
    exact readable_of_derives hderives hbody

/-- The bytes that a tree is written as are read as the tree again, at other positions, if its atoms could
have been read. Reading gives no other trees, so what was read is read again from what it is written as. -/
theorem read_render_unplaced :
    (∀ d : Datum, d.Readable → ∃ e, read (.ofBytes d.render.toBytes) = .ok e ∧ e.unplaced = d.unplaced) ∧
    (∀ source d, read source = .ok d → d.Readable) ∧
    ∀ source d, read source = .ok d → ∃ e, read (.ofBytes d.render.toBytes) = .ok e ∧
    e.unplaced = d.unplaced :=
  ⟨fun _ h => read_render h, fun _ _ h => readable_of_read h, fun _ _ h => read_render (readable_of_read h)⟩

theorem read_render_unplaced_nested :
    ∃ d, read "[+ (-05 a)]" = .ok d ∧ d.Readable ∧ d.render = "(+ (-05 a))" ∧
      ∃ e, read (.ofBytes d.render.toBytes) = .ok e ∧ e.unplaced = d.unplaced := by
  have hread : read "[+ (-05 a)]" =
      .ok (.list [.atom .symbol "+" ⟨1, 2⟩,
        .list [.atom .integer "-05" ⟨1, 5⟩, .atom .symbol "a" ⟨1, 9⟩] ⟨1, 4⟩] ⟨1, 1⟩) := rfl
  have hreadable := read_render_unplaced.2.1 _ _ hread
  refine ⟨_, hread, hreadable, ?_, read_render_unplaced.1 _ hreadable⟩
  simp only [render_eq_written, written, List.map_cons, List.map_nil]
  rfl

end Datum

end StepLang
