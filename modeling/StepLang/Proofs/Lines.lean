import Mathlib.Data.List.TakeWhile
import StepLang.Assembly.Line
import StepLang.Listing

/-!
# Splitting text

Texts that are joined by line breaks or blanks fall apart into the same pieces again. A line without labels
and comments is read for its words, wherever blanks stand around them.
-/

namespace StepLang

namespace Text

theorem lines_unlines {ls : List Text} (h : ∀ l ∈ ls, newline ∉ l) : (unlines ls).lines = ls ++ [[]] := by
  induction ls with
  | nil => rfl
  | cons l ls ih =>
    obtain ⟨hl, hls⟩ := List.forall_mem_cons.mp h
    have hnot : ∀ g ∈ l, decide (g = newline) = false := by
      intro g hg
      refine decide_eq_false ?_
      rintro rfl
      exact hl hg
    rw [unlines, List.flatMap_cons, List.append_assoc, List.singleton_append, lines,
      List.splitOnP_append_cons_of_forall_mem hnot newline (by simp) _, List.cons_append]
    exact congrArg (l :: ·) (ih hls)

theorem newline_notMem_of_mem_lines {t line : Text} (h : line ∈ t.lines) : newline ∉ line := by
  induction t generalizing line with
  | nil =>
    rw [List.mem_singleton.mp h]
    exact List.not_mem_nil
  | cons g t ih =>
    rw [lines, List.splitOnP_cons_eq_if_modifyHead] at h
    by_cases hg : g = newline
    · rw [if_pos (decide_eq_true hg)] at h
      rcases List.mem_cons.mp h with rfl | h
      · exact List.not_mem_nil
      · exact ih h
    · rw [if_neg (by simpa using hg)] at h
      cases hlines : t.splitOnP (· = newline) with
      | nil => exact absurd hlines (List.splitOnP_ne_nil _ _)
      | cons first rest =>
        rw [hlines, List.modifyHead_cons] at h
        rcases List.mem_cons.mp h with rfl | h
        · intro hmem
          rcases List.mem_cons.mp hmem with heq | hmem
          · exact hg heq.symm
          · exact ih (by rw [lines, hlines]; exact List.mem_cons_self) hmem
        · exact ih (by rw [lines, hlines]; exact List.mem_cons_of_mem first h)

theorem words_append (a b : Text) {g : Glyph} (hg : g.isBlank = true) :
    words (a ++ g :: b) = words a ++ words b := by
  rw [words, List.splitOnP_append_cons a b hg, List.filter_append]
  rfl

theorem words_cons {g : Glyph} (hg : g.isBlank = true) (t : Text) : words (g :: t) = words t :=
  words_append [] t hg

theorem words_singleton {t : Text} (hne : t ≠ []) (h : ∀ g ∈ t, g.isBlank = false) : words t = [t] := by
  rw [words, List.splitOnP_eq_singleton h]
  simp [hne]

theorem words_blank_append {front : Text} (h : ∀ g ∈ front, g.isBlank = true) (t : Text) :
    words (front ++ t) = words t := by
  induction front with
  | nil => rfl
  | cons g front ih =>
    obtain ⟨hg, hfront⟩ := List.forall_mem_cons.mp h
    rw [List.cons_append, words_cons hg, ih hfront]

theorem words_append_blank {back : Text} (h : ∀ g ∈ back, g.isBlank = true) (t : Text) :
    words (t ++ back) = words t := by
  cases back with
  | nil => rw [List.append_nil]
  | cons g back =>
    obtain ⟨hg, hback⟩ := List.forall_mem_cons.mp h
    rw [words_append t back hg, ← List.append_nil back, words_blank_append hback]
    exact List.append_nil _

theorem exists_eq_append_trim (t : Text) :
    ∃ front back, t = front ++ trim t ++ back ∧ (∀ g ∈ front, g.isBlank = true) ∧
      ∀ g ∈ back, g.isBlank = true := by
  refine ⟨t.takeWhile Glyph.isBlank, ((t.dropWhile Glyph.isBlank).reverse.takeWhile Glyph.isBlank).reverse,
    ?_, ?_, ?_⟩
  · rw [trim, List.append_assoc, ← List.reverse_append, List.takeWhile_append_dropWhile, List.reverse_reverse,
      List.takeWhile_append_dropWhile]
  · exact fun g hg => List.mem_takeWhile_imp hg
  · exact fun g hg => List.mem_takeWhile_imp (List.mem_reverse.mp hg)

theorem mem_of_mem_trim {t : Text} {g : Glyph} (h : g ∈ trim t) : g ∈ t := by
  obtain ⟨front, back, ht, -, -⟩ := exists_eq_append_trim t
  rw [ht]
  simp [h]

theorem trim_of_forall {t : Text} (h : ∀ g ∈ t, g.isBlank = false) : trim t = t := by
  have hdrop : ∀ u : Text, (∀ g ∈ u, g.isBlank = false) → u.dropWhile Glyph.isBlank = u := by
    intro u hu
    cases u with
    | nil => rfl
    | cons g u => rw [List.dropWhile_cons_of_neg (by simp [hu g List.mem_cons_self])]
  rw [trim, hdrop t h, hdrop _ fun g hg => h g (List.mem_reverse.mp hg), List.reverse_reverse]

theorem trim_blank_append {front : Text} (h : ∀ g ∈ front, g.isBlank = true) (t : Text) :
    trim (front ++ t) = trim t := by
  rw [trim, List.dropWhile_append_of_pos h]
  rfl

theorem trim_append_blank {back : Text} (h : ∀ g ∈ back, g.isBlank = true) (t : Text) :
    trim (t ++ back) = trim t := by
  rw [trim, List.dropWhile_append]
  split
  · rename_i hnil
    rw [List.dropWhile_eq_nil_iff.mpr h, trim, List.isEmpty_iff.mp hnil]
  · rw [List.reverse_append, List.dropWhile_append_of_pos fun g hg => h g (List.mem_reverse.mp hg)]
    rfl

/-- Up to a glyph that is not blank a text that begins with no blank keeps all. -/
theorem trim_append_cons {front : Text} (hfront : ∀ g ∈ front.head?, g.isBlank = false) {g : Glyph}
    (hg : g.isBlank = false) (t : Text) :
    ∃ inner back, trim (front ++ g :: t) = front ++ g :: inner ∧ t = inner ++ back ∧
      ∀ g ∈ back, g.isBlank = true := by
  have hdrop : (front ++ g :: t).dropWhile Glyph.isBlank = front ++ g :: t := by
    cases front with
    | nil => exact List.dropWhile_cons_of_neg (by simp [hg])
    | cons h front => exact List.dropWhile_cons_of_neg (by simp [hfront h rfl])
  refine ⟨(t.reverse.dropWhile Glyph.isBlank).reverse,
    (t.reverse.takeWhile Glyph.isBlank).reverse, ?_, ?_, ?_⟩
  · rw [trim, hdrop, List.reverse_append, List.reverse_cons, List.append_assoc, List.singleton_append,
      List.dropWhile_append]
    split
    · rename_i hnil
      rw [List.isEmpty_iff.mp hnil, List.dropWhile_cons_of_neg (by simp [hg])]
      simp
    · simp
  · rw [← List.reverse_append, List.takeWhile_append_dropWhile, List.reverse_reverse]
  · exact fun g hg => List.mem_takeWhile_imp (List.mem_reverse.mp hg)

end Text

namespace Line

theorem map_spaced {t : Text} (h : .char ',' ∉ t) : t.map spaced = t := by
  refine (List.map_congr_left ?_).trans (List.map_id t)
  intro g hg
  rw [spaced, if_neg, id_eq]
  rintro rfl
  exact h hg

theorem map_spaced_blank {t : Text} (h : ∀ g ∈ t, g.isBlank = true) : t.map spaced = t :=
  map_spaced fun hcomma => absurd (h _ hcomma) (by decide)

theorem commandOf_between {front back : Text} (hfront : ∀ g ∈ front, g.isBlank = true)
    (hback : ∀ g ∈ back, g.isBlank = true) (t : Text) : commandOf (front ++ t ++ back) = commandOf t := by
  rw [commandOf, List.map_append, List.map_append, map_spaced_blank hfront, map_spaced_blank hback,
    Text.words_append_blank hback, Text.words_blank_append hfront]
  rfl

theorem commandOf_trim (t : Text) : commandOf (Text.trim t) = commandOf t := by
  obtain ⟨front, back, ht, hfront, hback⟩ := Text.exists_eq_append_trim t
  conv => rhs; rw [ht]
  exact (commandOf_between hfront hback _).symm

theorem beforeComment_of_notMem {t : Text} (h : .char ';' ∉ t) : beforeComment t = t := by
  rw [beforeComment, List.takeWhile_eq_self_iff]
  intro g hg
  refine decide_eq_true ?_
  rintro rfl
  exact h hg

theorem takeLabels_of_notMem {t : Text} (h : colon ∉ t) (found : List Text) :
    takeLabels found t = .ok (found.reverse, t) := by
  have hdrop : t.dropWhile (· ≠ colon) = [] := by
    rw [List.dropWhile_eq_nil_iff]
    intro g hg
    refine decide_eq_true ?_
    rintro rfl
    exact h hg
  rw [takeLabels]
  split
  · rfl
  · rename_i heq
    rw [hdrop] at heq
    cases heq

theorem parse_of_notMem {t : Text} (hcolon : colon ∉ t) (hcomment : .char ';' ∉ t) :
    parse t = .ok ⟨[], commandOf t⟩ := by
  rw [parse, beforeComment_of_notMem hcomment, takeLabels_of_notMem fun h => hcolon (Text.mem_of_mem_trim h)]
  simp only [commandOf_trim, List.reverse_nil]

/-- A text that a line keeps together. -/
def IsWord (t : Text) : Prop :=
  t ≠ [] ∧ ∀ g ∈ t, g.isBlank = false ∧ g ≠ .char ',' ∧ g ≠ colon ∧ g ≠ .char ';'

instance (t : Text) : Decidable (IsWord t) := inferInstanceAs (Decidable (_ ∧ _))

theorem IsWord.words_eq {t : Text} (h : IsWord t) : Text.words t = [t] :=
  Text.words_singleton h.1 fun g hg => (h.2 g hg).1

theorem IsWord.map_spaced {t : Text} (h : IsWord t) : t.map spaced = t :=
  Line.map_spaced fun hcomma => (h.2 _ hcomma).2.1 rfl

theorem IsWord.trim_eq {t : Text} (h : IsWord t) : Text.trim t = t :=
  Text.trim_of_forall fun g hg => (h.2 g hg).1

theorem IsWord.head_ne_colon {t : Text} (h : IsWord t) (rest : Text) : (t ++ rest).head? ≠ some colon := by
  cases t with
  | nil => exact absurd rfl h.1
  | cons g t =>
    rw [List.cons_append, List.head?_cons, ne_eq, Option.some.injEq]
    exact (h.2 g List.mem_cons_self).2.2.1

theorem IsWord.head_notBlank {t : Text} (h : IsWord t) (rest : Text) :
    ∀ g ∈ (t ++ rest).head?, g.isBlank = false := by
  intro g hg
  cases t with
  | nil => exact absurd rfl h.1
  | cons first t =>
    rw [List.cons_append, List.head?_cons, Option.mem_some] at hg
    exact (h.2 g (hg ▸ List.mem_cons_self)).1

theorem IsWord.any_isSpaceOrTab {t : Text} (h : IsWord t) : t.any isSpaceOrTab = false := by
  rw [List.any_eq_false]
  intro g hg hspace
  have hblank := (h.2 g hg).1
  simp only [isSpaceOrTab, Bool.or_eq_true, decide_eq_true_eq] at hspace
  rcases hspace with rfl | rfl
  · exact absurd hblank (by decide)
  · exact absurd hblank (by decide)

theorem takeLabels_padded {name behind : Text} (hword : IsWord name) (hname : isName name = true)
    (hbehind : ∀ g ∈ behind, g.isBlank = true) (found : List Text) (after : Text) :
    takeLabels found (name ++ behind ++ colon :: after) = takeLabels (name :: found) (Text.trim after) := by
  have hcolon : ∀ g ∈ name ++ behind, decide (g ≠ colon) = true := by
    intro g hg
    refine decide_eq_true ?_
    rintro rfl
    rcases List.mem_append.mp hg with hg | hg
    · exact (hword.2 colon hg).2.2.1 rfl
    · exact absurd (hbehind colon hg) (by decide)
  have hdrop : (name ++ behind ++ colon :: after).dropWhile (· ≠ colon) = colon :: after := by
    rw [List.dropWhile_append_of_pos hcolon, List.dropWhile_cons_of_neg (by simp)]
  have htake : (name ++ behind ++ colon :: after).takeWhile (· ≠ colon) = name ++ behind := by
    rw [List.takeWhile_append_of_pos hcolon, List.takeWhile_cons_of_neg (by simp), List.append_nil]
  have hhead : (name ++ behind ++ colon :: after).head? ≠ some colon := by
    rw [List.append_assoc]
    exact hword.head_ne_colon _
  rw [takeLabels]
  split
  · rename_i heq
    rw [hdrop] at heq
    cases heq
  · rename_i heq
    rw [hdrop] at heq
    cases heq
    simp only [htake, Text.trim_append_blank hbehind, hword.trim_eq, decide_eq_false hhead,
      hword.any_isSpaceOrTab, hname, Bool.or_self, Bool.false_eq_true, if_false, if_true]

theorem takeLabels_label {name : Text} (hword : IsWord name) (hname : isName name = true) (found : List Text)
    (after : Text) :
    takeLabels found (name ++ colon :: after) = takeLabels (name :: found) (Text.trim after) := by
  have hpadded := takeLabels_padded hword hname (by simp : ∀ g ∈ ([] : Text), g.isBlank = true) found after
  rw [List.append_nil] at hpadded
  exact hpadded

theorem parse_label (name after : Text) (hword : IsWord name) (hname : isName name = true)
    (hcolon : colon ∉ after)
    (hcomment : .char ';' ∉ after) : parse (name ++ colon :: after) = .ok ⟨[name], commandOf after⟩ := by
  have hline : .char ';' ∉ name ++ colon :: after := by
    rw [List.mem_append, List.mem_cons]
    rintro (hmem | hmem | hmem)
    · exact (hword.2 _ hmem).2.2.2 rfl
    · exact absurd hmem (by decide)
    · exact hcomment hmem
  have hblank : colon.isBlank = false := rfl
  obtain ⟨inner, back, htrim, rfl, hback⟩ :=
    Text.trim_append_cons (by simpa using hword.head_notBlank []) hblank after
  have hinner : colon ∉ Text.trim inner := fun h => hcolon (List.mem_append_left _ (Text.mem_of_mem_trim h))
  have hcommand := commandOf_between (by simp : ∀ g ∈ ([] : Text), g.isBlank = true) hback inner
  rw [parse, beforeComment_of_notMem hline, htrim, takeLabels_label hword hname, takeLabels_of_notMem hinner]
  simp only [commandOf_trim, List.reverse_singleton]
  rw [← hcommand, List.nil_append]

end Line

namespace Statement

def operands (s : Statement) : List Text :=
  if s.dst = [] then [] else if s.src = [] then [s.dst] else [s.dst, s.src]

def Readable (s : Statement) : Prop := ∀ w ∈ s.op :: s.operands, Line.IsWord w

theorem words_text {s : Statement} (h : s.Readable) :
    Text.words (s.text.map Line.spaced) = s.op :: s.operands := by
  have hspace : List.map Line.spaced (" " : Text) = [.char ' '] := rfl
  have hcomma : List.map Line.spaced (", " : Text) = [.char ' ', .char ' '] := rfl
  have hblank : (Glyph.char ' ').isBlank = true := rfl
  obtain ⟨hop, hrest⟩ := List.forall_mem_cons.mp h
  unfold operands at hrest
  unfold text operands
  split
  · rw [hop.map_spaced, hop.words_eq]
  rename_i hdst
  rw [if_neg hdst] at hrest
  split
  · rename_i hsrc
    rw [if_pos hsrc] at hrest
    have hd := hrest s.dst (by simp)
    simp only [List.map_append, hop.map_spaced, hd.map_spaced, hspace, List.append_assoc,
      List.singleton_append, Text.words_append _ _ hblank, hop.words_eq, hd.words_eq]
  · rename_i hsrc
    rw [if_neg hsrc] at hrest
    have hd := hrest s.dst (by simp)
    have hs := hrest s.src (by simp)
    simp only [List.map_append, hop.map_spaced, hd.map_spaced, hs.map_spaced, hspace, hcomma,
      List.append_assoc, List.cons_append, List.nil_append, Text.words_append _ _ hblank,
      Text.words_cons hblank, hop.words_eq, hd.words_eq, hs.words_eq]

theorem mem_text {s : Statement} {g : Glyph} (h : g ∈ s.text) :
    (∃ w ∈ s.op :: s.operands, g ∈ w) ∨ g = .char ' ' ∨ g = .char ',' := by
  have hspace : (" " : Text) = [.char ' '] := rfl
  have hcomma : (", " : Text) = [.char ',', .char ' '] := rfl
  unfold text at h
  unfold operands
  split at h
  · exact .inl ⟨s.op, by simp, h⟩
  split at h
  · simp_all only [List.mem_append]
    grind
  · simp_all only [List.mem_append]
    grind

theorem indented_text (s : Statement) : Listing.indented s.text = .char ' ' :: .char ' ' :: s.text := rfl

theorem notMem_indented {s : Statement} (h : s.Readable) {g : Glyph} (hspace : g ≠ .char ' ')
    (hcomma : g ≠ .char ',') (hword : ∀ w, Line.IsWord w → g ∉ w) : g ∉ Listing.indented s.text := by
  rw [indented_text, List.mem_cons, List.mem_cons]
  rintro (rfl | rfl | hg)
  · exact hspace rfl
  · exact hspace rfl
  rcases mem_text hg with ⟨w, hw, hmem⟩ | rfl | rfl
  · exact hword w (h w hw) hmem
  · exact hspace rfl
  · exact hcomma rfl

theorem newline_notMem_indented {s : Statement} (h : s.Readable) : Text.newline ∉ Listing.indented s.text :=
  notMem_indented h (by decide) (by decide) fun w hw hmem => absurd (hw.2 _ hmem).1 (by decide)

theorem parse_indented {s : Statement} (h : s.Readable) :
    Line.parse (Listing.indented s.text) = .ok ⟨[], some ⟨s.op.upper, s.operands⟩⟩ := by
  have hcolon : Line.colon ∉ Listing.indented s.text :=
    notMem_indented h (by decide) (by decide) fun w hw hmem => (hw.2 _ hmem).2.2.1 rfl
  have hcomment : .char ';' ∉ Listing.indented s.text :=
    notMem_indented h (by decide) (by decide) fun w hw hmem => (hw.2 _ hmem).2.2.2 rfl
  have hblank : (Line.spaced (.char ' ')).isBlank = true := rfl
  rw [Line.parse_of_notMem hcolon hcomment, Line.commandOf, indented_text, List.map_cons, List.map_cons,
    Text.words_cons hblank, Text.words_cons hblank, words_text h]

end Statement

end StepLang
