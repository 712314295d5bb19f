import StepLang.Proofs.Lines

/-!
# Written lines

A line can be written with any blanks around its labels and words, and with a comment at its end. All ways to
write it are read as the same line. The loop that takes the labels off uses up a colon in every round.
-/

namespace StepLang

namespace Ranges

def points (r : Ranges) : List Nat := r.flatMap fun p => List.range' p.1 (p.2 + 1 - p.1)

theorem mem_points {r : Ranges} {n : Nat} (h : r.has n = true) : n ∈ r.points := by
  fun_induction has r n with
  | case1 => cases h
  | case2 => cases h
  | case3 lo hi rest n hlo hhi =>
    refine List.mem_flatMap.mpr ⟨(lo, hi), List.mem_cons_self, List.mem_range'_1.mpr ?_⟩
    dsimp only
    omega
  | case4 lo hi rest n hlo hhi ih =>
    obtain ⟨p, hp, hn⟩ := List.mem_flatMap.mp (ih h)
    exact List.mem_flatMap.mpr ⟨p, List.mem_cons_of_mem _ hp, hn⟩

end Ranges

namespace Text

theorem notMem_blank {t : Text} (h : ∀ g ∈ t, g.isBlank = true) {g : Glyph}
    (hg : g.isBlank = false) : g ∉ t := by
  intro hmem
  rw [h g hmem] at hg
  cases hg

theorem words_append_pad {pad : Text} (hne : pad ≠ []) (hpad : ∀ g ∈ pad, g.isBlank = true) (a b : Text) :
    words (a ++ (pad ++ b)) = words a ++ words b := by
  cases pad with
  | nil => exact absurd rfl hne
  | cons g pad =>
    obtain ⟨hg, hpad⟩ := List.forall_mem_cons.mp hpad
    rw [List.cons_append, words_append a _ hg, words_blank_append hpad]

end Text

namespace Line

theorem blank_points :
    (Text.blankRanges.points.all fun n => !continuesName (.char (Char.ofNat n))) = true := by decide +kernel

theorem notBlank_of_continuesName {g : Glyph} (h : continuesName g = true) : g.isBlank = false := by
  cases g with
  | stray b => cases h
  | char c =>
    rw [Bool.eq_false_iff]
    intro hblank
    have hpoint := List.all_eq_true.mp blank_points c.toNat (Ranges.mem_points hblank)
    rw [Char.ofNat_toNat, h] at hpoint
    cases hpoint

theorem continuesName_of_beginsName {g : Glyph} (h : beginsName g = true) : continuesName g = true := by
  cases g with
  | stray b => cases h
  | char c =>
    simp only [beginsName, continuesName, Bool.or_eq_true] at h ⊢
    rcases h with (hletter | hline) | hdot
    · exact .inl (.inl (.inl hletter))
    · exact .inl (.inr hline)
    · exact .inr hdot

theorem isWord_of_isName {t : Text} (h : isName t = true) : IsWord t := by
  cases t with
  | nil => cases h
  | cons first rest =>
    obtain ⟨hfirst, hrest⟩ := Bool.and_eq_true_iff.mp h
    refine ⟨List.cons_ne_nil _ _, ?_⟩
    intro g hg
    have hname : continuesName g = true := by
      rcases List.mem_cons.mp hg with rfl | hg
      · exact continuesName_of_beginsName hfirst
      · exact List.all_eq_true.mp hrest g hg
    refine ⟨notBlank_of_continuesName hname, ?_, ?_, ?_⟩
    all_goals
      rintro rfl
      exact absurd hname (by decide)

/-- A text of some kind between blanks. -/
structure Padded (Kind : Text → Prop) where
  before : Text
  word : Text
  behind : Text
  blank_before : ∀ g ∈ before, g.isBlank = true
  kind : Kind word
  blank_behind : ∀ g ∈ behind, g.isBlank = true

def Padded.text {Kind : Text → Prop} (p : Padded Kind) : Text := p.before ++ (p.word ++ p.behind)

/-- Operands with commas between them. -/
def operandsText (ps : List (Padded IsWord)) : Text := [Glyph.char ','].intercalate (ps.map Padded.text)

/-- A way to write a command. Some blank stands between the mnemonic and the first operand. -/
structure WrittenCommand where
  mnemonic : Padded IsWord
  operands : List (Padded IsWord)
  apart : ∀ p ∈ operands.head?, mnemonic.behind ≠ [] ∨ p.before ≠ []

namespace WrittenCommand

def text (c : WrittenCommand) : Text := c.mnemonic.text ++ operandsText c.operands

def command (c : WrittenCommand) : Command := ⟨c.mnemonic.word.upper, c.operands.map Padded.word⟩

end WrittenCommand

/-- A way to write a line, with a colon behind each label and a semicolon before the comment. -/
structure Written where
  labels : List (Padded fun t => isName t = true)
  command : Option WrittenCommand
  trailing : Text
  comment : Option Text
  blank_trailing : ∀ g ∈ trailing, g.isBlank = true

namespace Written

def body (w : Written) : Text := w.command.elim [] WrittenCommand.text ++ w.trailing

def text (w : Written) : Text :=
  (w.labels.flatMap fun p => p.text ++ [colon]) ++ w.body ++ w.comment.elim [] (.char ';' :: ·)

def line (w : Written) : Line := ⟨w.labels.map Padded.word, w.command.map WrittenCommand.command⟩

end Written

namespace Padded

variable {Kind : Text → Prop}

theorem notMem_text {p : Padded Kind} {g : Glyph} (hblank : g.isBlank = false) (hword : g ∉ p.word) :
    g ∉ p.text := by
  rw [text, List.mem_append, List.mem_append]
  rintro (hg | hg | hg)
  · exact Text.notMem_blank p.blank_before hblank hg
  · exact hword hg
  · exact Text.notMem_blank p.blank_behind hblank hg

theorem map_spaced_text (p : Padded IsWord) : p.text.map spaced = p.text :=
  map_spaced (notMem_text rfl fun hcomma => (p.kind.2 _ hcomma).2.1 rfl)

theorem words_text (p : Padded IsWord) : Text.words p.text = [p.word] := by
  rw [text, Text.words_blank_append p.blank_before, Text.words_append_blank p.blank_behind, p.kind.words_eq]

end Padded

theorem operandsText_singleton (p : Padded IsWord) : operandsText [p] = p.text := List.intercalate_singleton

theorem operandsText_cons_cons (p q : Padded IsWord) (ps : List (Padded IsWord)) :
    operandsText (p :: q :: ps) = p.text ++ .char ',' :: operandsText (q :: ps) := by
  simp [operandsText, List.intercalate_cons_cons]

theorem words_operandsText (ps : List (Padded IsWord)) :
    Text.words ((operandsText ps).map spaced) = ps.map Padded.word := by
  induction ps with
  | nil => rfl
  | cons p ps ih =>
    cases ps with
    | nil =>
      rw [operandsText_singleton, p.map_spaced_text, p.words_text]
      rfl
    | cons q ps =>
      have hspace : (spaced (.char ',')).isBlank = true := rfl
      rw [operandsText_cons_cons, List.map_append, List.map_cons, Text.words_append _ _ hspace, ih,
        p.map_spaced_text, p.words_text]
      rfl

theorem mem_operandsText {ps : List (Padded IsWord)} {g : Glyph} (h : g ∈ operandsText ps) :
    g = .char ',' ∨ ∃ p ∈ ps, g ∈ p.text := by
  induction ps with
  | nil => cases h
  | cons p ps ih =>
    cases ps with
    | nil =>
      rw [operandsText_singleton] at h
      exact .inr ⟨p, List.mem_cons_self, h⟩
    | cons q ps =>
      rw [operandsText_cons_cons, List.mem_append, List.mem_cons] at h
      rcases h with hg | hcomma | hrest
      · exact .inr ⟨p, List.mem_cons_self, hg⟩
      · exact .inl hcomma
      · rcases ih hrest with hcomma | ⟨r, hr, hg⟩
        · exact .inl hcomma
        · exact .inr ⟨r, List.mem_cons_of_mem p hr, hg⟩

theorem exists_operandsText_eq (p : Padded IsWord) (ps : List (Padded IsWord)) :
    ∃ rest, operandsText (p :: ps) = p.before ++ rest := by
  cases ps with
  | nil => exact ⟨_, operandsText_singleton p⟩
  | cons q ps =>
    rw [operandsText_cons_cons, Padded.text, List.append_assoc]
    exact ⟨_, rfl⟩

namespace WrittenCommand

theorem words_text (c : WrittenCommand) :
    Text.words (c.text.map spaced) = c.mnemonic.word :: c.operands.map Padded.word := by
  have hwords := words_operandsText c.operands
  rw [text, List.map_append, c.mnemonic.map_spaced_text]
  cases hoperands : c.operands with
  | nil => exact (congrArg Text.words (List.append_nil _)).trans c.mnemonic.words_text
  | cons p ps =>
    rw [hoperands] at hwords
    obtain ⟨rest, hrest⟩ := exists_operandsText_eq p ps
    have hgap : c.mnemonic.behind ++ p.before ≠ [] := by
      rw [ne_eq, List.append_eq_nil_iff, not_and_or]
      exact c.apart p (by rw [hoperands]; rfl)
    have hblank : ∀ g ∈ c.mnemonic.behind ++ p.before, g.isBlank = true :=
      List.forall_mem_append.mpr ⟨c.mnemonic.blank_behind, p.blank_before⟩
    rw [hrest, List.map_append, map_spaced_blank p.blank_before] at hwords ⊢
    rw [Text.words_blank_append p.blank_before] at hwords
    calc Text.words (c.mnemonic.text ++ (p.before ++ rest.map spaced))
        = Text.words (c.mnemonic.before ++ c.mnemonic.word ++
            (c.mnemonic.behind ++ p.before ++ rest.map spaced)) := by
          simp only [Padded.text, List.append_assoc]
      _ = Text.words (c.mnemonic.before ++ c.mnemonic.word) ++ Text.words (rest.map spaced) :=
          Text.words_append_pad hgap hblank _ _
      _ = c.mnemonic.word :: (p :: ps).map Padded.word := by
          rw [hwords, Text.words_blank_append c.mnemonic.blank_before, c.mnemonic.kind.words_eq]
          rfl

theorem commandOf_text (c : WrittenCommand) : commandOf c.text = some c.command := by
  rw [commandOf, c.words_text]
  rfl

theorem mem_text {c : WrittenCommand} {g : Glyph} (h : g ∈ c.text) :
    g = .char ',' ∨ ∃ p ∈ c.mnemonic :: c.operands, g ∈ p.text := by
  rcases List.mem_append.mp h with hg | hg
  · exact .inr ⟨c.mnemonic, List.mem_cons_self, hg⟩
  rcases mem_operandsText hg with rfl | ⟨p, hp, hg⟩
  · exact .inl rfl
  · exact .inr ⟨p, List.mem_cons_of_mem _ hp, hg⟩

end WrittenCommand

namespace Written

theorem notMem_body (w : Written) {g : Glyph} (hblank : g.isBlank = false) (hcomma : g ≠ .char ',')
    (hword : ∀ t, IsWord t → g ∉ t) : g ∉ w.body := by
  rw [body, List.mem_append]
  rintro (hg | hg)
  · cases hcommand : w.command with
    | none => rw [hcommand] at hg; cases hg
    | some c =>
      rw [hcommand] at hg
      rcases c.mem_text hg with rfl | ⟨p, -, hg⟩
      · exact hcomma rfl
      · exact Padded.notMem_text hblank (hword _ p.kind) hg
  · exact Text.notMem_blank w.blank_trailing hblank hg

theorem commandOf_body (w : Written) : commandOf w.body = w.command.map WrittenCommand.command := by
  have hbody := commandOf_between (by simp : ∀ g ∈ ([] : Text), g.isBlank = true) w.blank_trailing
    (w.command.elim [] WrittenCommand.text)
  rw [body, ← List.nil_append (w.command.elim _ _), hbody]
  cases w.command with
  | none => rfl
  | some c => exact c.commandOf_text

end Written

/-- One label is taken off with the blanks around it, whatever is trimmed behind its colon. -/
theorem takeLabels_trim (p : Padded fun t => isName t = true) (found : List Text) (after : Text) :
    takeLabels found (Text.trim (p.text ++ colon :: after)) =
      takeLabels (p.word :: found) (Text.trim after) := by
  have hword := isWord_of_isName p.kind
  obtain ⟨inner, back, htrim, rfl, hback⟩ :=
    Text.trim_append_cons (hword.head_notBlank p.behind) (rfl : colon.isBlank = false) after
  rw [Padded.text, List.append_assoc, Text.trim_blank_append p.blank_before, htrim,
    takeLabels_padded hword p.kind p.blank_behind, Text.trim_append_blank hback]

theorem takeLabels_written (labels : List (Padded fun t => isName t = true)) {body : Text}
    (hbody : colon ∉ body) (found : List Text) :
    takeLabels found (Text.trim ((labels.flatMap fun p => p.text ++ [colon]) ++ body)) =
      .ok (found.reverse ++ labels.map Padded.word, Text.trim body) := by
  induction labels generalizing found with
  | nil =>
    rw [List.flatMap_nil, List.nil_append, takeLabels_of_notMem fun h => hbody (Text.mem_of_mem_trim h)]
    simp
  | cons p labels ih =>
    rw [List.flatMap_cons, List.append_assoc, List.append_assoc, List.singleton_append, takeLabels_trim, ih]
    simp

theorem beforeComment_append {t : Text} (h : .char ';' ∉ t) (comment : Option Text) :
    beforeComment (t ++ comment.elim [] (.char ';' :: ·)) = t := by
  have hkept := List.takeWhile_eq_self_iff.mp (beforeComment_of_notMem h)
  rw [beforeComment, List.takeWhile_append_of_pos hkept]
  cases comment with
  | none => exact List.append_nil t
  | some comment => exact List.append_nil t

namespace Written

theorem parse_text (w : Written) : parse w.text = .ok w.line := by
  have hcolon : colon ∉ w.body := w.notMem_body rfl (by decide) fun t ht hmem => (ht.2 _ hmem).2.2.1 rfl
  have hcomment : .char ';' ∉ (w.labels.flatMap fun p => p.text ++ [colon]) ++ w.body := by
    rw [List.mem_append, List.mem_flatMap]
    rintro (⟨p, -, hmem⟩ | hmem)
    · rcases List.mem_append.mp hmem with hmem | hmem
      · exact Padded.notMem_text rfl (fun hmem => ((isWord_of_isName p.kind).2 _ hmem).2.2.2 rfl) hmem
      · exact absurd (List.mem_singleton.mp hmem) (by decide)
    · exact w.notMem_body rfl (by decide) (fun t ht hmem => (ht.2 _ hmem).2.2.2 rfl) hmem
  rw [parse, text, beforeComment_append hcomment, takeLabels_written w.labels hcolon]
  simp only [commandOf_trim, w.commandOf_body]
  rfl

end Written

/-- How labels are taken off a text, in so many rounds as there are labels. -/
inductive TakesLabels : Nat → Text → Except LineFault (List Text × Text) → Prop
  | plain {t : Text} (hcolon : colon ∉ t) : TakesLabels 0 t (.ok ([], t))
  | command {front after : Text} (hcolon : colon ∉ front)
      (hfront : front = [] ∨ (Text.trim front).any isSpaceOrTab = true) :
      TakesLabels 0 (front ++ colon :: after) (.ok ([], front ++ colon :: after))
  | refused {front after : Text} (hcolon : colon ∉ front) (hne : front ≠ [])
      (hfront : (Text.trim front).any isSpaceOrTab = false) (hname : isName (Text.trim front) = false) :
      TakesLabels 0 (front ++ colon :: after) (.error (.invalidLabel (Text.trim front)))
  | label {front after : Text} {n : Nat} {r : Except LineFault (List Text × Text)} (hcolon : colon ∉ front)
      (hname : isName (Text.trim front) = true) (h : TakesLabels n (Text.trim after) r) :
      TakesLabels (n + 1) (front ++ colon :: after) (r.map fun p => (Text.trim front :: p.1, p.2))

theorem split_colon {t after : Text} {g : Glyph} (h : t.dropWhile (· ≠ colon) = g :: after) :
    t = t.takeWhile (· ≠ colon) ++ colon :: after ∧ colon ∉ t.takeWhile (· ≠ colon) := by
  have hne : t.dropWhile (· ≠ colon) ≠ [] := by rw [h]; exact List.cons_ne_nil _ _
  have hcolon : g = colon := by
    have hhead := List.head_dropWhile_not (fun x : Glyph => decide (x ≠ colon)) hne
    simp only [h, List.head_cons] at hhead
    exact of_not_not (of_decide_eq_false hhead)
  subst hcolon
  constructor
  · rw [← h, List.takeWhile_append_dropWhile]
  · intro hmem
    exact absurd (List.mem_takeWhile_imp hmem) (by simp)

theorem TakesLabels.le_count {n : Nat} {t : Text} {r : Except LineFault (List Text × Text)}
    (h : TakesLabels n t r) :
    n ≤ t.count colon := by
  induction h with
  | plain => exact Nat.zero_le _
  | command => exact Nat.zero_le _
  | refused => exact Nat.zero_le _
  | @label front after n r hcolon hname h ih =>
    obtain ⟨ahead, back, hafter, -, -⟩ := Text.exists_eq_append_trim after
    have hcount : (Text.trim after).count colon ≤ after.count colon := by
      conv => rhs; rw [hafter]
      simp only [List.count_append]
      omega
    rw [List.count_append, List.count_cons_self]
    omega

/-- The loop comes to an end on every text. The labels found before are in front of those it takes off. -/
theorem exists_takesLabels (found : List Text) (t : Text) :
    ∃ n r, TakesLabels n t r ∧ takeLabels found t = r.map fun p => (found.reverse ++ p.1, p.2) := by
  fun_induction takeLabels found t with
  | case1 found t hdrop =>
    refine ⟨0, _, .plain ?_, by rw [Except.map, List.append_nil]⟩
    intro hmem
    exact absurd (List.dropWhile_eq_nil_iff.mp hdrop colon hmem) (by simp)
  | case2 found t g after hdrop name hstop =>
    obtain ⟨ht, hcolon⟩ := split_colon hdrop
    refine ⟨0, .ok ([], t), ?_, by rw [Except.map, List.append_nil]⟩
    rw [ht]
    refine .command hcolon ?_
    rcases Bool.or_eq_true_iff.mp hstop with hhead | hspace
    · cases hfront : t.takeWhile (· ≠ colon) with
      | nil => exact .inl rfl
      | cons first front =>
        rw [ht, hfront] at hhead
        have hfirst : first = colon := by simpa using hhead
        rw [hfront, hfirst] at hcolon
        exact absurd List.mem_cons_self hcolon
    · exact .inr hspace
  | case3 found t g after hdrop name hstop hname ih =>
    obtain ⟨ht, hcolon⟩ := split_colon hdrop
    obtain ⟨n, r, htakes, hr⟩ := ih
    refine ⟨n + 1, r.map fun p => (name :: p.1, p.2), ?_, ?_⟩
    · rw [ht]
      exact .label hcolon hname htakes
    · rw [hr]
      cases r with
      | error e => rfl
      | ok p => simp [Except.map]
  | case4 found t g after hdrop name hstop hname =>
    obtain ⟨ht, hcolon⟩ := split_colon hdrop
    refine ⟨0, .error (.invalidLabel name), ?_, rfl⟩
    rw [ht]
    rw [Bool.or_eq_true, not_or, decide_eq_true_eq, Bool.not_eq_true] at hstop
    refine .refused hcolon ?_ hstop.2 (Bool.not_eq_true _ ▸ hname)
    intro hnil
    rw [ht, hnil] at hstop
    exact hstop.1 rfl

/-- A line is read as its labels and its command, however it is written, and labels are taken off any text
in no more rounds than it has colons. -/
theorem parse_written :
    (∀ w : Written, parse w.text = .ok w.line) ∧
      ∀ t, ∃ n, n ≤ t.count colon ∧ TakesLabels n t (takeLabels [] t) := by
  refine ⟨Written.parse_text, ?_⟩
  intro t
  obtain ⟨n, r, htakes, hr⟩ := exists_takesLabels [] t
  have hsame : takeLabels [] t = r := by
    rw [hr]
    cases r with
    | error e => rfl
    | ok p => rfl
  exact ⟨n, htakes.le_count, hsame ▸ htakes⟩

theorem parse_written_spread :
    ∃ w : Written, w.text = ("\u00a0a :b.1:\tmov  rax ,5 ;x: y" : Text) ∧
      parse w.text = .ok ⟨[("a" : Text), ("b.1" : Text)], some ⟨"MOV", [("rax" : Text), ("5" : Text)]⟩⟩ := by
  refine ⟨⟨[⟨"\u00a0", "a", " ", by decide, by decide, by decide⟩,
    ⟨"", "b.1", "", by decide, by decide, by decide⟩],
    some ⟨⟨"\t", "mov", " ", by decide, by decide, by decide⟩,
      [⟨" ", "rax", " ", by decide, by decide, by decide⟩, ⟨"", "5", " ", by decide, by decide, by decide⟩],
      fun p hp => .inl (by decide)⟩, "", some "x: y", by decide⟩, rfl, ?_⟩
  exact parse_written.1 _

end Line

end StepLang
