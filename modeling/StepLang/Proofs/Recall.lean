import StepLang.Proofs.Placeless
import StepLang.Proofs.Transcripts

/-!
# Entries in the history

The history keeps an entry on one line, with a blank for each line break. Both divide tokens, but a line
break also ends a comment and a blank does not. So the kept line is compiled as the entry was, unless a
comment stands before the last line of the entry: then what is left in front of the comment is an entry that
was not complete.
-/

namespace StepLang

theorem exists_first_cut {α : Type} (p : α → Prop) [DecidablePred p] (l : List α) :
    ∃ front back : List α, l = front ++ back ∧ (∀ x ∈ front, ¬ p x) ∧ ∀ x ∈ back.head?, p x := by
  refine ⟨l.takeWhile (¬ p ·), l.dropWhile (¬ p ·), List.takeWhile_append_dropWhile.symm, ?_, ?_⟩
  · intro x hx
    have hnot := List.mem_takeWhile_imp hx
    exact of_decide_eq_true hnot
  · intro x hx
    have hhead := List.head?_dropWhile_not (¬ p ·) l
    rw [Option.mem_def.mp hx] at hhead
    exact Decidable.not_not.mp (of_decide_eq_false hhead)

theorem Glyph.eq_of_toChar {g : Glyph} {c : Char} (hc : c ≠ '\uFFFD') (h : g.toChar = c) : g = .char c := by
  cases g with
  | char d => exact congrArg Glyph.char h
  | stray b => exact absurd h.symm hc

namespace Text

theorem newline_notMem_of_mem_streamLines {t line : Text} (h : line ∈ t.streamLines) : newline ∉ line := by
  have hended : ∀ l ∈ t.lines.dropLast.map fun l => if l.getLast? = some (.char '\r') then l.dropLast else l,
      newline ∉ l := by
    intro l hl
    obtain ⟨whole, hwhole, rfl⟩ := List.mem_map.mp hl
    have hnot := newline_notMem_of_mem_lines (List.dropLast_subset _ hwhole)
    by_cases hreturn : whole.getLast? = some (.char '\r')
    · rw [if_pos hreturn]
      intro hmem
      exact hnot (List.dropLast_subset _ hmem)
    · rw [if_neg hreturn]
      exact hnot
  rw [streamLines] at h
  cases hlast : t.lines.getLast? with
  | none =>
    simp only [hlast] at h
    exact hended line h
  | some last =>
    cases last with
    | nil =>
      simp only [hlast] at h
      exact hended line h
    | cons g last =>
      simp only [hlast] at h
      rcases List.mem_append.mp h with h | h
      · exact hended line h
      · rw [List.mem_singleton.mp h]
        exact newline_notMem_of_mem_lines (List.mem_of_getLast? hlast)

/-- Nothing, or a comment that no line break ends. -/
structure IsRemark (t : Text) : Prop where
  unended : newline ∉ t
  comment : ∀ g ∈ t.head?, g = .char ';'

theorem exists_uncommented (t : Text) :
    ∃ front back : Text, t = front ++ back ∧ .char ';' ∉ front ∧ ∀ g ∈ back.head?, g = .char ';' := by
  obtain ⟨front, back, ht, hfront, hback⟩ := exists_first_cut (· = Glyph.char ';') t
  exact ⟨front, back, ht, fun hmem => hfront _ hmem rfl, hback⟩

end Text

namespace Dialogue

theorem flattened_newline (t : Text) : flattened (Text.newline :: t) = .char ' ' :: flattened t := rfl

theorem flattened_cons {g : Glyph} (h : g ≠ Text.newline) (t : Text) :
    flattened (g :: t) = g :: flattened t := by
  rw [flattened, List.map_cons, if_neg h]
  rfl

theorem flattened_append (a b : Text) : flattened (a ++ b) = flattened a ++ flattened b := List.map_append

theorem newline_notMem_flattened (t : Text) : Text.newline ∉ flattened t := by
  intro hmem
  obtain ⟨g, _, hg⟩ := List.mem_map.mp hmem
  by_cases hbreak : g = Text.newline
  · rw [if_pos hbreak] at hg
    cases hg
  · rw [if_neg hbreak] at hg
    exact hbreak hg

theorem flattened_of_notMem {t : Text} (h : Text.newline ∉ t) : flattened t = t := by
  rw [flattened, List.map_congr_left (fun g hg => if_neg (ne_of_mem_of_not_mem hg h)), List.map_id']

end Dialogue

namespace Scanner

theorem step_blank {s : Scanner} {c : Char} (hmode : s.mode ≠ .comment) (hc : Text.isBlank c = true) :
    s.step c = .ok ⟨s.pos.after c, .gap, s.closed⟩ := by
  rw [step_delimiter hmode (by simp [isDelimiter, hc]), enter, if_pos hc]

theorem mode_of_enter {pos : Position} {tokens : List Token} {c : Char} {next : Scanner}
    (h : enter pos tokens c = .ok next) (hc : c ≠ ';') : next.mode ≠ .comment := by
  rcases enter_cases h with ⟨_, rfl⟩ | ⟨rfl, _⟩ | ⟨_, rfl⟩ | ⟨_, rfl⟩ | ⟨_, rfl⟩
  · exact gap_ne_comment
  · exact absurd rfl hc
  · exact gap_ne_comment
  · exact gap_ne_comment
  · intro hmode
    cases hmode

theorem mode_of_step {s next : Scanner} {c : Char} (h : s.step c = .ok next) (hmode : s.mode ≠ .comment)
    (hc : c ≠ ';') : next.mode ≠ .comment := by
  obtain ⟨pos, mode, tokens⟩ := s
  cases mode with
  | gap => exact mode_of_enter h hc
  | comment => exact absurd rfl hmode
  | atom start read =>
    simp only [step] at h
    by_cases hdelimiter : isDelimiter c = true
    · rw [if_pos hdelimiter] at h
      exact mode_of_enter h hc
    · rw [if_neg hdelimiter] at h
      cases h
      intro hatom
      cases hatom

/-- A comment that no line break ends goes on to the end of input. -/
theorem run_comment {cs : List Char} (h : '\n' ∉ cs) (pos : Position) (tokens : List Token) :
    ∃ last, run ⟨pos, .comment, tokens⟩ cs = .ok (tokens.reverse ++ [⟨.eof, [], last⟩]) := by
  induction cs generalizing pos with
  | nil => exact ⟨pos, by rw [run, finish, List.reverse_cons]; rfl⟩
  | cons c cs ih =>
    obtain ⟨hc, hcs⟩ := List.ne_and_not_mem_of_not_mem_cons h
    have hstep : step ⟨pos, .comment, tokens⟩ c = .ok ⟨pos.after c, .comment, tokens⟩ := by
      simp only [step, if_neg (Ne.symm hc)]
    rw [run, hstep]
    exact ih hcs (pos.after c)

theorem run_remark {s : Scanner} (hmode : s.mode ≠ .comment) {t : Text} (h : t.IsRemark) :
    ∃ last, s.run (t.map Glyph.toChar) = .ok (s.closed.reverse ++ [⟨.eof, [], last⟩]) := by
  cases t with
  | nil => exact ⟨s.pos, by rw [List.map_nil, run, finish, List.reverse_cons]⟩
  | cons g t =>
    obtain rfl := h.comment g rfl
    have hstep : s.step ';' = .ok ⟨s.pos.after ';', .comment, s.closed⟩ := by
      rw [step_delimiter hmode rfl]
      rfl
    have hunended : '\n' ∉ t.map Glyph.toChar := by
      intro hmem
      obtain ⟨g, hg, hchar⟩ := List.mem_map.mp hmem
      rw [Glyph.eq_of_toChar (by decide) hchar] at hg
      exact h.unended (List.mem_cons_of_mem _ hg)
    obtain ⟨last, hrun⟩ := run_comment hunended (s.pos.after ';') s.closed
    refine ⟨last, ?_⟩
    rw [List.map_cons, Glyph.toChar, run, hstep]
    exact hrun

/-- In front of the first comment the line breaks may be blanks. -/
theorem run_flattened {s t : Scanner} (h : s.unplaced = t.unplaced) (hmode : s.mode ≠ .comment)
    {front a b : Text} (hfront : .char ';' ∉ front) (ha : a.IsRemark) (hb : b.IsRemark) :
    unplacing (List.map Token.unplaced) (t.run ((Dialogue.flattened front ++ b).map Glyph.toChar)) =
      unplacing (List.map Token.unplaced) (s.run ((front ++ a).map Glyph.toChar)) := by
  induction front generalizing s t with
  | nil =>
    obtain ⟨last, hs⟩ := run_remark hmode ha
    obtain ⟨last', ht⟩ := run_remark (mode_ne_comment h hmode) hb
    rw [List.nil_append, hs, Dialogue.flattened, List.map_nil, List.nil_append, ht]
    simp only [unplacing, List.map_append, List.map_reverse, closed_congr h]
    rfl
  | cons g front ih =>
    obtain ⟨hg, hrest⟩ := List.ne_and_not_mem_of_not_mem_cons hfront
    by_cases hbreak : g = Text.newline
    · subst hbreak
      have hnext :
          unplaced ⟨s.pos.after '\n', .gap, s.closed⟩ = unplaced ⟨t.pos.after ' ', .gap, t.closed⟩ := by
        rw [unplaced, unplaced, closed_congr h]
      rw [Dialogue.flattened_newline, List.cons_append, List.cons_append, List.map_cons,
        List.map_cons, run, run, Text.newline, Glyph.toChar, Glyph.toChar, step_blank hmode rfl,
        step_blank (mode_ne_comment h hmode) rfl]
      exact ih hnext gap_ne_comment hrest
    · have hchar : g.toChar ≠ ';' := by
        intro hchar
        exact hg (Glyph.eq_of_toChar (by decide) hchar).symm
      have hstep := step_congr h.symm g.toChar
      rw [Dialogue.flattened_cons hbreak, List.cons_append, List.cons_append, List.map_cons,
        List.map_cons, run, run]
      cases hs : s.step g.toChar with
      | error e =>
        rw [hs] at hstep
        obtain ⟨e', ht, he⟩ := unplacing_eq_error hstep
        rw [ht]
        exact congrArg Except.error he
      | ok next =>
        rw [hs] at hstep
        obtain ⟨next', ht, hnext⟩ := unplacing_eq_ok hstep
        rw [ht]
        exact ih hnext.symm (mode_of_step hs hmode hchar) hrest

end Scanner

/-- What is read is told by the text in front of the first comment, on one line or on several. -/
theorem Datum.read_flattened {front a b : Text} (hfront : .char ';' ∉ front) (ha : a.IsRemark)
    (hb : b.IsRemark) :
    unplacing unplaced (read (Dialogue.flattened front ++ b)) = unplacing unplaced (read (front ++ a)) :=
  read_congr (Scanner.run_flattened rfl Scanner.gap_ne_comment hfront ha hb)

theorem Session.read_of_unfinished {entry : Text} (h : isComplete entry = false) :
    ∃ e, Datum.read entry = .error e ∧ e.isIncomplete = true := by
  obtain ⟨hcommand, _⟩ := Bool.or_eq_false_iff.mp h
  apply Classical.byContradiction
  intro hnot
  rw [(isComplete_iff hcommand).mpr hnot] at h
  cases h

namespace Dialogue

theorem joined_cons_cons (line next : Text) (ls : List Text) :
    joined (line :: next :: ls) = line ++ Text.newline :: joined (next :: ls) := by
  simp [joined, List.intercalate_cons_cons]

theorem joined_append (ls : List Text) {more : List Text} (h : more ≠ []) :
    joined (ls ++ more) = Text.unlines ls ++ joined more := by
  induction ls with
  | nil => rfl
  | cons line ls ih =>
    obtain ⟨first, rest, hrest⟩ := List.exists_cons_of_ne_nil (List.append_ne_nil_of_right_ne_nil ls h)
    rw [List.cons_append, hrest, joined_cons_cons, ← hrest, ih]
    simp [Text.unlines]

theorem notMem_unlines {ls : List Text} {g : Glyph} (hg : g ≠ Text.newline) (h : ∀ line ∈ ls, g ∉ line) :
    g ∉ Text.unlines ls := by
  intro hmem
  obtain ⟨line, hline, hmem⟩ := List.mem_flatMap.mp hmem
  rcases List.mem_append.mp hmem with hmem | hmem
  · exact h line hline hmem
  · exact hg (List.mem_singleton.mp hmem)

theorem uncommented_append {inner : List Text} {front : Text} (hinner : ∀ line ∈ inner, .char ';' ∉ line)
    (hfront : .char ';' ∉ front) : Glyph.char ';' ∉ Text.unlines inner ++ front := by
  intro hmem
  rcases List.mem_append.mp hmem with hmem | hmem
  · exact notMem_unlines (by decide) hinner hmem
  · exact hfront hmem

/-- Where all comments are in the last line, the kept line is read as the entry. -/
theorem read_kept {ls : List Text} (hne : ls ≠ []) (hls : ∀ line ∈ ls, Text.newline ∉ line)
    (h : ∀ line ∈ ls.dropLast, .char ';' ∉ line) :
    unplacing Datum.unplaced (Datum.read (flattened (joined ls))) =
      unplacing Datum.unplaced (Datum.read (joined ls)) := by
  obtain ⟨inner, last, rfl⟩ := (List.eq_nil_or_concat' ls).resolve_left hne
  rw [List.dropLast_concat] at h
  obtain ⟨front, remark, rfl, hfront, hremark⟩ := Text.exists_uncommented last
  have hunended : Text.newline ∉ remark := by
    intro hmem
    exact hls (front ++ remark) (by simp) (List.mem_append_right front hmem)
  rw [joined_append inner (by simp), joined_singleton, ← List.append_assoc, flattened_append,
    flattened_of_notMem hunended]
  exact Datum.read_flattened (uncommented_append h hfront) ⟨hunended, hremark⟩ ⟨hunended, hremark⟩

/-- Where a comment stands before the last line, the kept line is read as the lines up to the first
comment. -/
theorem read_commented {pre later : List Text} {line : Text} (hlater : later ≠ [])
    (hline : Text.newline ∉ line) (hpre : ∀ l ∈ pre, .char ';' ∉ l) (hcomment : .char ';' ∈ line) :
    unplacing Datum.unplaced (Datum.read (flattened (joined (pre ++ line :: later)))) =
      unplacing Datum.unplaced (Datum.read (joined (pre ++ [line]))) := by
  obtain ⟨front, remark, rfl, hfront, hremark⟩ := Text.exists_uncommented line
  cases remark with
  | nil =>
    rw [List.append_nil] at hcomment
    exact absurd hcomment hfront
  | cons g remark =>
    obtain rfl := hremark g rfl
    have hunended : Text.newline ∉ Glyph.char ';' :: remark := by
      intro hmem
      exact hline (List.mem_append_right front hmem)
    obtain ⟨first, rest, rfl⟩ := List.exists_cons_of_ne_nil hlater
    have hjoined : joined ((front ++ .char ';' :: remark) :: first :: rest) =
        front ++ .char ';' :: (remark ++ Text.newline :: joined (first :: rest)) := by
      rw [joined_cons_cons, List.append_assoc, List.cons_append]
    have hkept :
        Text.IsRemark (flattened (.char ';' :: (remark ++ Text.newline :: joined (first :: rest)))) := by
      refine ⟨newline_notMem_flattened _, ?_⟩
      intro g hg
      cases hg
      rfl
    rw [joined_append pre (by simp), joined_append pre (by simp), joined_singleton, hjoined,
      ← List.append_assoc, ← List.append_assoc, flattened_append]
    exact Datum.read_flattened (uncommented_append hpre hfront) ⟨hunended, hremark⟩ hkept

theorem exists_first_comment {ls : List Text} (h : ∃ line ∈ ls, .char ';' ∈ line) :
    ∃ pre line later, ls = pre ++ line :: later ∧ .char ';' ∈ line ∧ ∀ l ∈ pre, .char ';' ∉ l := by
  obtain ⟨pre, back, rfl, hpre, hback⟩ := exists_first_cut (Glyph.char ';' ∈ ·) ls
  cases back with
  | nil =>
    obtain ⟨line, hline, hcomment⟩ := h
    rw [List.append_nil] at hline
    exact absurd hcomment (hpre line hline)
  | cons line later => exact ⟨pre, line, later, rfl, hback line rfl, hpre⟩

/-- Of an entry with a comment before its last line the kept line holds a part only, and that was not
complete. -/
theorem IsEntry.kept_unfinished {ls : List Text} (hentry : IsEntry ls)
    (hls : ∀ line ∈ ls, Text.newline ∉ line) (h : ∃ line ∈ ls.dropLast, .char ';' ∈ line) :
    ∃ e, Datum.read (flattened (joined ls)) = .error e ∧ e.isIncomplete = true := by
  obtain ⟨inner, last, rfl⟩ := (List.eq_nil_or_concat' ls).resolve_left hentry.nonempty
  rw [List.dropLast_concat] at h
  obtain ⟨pre, line, mid, rfl, hcomment, hpre⟩ := exists_first_comment h
  rw [List.append_assoc, List.cons_append] at hls hentry ⊢
  have hshort : Session.isComplete (joined (pre ++ [line])) = false := by
    apply hentry.shortest
    · exact ⟨mid ++ [last], by simp⟩
    · simp
    · simp
  obtain ⟨e, hread, hincomplete⟩ := Session.read_of_unfinished hshort
  have hkept := read_commented (by simp : mid ++ [last] ≠ []) (hls line (by simp)) hpre hcomment
  rw [hread] at hkept
  obtain ⟨e', hread', he⟩ := unplacing_eq_error hkept
  refine ⟨e', hread', ?_⟩
  rw [← e'.isIncomplete_unplaced, he, e.isIncomplete_unplaced, hincomplete]

/-- The line that the history keeps is compiled as the entry is unless a comment stands before the last line
of the entry. Then it is no complete entry, whatever the entry was. -/
theorem compile_flattened {input : Text} {ls : List Text} (hlines : ls <:+: input.streamLines)
    (hentry : IsEntry ls) :
    ((∀ line ∈ ls.dropLast, .char ';' ∉ line) →
      ∀ code, compile (flattened (joined ls)) = .ok code ↔ compile (joined ls) = .ok code) ∧
    ((∃ line ∈ ls.dropLast, .char ';' ∈ line) →
      ∃ e, compile (flattened (joined ls)) = .error (.read e) ∧ e.isIncomplete = true) := by
  have hls : ∀ line ∈ ls, Text.newline ∉ line := by
    intro line hline
    exact Text.newline_notMem_of_mem_streamLines (hlines.subset hline)
  constructor
  · intro h code
    have hread := read_kept hentry.nonempty hls h
    exact ⟨compile_congr hread.symm, compile_congr hread⟩
  · intro h
    obtain ⟨e, hread, hincomplete⟩ := hentry.kept_unfinished hls h
    refine ⟨e, ?_, hincomplete⟩
    simp only [compile, Expr.parse, hread]

theorem compile_flattened_last_comment :
    [("(add1 [sub1" : Text), "-7]) ; c"] <:+: Text.streamLines "(add1 [sub1\n-7]) ; c\n" ∧
      IsEntry [("(add1 [sub1" : Text), "-7]) ; c"] ∧
      ∃ code, compile "(add1 [sub1\n-7]) ; c" = .ok code ∧ compile "(add1 [sub1 -7]) ; c" = .ok code := by
  have hlines : [("(add1 [sub1" : Text), "-7]) ; c"] <:+: Text.streamLines "(add1 [sub1\n-7]) ; c\n" :=
    ⟨[], [], rfl⟩
  have hfirst : Unfinished [("(add1 [sub1" : Text)] := unfinished_nil.concat rfl
  have hentry : IsEntry [("(add1 [sub1" : Text), "-7]) ; c"] := hfirst.isEntry rfl
  have hinner : ∀ line ∈ [("(add1 [sub1" : Text), "-7]) ; c"].dropLast, Glyph.char ';' ∉ line := by decide
  obtain ⟨code, hcode⟩ : ∃ code, compile "(add1 [sub1\n-7]) ; c" = .ok code := ⟨_, rfl⟩
  exact ⟨hlines, hentry, code, hcode, ((compile_flattened hlines hentry).1 hinner code).mpr hcode⟩

/-- The entry is compiled, and the line that is kept of it ends inside the bracket. -/
theorem flattened_inner_comment :
    IsEntry [("(add1 ; c" : Text), "5)"] ∧
      compile (joined [("(add1 ; c" : Text), "5)"]) = .ok [⟨"mov", "rax", Numeral.int 5⟩,
        ⟨"add", "rax", "1"⟩] ∧
      compile (flattened (joined [("(add1 ; c" : Text), "5)"])) = .error (.read ⟨⟨1, 1⟩, .unclosed "("⟩) := by
  have hfirst : Unfinished [("(add1 ; c" : Text)] := unfinished_nil.concat rfl
  exact ⟨hfirst.isEntry rfl, rfl, rfl⟩

end Dialogue

end StepLang
