import StepLang.Proofs.Compilation
import StepLang.Proofs.Completion
import StepLang.Proofs.Lines
import StepLang.Session.Dialogue

/-!
# Transcripts of dialogues

The lines of a dialogue fall into consecutive entries, each as short as completeness allows, up to a command
that quits or to the end of input, where an entry that was never completed is dropped. What is answered to
an entry depends on the entry alone, and on whether assembly is shown, which every `:asm` before it has
changed. A transcript holds all this. The lines have one transcript, and a dialogue prints what it tells.
-/

namespace StepLang

namespace Text

theorem head?_trim (t : Text) : (trim t).head? = t.find? fun g => !g.isBlank := by
  have hfirst := List.head?_dropWhile_not Glyph.isBlank t
  rw [List.find?_eq_head?_dropWhile_not]
  simp only [Bool.not_not]
  unfold trim
  cases hdrop : t.dropWhile Glyph.isBlank with
  | nil => rfl
  | cons g rest =>
    rw [hdrop] at hfirst
    obtain ⟨inner, back, htrim, -, -⟩ := @trim_append_cons [] (by simp) g hfirst rest
    rw [trim, List.nil_append, List.dropWhile_cons_of_neg (by simpa using hfirst)] at htrim
    rw [htrim]
    rfl

theorem lowerCharToAscii_notBlank {c : Char} (h : isBlank c = false) :
    isBlank (lowerCharToAscii c) = false := by
  have hascii :
      ((List.range 128).all fun n => isBlank (Char.ofNat n) || !isBlank (Char.ofNat n).toLower) = true := by
    decide +kernel
  unfold lowerCharToAscii
  split
  · rename_i hsmall
    have hc := List.all_eq_true.mp hascii c.toNat (List.mem_range.mpr hsmall)
    rw [Char.ofNat_toNat, h, Bool.false_or, Bool.not_eq_true'] at hc
    exact hc
  split
  · rfl
  split
  · rfl
  · exact h

theorem eq_colon_of_lowerCharToAscii {c : Char} (h : lowerCharToAscii c = ':') : c = ':' := by
  have hascii :
      ((List.range 128).all fun n => (Char.ofNat n).toLower != ':' || Char.ofNat n == ':') = true := by
    decide +kernel
  unfold lowerCharToAscii at h
  split at h
  · rename_i hsmall
    have hc := List.all_eq_true.mp hascii c.toNat (List.mem_range.mpr hsmall)
    rw [Char.ofNat_toNat, h] at hc
    exact eq_of_beq hc
  split at h
  · exact absurd h (by decide)
  split at h
  · exact absurd h (by decide)
  · exact h

end Text

theorem Scanner.passes_blank {cs : List Char} (h : ∀ c ∈ cs, Text.isBlank c = true) (pos : Position)
    (tokens : List Token) : ∃ last, Passes ⟨pos, .gap, tokens⟩ cs ⟨last, .gap, tokens⟩ := by
  induction cs generalizing pos with
  | nil => exact ⟨pos, .refl _⟩
  | cons c cs ih =>
    obtain ⟨hc, hcs⟩ := List.forall_mem_cons.mp h
    obtain ⟨last, hlast⟩ := ih hcs (pos.after c)
    refine ⟨last, .cons ?_ hlast⟩
    simp only [step, enter, hc, if_true]

theorem Datum.read_blank {t : Text} (h : ∀ g ∈ t, g.isBlank = true) :
    ∃ pos, read t = .error ⟨pos, .emptyInput⟩ := by
  have hchars : ∀ c ∈ t.map Glyph.toChar, Text.isBlank c = true := by
    intro c hc
    obtain ⟨g, hg, rfl⟩ := List.mem_map.mp hc
    have hblank := h g hg
    cases g with
    | char c => exact hblank
    | stray b => cases hblank
  obtain ⟨last, hpass⟩ := Scanner.passes_blank hchars .start []
  have hscan : Token.scan t = .ok [⟨.eof, [], last⟩] := hpass.run_eq
  exact ⟨last, by rw [read_of_scan hscan]; rfl⟩

namespace Session

/-- The first glyph that is not blank. -/
def opening (entry : Text) : Option Glyph := entry.find? fun g => !g.isBlank

/-- How commands are told apart: without blanks around them and without regard to case. -/
def commandName (entry : Text) : Text := Text.trim (Text.lowerToAscii (Text.trim entry))

def quits (entry : Text) : Bool := decide (commandName entry = ":quit" ∨ commandName entry = ":q")

def toggles (entry : Text) : Bool := decide (commandName entry = ":asm")

theorem trim_eq_nil_iff {entry : Text} : Text.trim entry = [] ↔ opening entry = none := by
  rw [opening, ← Text.head?_trim, List.head?_eq_none_iff]

theorem isCommand_iff {entry : Text} : isCommand entry = true ↔ opening entry = some (.char ':') := by
  rw [isCommand, Text.head?_trim, decide_eq_true_iff]
  rfl

theorem opening_of_commandName {entry rest : Text} (h : commandName entry = .char ':' :: rest) :
    opening entry = some (.char ':') := by
  have hfirst := Text.head?_trim (Text.lowerToAscii (Text.trim entry))
  rw [← commandName, h, List.head?_cons] at hfirst
  cases htrim : Text.trim entry with
  | nil =>
    rw [htrim] at hfirst
    cases hfirst
  | cons g glyphs =>
    have hopening : opening entry = some g := by rw [opening, ← Text.head?_trim, htrim, List.head?_cons]
    have hg : g.isBlank = false := by simpa using List.find?_some hopening
    have hchar : Text.isBlank g.toChar = false := by
      cases g with
      | char c => exact hg
      | stray b => rfl
    have hlower : (!(Glyph.char (Text.lowerCharToAscii g.toChar)).isBlank) = true := by
      rw [Bool.not_eq_true']
      exact Text.lowerCharToAscii_notBlank hchar
    rw [htrim, Text.lowerToAscii, List.map_cons, List.find?_cons, hlower, Option.some.injEq] at hfirst
    have hcolon := Text.eq_colon_of_lowerCharToAscii (Glyph.char.inj hfirst).symm
    cases g with
    | char c =>
      rw [hopening]
      exact congrArg (fun c => some (Glyph.char c)) hcolon
    | stray b => exact absurd hcolon (show '\uFFFD' ≠ ':' by decide)

theorem opening_of_quits {entry : Text} (h : quits entry = true) : opening entry = some (.char ':') := by
  rcases of_decide_eq_true h with h | h
  · exact opening_of_commandName h
  · exact opening_of_commandName h

theorem opening_of_toggles {entry : Text} (h : toggles entry = true) : opening entry = some (.char ':') :=
  opening_of_commandName (of_decide_eq_true h)

theorem no_command {entry : Text} (h : opening entry ≠ some (.char ':')) :
    quits entry = false ∧ toggles entry = false := by
  constructor
  · apply Bool.eq_false_iff.mpr
    intro hquit
    exact h (opening_of_quits hquit)
  · apply Bool.eq_false_iff.mpr
    intro htoggle
    exact h (opening_of_toggles htoggle)

theorem isComplete_of_blank {entry : Text} (h : ∀ g ∈ entry, g.isBlank = true) : isComplete entry = true := by
  obtain ⟨pos, hread⟩ := Datum.read_blank h
  simp [isComplete, hread, ReadError.isIncomplete]

theorem isComplete_of_opening {line : Text} (h : opening line = some (.char ':')) :
    isComplete line = true := by
  rw [isComplete, isCommand_iff.mpr h, Bool.true_or]

/-- An unfinished line is neither blank nor a command, and it is the first one to look at. -/
theorem opening_append {line : Text} (h : isComplete line = false) (more : Text) :
    opening (line ++ more) ≠ some (.char ':') := by
  intro hcommand
  rw [opening, List.find?_append] at hcommand
  cases hfind : line.find? fun g => !g.isBlank with
  | some g =>
    rw [hfind] at hcommand
    rw [isComplete_of_opening (hfind.trans hcommand)] at h
    cases h
  | none =>
    have hblank : isComplete line = true := by
      apply isComplete_of_blank
      intro g hg
      simpa using List.find?_eq_none.mp hfind g hg
    rw [hblank] at h
    cases h

/-- What a command is answered, with assembly shown before it or not. -/
def reply (shown : Bool) (name : Text) : Text :=
  if name = ":quit" ∨ name = ":q" then []
  else if name = ":asm" then if shown then "assembly output off\n" else "assembly output on\n"
  else if name = ":help" then help
  else "unknown command. Type :help for commands.\n"

theorem command_eq (s : Session) (entry : Text) :
    s.command (Text.trim entry) =
      ⟨⟨s.showAssembly != toggles entry⟩, reply s.showAssembly (commandName entry), quits entry⟩ := by
  unfold command reply quits toggles
  rw [← commandName]
  by_cases hquit : commandName entry = ":quit" ∨ commandName entry = ":q"
  · have htoggle : commandName entry ≠ ":asm" := by
      intro h
      rw [h] at hquit
      revert hquit
      decide
    rw [if_pos hquit, if_pos hquit, decide_eq_true hquit, decide_eq_false htoggle, Bool.bne_false]
  rw [if_neg hquit, if_neg hquit, decide_eq_false hquit]
  by_cases htoggle : commandName entry = ":asm"
  · rw [if_pos htoggle, if_pos htoggle, decide_eq_true htoggle, Bool.bne_true]
    cases s.showAssembly with
    | true => rfl
    | false => rfl
  rw [if_neg htoggle, if_neg htoggle, decide_eq_false htoggle, Bool.bne_false]
  split
  · rfl
  · rfl

/-- Whether assembly is shown after entries: at first it is not, and every `:asm` changes it. -/
def shownAfter (earlier : List Text) : Bool := decide (earlier.countP toggles % 2 = 1)

theorem shownAfter_concat (earlier : List Text) (entry : Text) :
    shownAfter (earlier ++ [entry]) = (shownAfter earlier != toggles entry) := by
  unfold shownAfter
  rw [List.countP_append, List.countP_singleton]
  cases toggles entry with
  | true =>
    have hmod : (earlier.countP toggles + 1) % 2 = 1 ↔ ¬ earlier.countP toggles % 2 = 1 := by omega
    rw [if_pos rfl, Bool.bne_true, ← decide_not]
    exact decide_eq_decide.mpr hmod
  | false => rw [if_neg Bool.false_ne_true, Nat.add_zero, Bool.bne_false]

theorem evaluate_of_error {entry : Text} {e : SourceError} (h : Expr.parse entry = .error e) (s : Session) :
    s.evaluate entry = ⟨[], some (.source e)⟩ := by
  simp only [evaluate, compile, h]

theorem assemblyLine_eq (line : Text) : assemblyLine line = "\x1b[94m  " ++ line ++ "\x1b[0m" := rfl

theorem evaluate_of_expr {entry : Text} {e : Expr} (h : Expr.parse entry = .ok e) (s : Session) :
    ∃ code v, e.code = .ok code ∧ e.eval = .ok v ∧
      s.evaluate entry =
        ⟨(if s.showAssembly
          then Text.unlines (code.lines.map fun line => ("\x1b[94m  " ++ line ++ "\x1b[0m" : Text))
          else []) ++ Numeral.int v.toInt ++ "\n", none⟩ := by
  obtain ⟨n, hn⟩ := Expr.literal?_parse h
  have hrun := e.execute_instructions n 0
  rw [if_neg (fun h => absurd h.1 (by decide))] at hrun
  refine ⟨_, _, Expr.code_eq hn, Expr.eval_eq hn, ?_⟩
  simp only [evaluate, compile, h, Expr.compile, Expr.code_eq hn, hrun]
  rw [funext assemblyLine_eq]

end Session

/-- What is printed for an entry: on the output, and as an error. -/
structure Response where
  output : Text
  error? : Option Text

/-- A message in red, on a line of its own. -/
def Response.complaint (r : Response) : Text :=
  match r.error? with
  | some message => "\x1b[31m" ++ message ++ "\x1b[0m\n"
  | none => []

/-- The answer to an entry, with assembly shown or not. An expression is answered by its value, behind its
instructions in blue where they are shown. -/
inductive Responds (shown : Bool) (entry : Text) : Response → Prop where
  | blank (h : Session.opening entry = none) : Responds shown entry ⟨[], none⟩
  | command (h : Session.opening entry = some (.char ':')) :
      Responds shown entry ⟨Session.reply shown (Session.commandName entry), none⟩
  | value {g : Glyph} {e : Expr} {code : Listing} {v : Int64} (h : Session.opening entry = some g)
      (hg : g ≠ .char ':') (hparse : Expr.parse entry = .ok e) (hcode : e.code = .ok code)
      (heval : e.eval = .ok v) :
      Responds shown entry
        ⟨(if shown then Text.unlines (code.lines.map fun line => ("\x1b[94m  " ++ line ++ "\x1b[0m" : Text))
          else []) ++ Numeral.int v.toInt ++ "\n", none⟩
  | refused {g : Glyph} {e : SourceError} (h : Session.opening entry = some g) (hg : g ≠ .char ':')
      (hparse : Expr.parse entry = .error e) : Responds shown entry ⟨[], some e.message⟩

theorem Responds.unique {shown : Bool} {entry : Text} {r s : Response} (hr : Responds shown entry r)
    (hs : Responds shown entry s) : r = s := by
  cases hr with
  | blank h =>
    cases hs with
    | blank => rfl
    | command h' => cases h.symm.trans h'
    | value h' => cases h.symm.trans h'
    | refused h' => cases h.symm.trans h'
  | command h =>
    cases hs with
    | blank h' => cases h.symm.trans h'
    | command => rfl
    | value h' hg => exact absurd (Option.some.inj (h'.symm.trans h)) hg
    | refused h' hg => exact absurd (Option.some.inj (h'.symm.trans h)) hg
  | value h hg hparse hcode heval =>
    cases hs with
    | blank h' => cases h.symm.trans h'
    | command h' => exact absurd (Option.some.inj (h.symm.trans h')) hg
    | value _ _ hparse' hcode' heval' =>
      rw [hparse, Except.ok.injEq] at hparse'
      subst hparse'
      rw [hcode, Except.ok.injEq] at hcode'
      rw [heval, Except.ok.injEq] at heval'
      rw [hcode', heval']
    | refused _ _ hparse' => cases hparse.symm.trans hparse'
  | refused h hg hparse =>
    cases hs with
    | blank h' => cases h.symm.trans h'
    | command h' => exact absurd (Option.some.inj (h.symm.trans h')) hg
    | value _ _ hparse' => cases hparse.symm.trans hparse'
    | refused _ _ hparse' =>
      rw [hparse, Except.error.injEq] at hparse'
      rw [hparse']

theorem Responds.of_quits {shown : Bool} {entry : Text} {r : Response} (h : Responds shown entry r)
    (hquit : Session.quits entry = true) : r = ⟨[], none⟩ := by
  rw [h.unique (.command (Session.opening_of_quits hquit)), Session.reply, if_pos (of_decide_eq_true hquit)]

namespace Dialogue

/-- Lines with a line break between each two. -/
def joined (ls : List Text) : Text := [Text.newline].intercalate ls

theorem joined_singleton (line : Text) : joined [line] = line := List.intercalate_singleton

theorem joined_concat {ls : List Text} (h : ls ≠ []) (line : Text) :
    joined (ls ++ [line]) = joined ls ++ Text.newline :: line := by
  induction ls with
  | nil => exact absurd rfl h
  | cons first ls ih =>
    cases ls with
    | nil => simp [joined]
    | cons second ls =>
      have hlater := ih (by simp)
      simp only [joined, List.cons_append, List.intercalate_cons_cons] at hlater ⊢
      rw [hlater]
      simp

/-- However many of the lines are taken, they do not make a complete entry. -/
def Unfinished (ls : List Text) : Prop :=
  ∀ front, front <+: ls → front ≠ [] → Session.isComplete (joined front) = false

/-- The lines make a complete entry, and fewer of them do not. -/
structure IsEntry (ls : List Text) : Prop where
  nonempty : ls ≠ []
  complete : Session.isComplete (joined ls) = true
  shortest : ∀ front, front <+: ls → front ≠ [] → front ≠ ls → Session.isComplete (joined front) = false

theorem unfinished_nil : Unfinished [] := by
  intro front hfront hne
  exact absurd (List.prefix_nil.mp hfront) hne

theorem Unfinished.concat {ls : List Text} {line : Text} (h : Unfinished ls)
    (hline : Session.isComplete (joined (ls ++ [line])) = false) : Unfinished (ls ++ [line]) := by
  intro front hfront hne
  rcases List.prefix_concat_iff.mp hfront with rfl | hfront
  · exact hline
  · exact h front hfront hne

theorem Unfinished.isEntry {ls : List Text} {line : Text} (h : Unfinished ls)
    (hline : Session.isComplete (joined (ls ++ [line])) = true) : IsEntry (ls ++ [line]) := by
  refine ⟨by simp, hline, ?_⟩
  intro front hfront hne hshort
  rcases List.prefix_concat_iff.mp hfront with heq | hfront
  · exact absurd heq hshort
  · exact h front hfront hne

theorem Unfinished.joined_eq_nil {ls : List Text} (h : Unfinished ls) : joined ls = [] ↔ ls = [] := by
  constructor
  · intro hjoined
    apply Classical.byContradiction
    intro hne
    have hcomplete := h ls List.prefix_rfl hne
    rw [hjoined] at hcomplete
    cases hcomplete
  · rintro rfl
    rfl

/-- The first line of an entry of several lines is unfinished, so it is no command, and neither is the
entry. -/
theorem IsEntry.length_eq_one {ls : List Text} (h : IsEntry ls)
    (hcommand : Session.opening (joined ls) = some (.char ':')) : ls.length = 1 := by
  cases ls with
  | nil => exact absurd rfl h.nonempty
  | cons first ls =>
    cases ls with
    | nil => rfl
    | cons second ls =>
      have hfirst := h.shortest [first] ⟨second :: ls, rfl⟩ (by simp) (by simp)
      rw [joined_singleton] at hfirst
      rw [joined, List.intercalate_cons_cons, List.append_assoc] at hcommand
      exact absurd hcommand (Session.opening_append hfirst _)

/-- The prompts for the lines of one entry. -/
def prompts : Nat → Text
  | 0 => []
  | n + 1 => "adder> " ++ (List.replicate n ("...    " : Text)).flatten

theorem prompts_succ (n : Nat) :
    prompts (n + 1) = prompts n ++ if n = 0 then ("adder> " : Text) else "...    " := by
  cases n with
  | zero => rfl
  | succ n => simp [prompts, List.replicate_succ']

/-- The lines of an entry and the answer to it. -/
structure Turn where
  lines : List Text
  response : Response

def Turn.entry (t : Turn) : Text := joined t.lines

/-- Behind the turns a line quits the dialogue, and those after it stay unread, or the input ends, and the
lines of an unfinished entry are dropped. -/
inductive Closing where
  | quit (line : Text) (unread : List Text)
  | ended (dropped : List Text)

namespace Closing

def lines : Closing → List Text
  | quit line unread => line :: unread
  | ended dropped => dropped

def printed : Closing → Text
  | quit _ _ => prompts 1
  | ended dropped => prompts (dropped.length + 1) ++ "\n"

def Valid : Closing → Prop
  | quit line _ => Session.quits line = true
  | ended dropped => Unfinished dropped

end Closing

structure Transcript where
  turns : List Turn
  closing : Closing

namespace Transcript

def lines (t : Transcript) : List Text := t.turns.flatMap Turn.lines ++ t.closing.lines

def printed (t : Transcript) : Text :=
  t.turns.flatMap (fun turn => prompts turn.lines.length ++ turn.response.output) ++ t.closing.printed

def complaints (t : Transcript) : Text := t.turns.flatMap fun turn => turn.response.complaint

/-- Every turn answers its entry; of the entries before it, only the number of `:asm` among them matters. -/
inductive Answered : (earlier : List Text) → List Turn → Prop where
  | nil (earlier : List Text) : Answered earlier []
  | cons {earlier : List Text} {turn : Turn} {turns : List Turn}
      (h : Responds (Session.shownAfter earlier) turn.entry turn.response)
      (rest : Answered (earlier ++ [turn.entry]) turns) : Answered earlier (turn :: turns)

/-- The transcript records what is entered and answered behind earlier entries. -/
structure Valid (t : Transcript) (earlier : List Text) : Prop where
  entries : ∀ turn ∈ t.turns, IsEntry turn.lines
  single : ∀ turn ∈ t.turns, Session.opening turn.entry = some (.char ':') → turn.lines.length = 1
  unquit : ∀ turn ∈ t.turns, Session.quits turn.entry = false
  answered : Answered earlier t.turns
  closing : t.closing.Valid

theorem valid_closing {c : Closing} (h : c.Valid) (earlier : List Text) : Valid ⟨[], c⟩ earlier :=
  ⟨by simp, by simp, by simp, .nil earlier, h⟩

theorem Valid.cons {turn : Turn} {turns : List Turn} {c : Closing} {earlier : List Text}
    (hentry : IsEntry turn.lines) (hquit : Session.quits turn.entry = false)
    (hresponds : Responds (Session.shownAfter earlier) turn.entry turn.response)
    (h : Valid ⟨turns, c⟩ (earlier ++ [turn.entry])) : Valid ⟨turn :: turns, c⟩ earlier := by
  refine ⟨List.forall_mem_cons.mpr ⟨hentry, h.entries⟩, List.forall_mem_cons.mpr ⟨?_, h.single⟩,
    List.forall_mem_cons.mpr ⟨hquit, h.unquit⟩, .cons hresponds h.answered, h.closing⟩
  exact hentry.length_eq_one

end Transcript

/-- Of two entries that the same lines begin with, neither is shorter. -/
theorem IsEntry.unique {ls ms more others : List Text} (hls : IsEntry ls) (hms : IsEntry ms)
    (h : ls ++ more = ms ++ others) : ls = ms := by
  rcases List.prefix_or_prefix_of_prefix ⟨more, h⟩ ⟨others, rfl⟩ with hprefix | hprefix
  · by_cases heq : ls = ms
    · exact heq
    · have hshort := hms.shortest ls hprefix hls.nonempty heq
      rw [hls.complete] at hshort
      cases hshort
  · by_cases heq : ms = ls
    · exact heq.symm
    · have hshort := hls.shortest ms hprefix hms.nonempty heq
      rw [hms.complete] at hshort
      cases hshort

theorem isEntry_singleton {line : Text} (h : Session.isComplete line = true) : IsEntry [line] := by
  rw [← joined_singleton line] at h
  exact unfinished_nil.isEntry h

theorem isEntry_of_quits {line : Text} (h : Session.quits line = true) : IsEntry [line] :=
  isEntry_singleton (Session.isComplete_of_opening (Session.opening_of_quits h))

theorem Unfinished.not_isEntry {ls front rest : List Text} (h : Unfinished ls) (hls : ls = front ++ rest) :
    ¬ IsEntry front := by
  intro hentry
  have hfront := h front ⟨rest, hls.symm⟩ hentry.nonempty
  rw [hentry.complete] at hfront
  cases hfront

namespace Closing

theorem Valid.unique {c d : Closing} (hc : c.Valid) (hd : d.Valid) (h : c.lines = d.lines) : c = d := by
  cases c with
  | quit line unread =>
    cases d with
    | quit other unread' =>
      obtain ⟨rfl, rfl⟩ := List.cons.inj h
      rfl
    | ended dropped => exact absurd (isEntry_of_quits hc) (Unfinished.not_isEntry hd h.symm)
  | ended dropped =>
    cases d with
    | quit line unread => exact absurd (isEntry_of_quits hd) (Unfinished.not_isEntry hc h)
    | ended dropped' => exact congrArg ended h

theorem Valid.lines_ne {c : Closing} (hc : c.Valid) {turn : Turn} (hentry : IsEntry turn.lines)
    (hquit : Session.quits turn.entry = false) (rest : List Text) : c.lines ≠ turn.lines ++ rest := by
  intro h
  cases c with
  | quit line unread =>
    have hline := (isEntry_of_quits hc).unique hentry h
    rw [Turn.entry, ← hline, joined_singleton, hc] at hquit
    cases hquit
  | ended dropped => exact Unfinished.not_isEntry hc h hentry

end Closing

theorem Transcript.lines_cons (turn : Turn) (turns : List Turn) (c : Closing) :
    lines ⟨turn :: turns, c⟩ = turn.lines ++ lines ⟨turns, c⟩ := by
  rw [lines, lines, List.flatMap_cons, List.append_assoc]

theorem Transcript.Valid.tail {turn : Turn} {turns : List Turn} {c : Closing} {earlier : List Text}
    (h : Valid ⟨turn :: turns, c⟩ earlier) :
    Responds (Session.shownAfter earlier) turn.entry turn.response ∧
    Valid ⟨turns, c⟩ (earlier ++ [turn.entry]) := by
  cases h.answered with
  | cons hresponds hrest =>
    exact ⟨hresponds, (List.forall_mem_cons.mp h.entries).2, (List.forall_mem_cons.mp h.single).2,
      (List.forall_mem_cons.mp h.unquit).2, hrest, h.closing⟩

theorem Transcript.Valid.unique {t u : Transcript} {earlier : List Text} (ht : t.Valid earlier)
    (hu : u.Valid earlier) (h : t.lines = u.lines) : t = u := by
  obtain ⟨turns, c⟩ := t
  obtain ⟨others, d⟩ := u
  induction turns generalizing others earlier with
  | nil =>
    cases others with
    | nil => exact congrArg (Transcript.mk []) (ht.closing.unique hu.closing h)
    | cons turn others =>
      rw [lines_cons] at h
      exact absurd h (ht.closing.lines_ne (hu.entries turn List.mem_cons_self)
        (hu.unquit turn List.mem_cons_self) _)
  | cons turn turns ih =>
    cases others with
    | nil =>
      rw [lines_cons] at h
      exact absurd h.symm (hu.closing.lines_ne (ht.entries turn List.mem_cons_self)
        (ht.unquit turn List.mem_cons_self) _)
    | cons other others =>
      rw [lines_cons, lines_cons] at h
      obtain ⟨hresponds, hturns⟩ := ht.tail
      obtain ⟨hresponds', hothers⟩ := hu.tail
      have hlines := (ht.entries turn List.mem_cons_self).unique (hu.entries other List.mem_cons_self) h
      rw [hlines] at h
      obtain rfl : turn = other := by
        cases turn
        cases other
        cases hlines
        exact congrArg (Turn.mk _) (hresponds.unique hresponds')
      have hrest := ih hturns others hothers (List.append_cancel_left h)
      cases hrest
      rfl

theorem printed_cons {d : Dialogue} {t : Text} {before : List Text} (h : d.output = t :: before) :
    d.printed = before.reverse.flatten ++ t := by
  rw [printed, h]
  simp

theorem printed_print (d : Dialogue) (t : Text) : (d.print t).printed = d.printed ++ t := printed_cons rfl

/-- Entering an entry answers it, and changes what is shown only by `:asm`. -/
structure Enters (d after : Dialogue) (entry : Text) (r : Response) : Prop where
  responds : Responds d.session.showAssembly entry r
  pending : after.pending = d.pending
  shown : after.session.showAssembly = (d.session.showAssembly != Session.toggles entry)
  printed : after.printed = d.printed ++ r.output
  complaints : after.complaints = d.complaints ++ r.complaint

theorem enters_evaluate {d : Dialogue} {entry : Text} {g : Glyph} (h : Session.opening entry = some g)
    (hg : g ≠ .char ':') : ∃ r, d.Enters (d.evaluate entry) entry r := by
  have hcommand : Session.opening entry ≠ some (.char ':') := by
    rw [h]
    exact fun heq => hg (Option.some.inj heq)
  have hshown : d.session.showAssembly = (d.session.showAssembly != Session.toggles entry) := by
    rw [(Session.no_command hcommand).2, Bool.bne_false]
  cases hparse : Expr.parse entry with
  | error e =>
    refine ⟨_, .refused h hg hparse, rfl, hshown, ?_, ?_⟩
    · exact printed_cons (by rw [evaluate, Session.evaluate_of_error hparse])
    · simp [evaluate, Session.evaluate_of_error hparse, complaints, Response.complaint, EntryError.message,
        Session.red]
      rfl
  | ok e =>
    obtain ⟨code, v, hcode, heval, hvalue⟩ := Session.evaluate_of_expr hparse d.session
    refine ⟨_, .value h hg hparse hcode heval, rfl, hshown, ?_, ?_⟩
    · exact printed_cons (by rw [evaluate, hvalue])
    · simp [evaluate, hvalue, complaints, Response.complaint]

theorem enters_enter (d : Dialogue) (entry : Text) :
    (d.enter entry).2 = Session.quits entry ∧ ∃ r, d.Enters (d.enter entry).1 entry r := by
  cases hopening : Session.opening entry with
  | none =>
    have hcommand : Session.opening entry ≠ some (.char ':') := by
      rw [hopening]
      intro h
      cases h
    obtain ⟨hquit, htoggle⟩ := Session.no_command hcommand
    rw [enter, if_pos (Session.trim_eq_nil_iff.mpr hopening), hquit]
    refine ⟨rfl, ⟨[], none⟩, .blank hopening, rfl, ?_, ?_, ?_⟩
    · rw [htoggle, Bool.bne_false]
    · exact (List.append_nil _).symm
    · exact (List.append_nil _).symm
  | some g =>
    have htrim : Text.trim entry ≠ [] := by
      rw [Ne, Session.trim_eq_nil_iff, hopening]
      intro h
      cases h
    rw [enter, if_neg htrim]
    by_cases hcolon : g = .char ':'
    · rw [hcolon] at hopening
      rw [if_pos (Session.isCommand_iff.mpr hopening), Session.command_eq]
      refine ⟨rfl, _, .command hopening, rfl, rfl, printed_cons rfl, ?_⟩
      exact (List.append_nil _).symm
    · have hcommand : Session.opening entry ≠ some (.char ':') := by
        rw [hopening]
        exact fun heq => hcolon (Option.some.inj heq)
      rw [if_neg (mt Session.isCommand_iff.mp hcommand)]
      exact ⟨(Session.no_command hcommand).1.symm, enters_evaluate hopening hcolon⟩

/-- The dialogue has an unfinished entry open, with `base` printed before its prompts. -/
structure Gathering (d : Dialogue) (opened : List Text) (base : Text) : Prop where
  unfinished : Unfinished opened
  pending : d.pending = joined opened
  printed : d.printed = base ++ prompts opened.length

namespace Gathering

variable {d : Dialogue} {opened : List Text} {base : Text} (h : d.Gathering opened base)
include h

theorem printed_prompt : (d.print d.prompt).printed = base ++ prompts (opened.length + 1) := by
  rw [printed_print, h.printed, prompts_succ, List.append_assoc, prompt]
  simp only [h.pending, h.unfinished.joined_eq_nil, List.length_eq_zero_iff]

theorem extended_eq (line : Text) : (d.print d.prompt).extended line = joined (opened ++ [line]) := by
  change (if d.pending = [] then line else d.pending ++ Text.newline :: line) = _
  rw [h.pending]
  by_cases hopened : opened = []
  · rw [if_pos (h.unfinished.joined_eq_nil.mpr hopened), hopened, List.nil_append, joined_singleton]
  · rw [if_neg (mt h.unfinished.joined_eq_nil.mp hopened), joined_concat hopened]

theorem run_unfinished {line : Text} (hline : Session.isComplete (joined (opened ++ [line])) = false)
    (rest : List Text) :
    ∃ after : Dialogue, d.run (line :: rest) = after.run rest ∧ after.Gathering (opened ++ [line]) base ∧
      after.session = d.session ∧ after.complaints = d.complaints := by
  refine ⟨{ d.print d.prompt with pending := joined (opened ++ [line]) }, ?_,
    ⟨h.unfinished.concat hline, rfl, ?_⟩, rfl, rfl⟩
  · rw [run, take, h.extended_eq, if_neg (by simp [hline])]
  · rw [List.length_append, List.length_singleton]
    exact h.printed_prompt

theorem run_complete {line : Text} (hline : Session.isComplete (joined (opened ++ [line])) = true)
    (rest : List Text) :
    ∃ (after : Dialogue) (r : Response),
      d.run (line :: rest) = (if Session.quits (joined (opened ++ [line])) then after else after.run rest) ∧
      Enters { d.print d.prompt with pending := [] } after (joined (opened ++ [line])) r := by
  obtain ⟨hquit, r, henters⟩ :=
    enters_enter { d.print d.prompt with pending := [] } (joined (opened ++ [line]))
  refine ⟨_, r, ?_, henters⟩
  rw [run, take, h.extended_eq, if_pos hline, ← hquit]
  split
  · rename_i heq
    rw [heq]
    rfl
  · rename_i heq
    rw [heq]
    rfl

end Gathering

/-- From an open entry on, a dialogue prints what a transcript tells of the lines from the front of that
entry on. -/
theorem Gathering.exists_transcript {d : Dialogue} {opened earlier : List Text} {base : Text}
    (h : d.Gathering opened base) (hshown : d.session.showAssembly = Session.shownAfter earlier)
    (lines : List Text) :
    ∃ t : Transcript, t.Valid earlier ∧ t.lines = opened ++ lines ∧
    (d.run lines).printed = base ++ t.printed ∧
      (d.run lines).complaints = d.complaints ++ t.complaints := by
  induction lines generalizing d opened earlier base with
  | nil =>
    refine ⟨⟨[], .ended opened⟩, Transcript.valid_closing (c := .ended opened) h.unfinished earlier,
      (List.append_nil _).symm, ?_, ?_⟩
    · rw [run, leave, printed_print, h.printed_prompt, List.append_assoc]
      rfl
    · exact (List.append_nil _).symm
  | cons line rest ih =>
    cases hline : Session.isComplete (joined (opened ++ [line])) with
    | false =>
      obtain ⟨after, hrun, hafter, hsession, hcomplaints⟩ := h.run_unfinished hline rest
      rw [hrun, ← hcomplaints, List.append_cons]
      exact ih hafter (by rw [hsession, hshown])
    | true =>
      obtain ⟨after, r, hrun, henters⟩ := h.run_complete hline rest
      have hentry := h.unfinished.isEntry hline
      have hresponds : Responds (Session.shownAfter earlier) (joined (opened ++ [line])) r :=
        hshown ▸ henters.responds
      have hprinted : after.printed = base ++ prompts (opened ++ [line]).length ++ r.output := by
        rw [henters.printed, List.length_append, List.length_singleton, ← h.printed_prompt]
        rfl
      have hcomplaints : after.complaints = d.complaints ++ r.complaint := henters.complaints
      cases hquit : Session.quits (joined (opened ++ [line])) with
      | true =>
        rw [hquit, if_pos rfl] at hrun
        obtain rfl := hresponds.of_quits hquit
        have hsingle := hentry.length_eq_one (Session.opening_of_quits hquit)
        obtain rfl : opened = [] := by simpa using hsingle
        rw [List.nil_append, joined_singleton] at hquit
        refine ⟨⟨[], .quit line rest⟩,
          Transcript.valid_closing (c := .quit line rest) hquit earlier, rfl, ?_, ?_⟩
        · rw [hrun, hprinted]
          exact List.append_nil _
        · rw [hrun, hcomplaints]
          rfl
      | false =>
        rw [hquit, if_neg Bool.false_ne_true] at hrun
        have hnext : after.Gathering [] (base ++ prompts (opened ++ [line]).length ++ r.output) :=
          ⟨unfinished_nil, henters.pending, by rw [hprinted]; exact (List.append_nil _).symm⟩
        have htoggled :
            after.session.showAssembly = Session.shownAfter (earlier ++ [joined (opened ++ [line])]) := by
          rw [henters.shown, Session.shownAfter_concat, ← hshown]
          rfl
        obtain ⟨t, hvalid, hlines, hlater, hothers⟩ := ih hnext htoggled
        refine ⟨⟨⟨opened ++ [line], r⟩ :: t.turns, t.closing⟩,
          .cons hentry hquit hresponds hvalid, ?_, ?_, ?_⟩
        · rw [List.nil_append] at hlines
          rw [← hlines, List.append_cons]
          simp [Transcript.lines]
        · rw [hrun, hlater]
          simp [Transcript.printed]
        · rw [hrun, hothers, hcomplaints]
          simp [Transcript.complaints]

/-- A dialogue cuts its lines into entries, each of them complete and no shorter part of it, and answers
them in order up to the first that quits; at the end of the input it drops an entry that is unfinished. What
it prints is the banner, and for each entry its prompts and its answer. Of the entries before it an answer
depends on nothing but how many of them were `:asm`. The lines can be cut and answered in no other way. -/
theorem run_transcript (history : History) (lines : List Text) :
    ∃ t : Transcript, t.Valid [] ∧ t.lines = lines ∧
    ((start history).run lines).printed = banner ++ t.printed ∧
      ((start history).run lines).complaints = t.complaints ∧
      ∀ u : Transcript, u.Valid [] → u.lines = lines → u = t := by
  have hstart :
      (start history).Gathering [] banner := ⟨unfinished_nil, rfl, by simp [start, printed, prompts]⟩
  have hshown : (start history).session.showAssembly = Session.shownAfter [] := rfl
  obtain ⟨t, hvalid, hlines, hprinted, hcomplaints⟩ := hstart.exists_transcript hshown lines
  exact ⟨t, hvalid, hlines, hprinted, hcomplaints,
    fun u hu hsame => hu.unique hvalid (hsame.trans hlines.symm)⟩

/-- Assembly that is shown, an entry of two lines, one that is refused, and a line that is never read. -/
theorem run_transcript_quit :
    ((start .empty).run [(":asm" : Text), ("(add1" : Text), ("5)" : Text), (")" : Text), (" :Quit" : Text),
        ("7" : Text)]).printed =
      banner ++ ("adder> assembly output on\n" ++ ("adder> ...    \x1b[94m  mov rax, 5\x1b[0m\n" ++
        ("\x1b[94m  add rax, 1\x1b[0m\n6\n" ++ ("adder> adder> " : Text)))) ∧
    ((start .empty).run [(":asm" : Text), ("(add1" : Text), ("5)" : Text), (")" : Text), (" :Quit" : Text),
        ("7" : Text)]).complaints = "\x1b[31mread error: line 1:1: unexpected \")\"\x1b[0m\n" := by
  have hdigit : ∀ n : Nat, n < 10 → Numeral.int n = [.char n.digitChar] :=
    fun n hn => Numeral.nat_of_lt_ten hn
  have hopen : Session.isComplete (joined [("(add1" : Text)]) = false := rfl
  have hpair : IsEntry [("(add1" : Text), ("5)" : Text)] :=
    Unfinished.isEntry (unfinished_nil.concat hopen) rfl
  have hasm : Responds false (joined [(":asm" : Text)]) ⟨"assembly output on\n", none⟩ := .command rfl
  have hsix : Responds true (joined [("(add1" : Text), ("5)" : Text)])
      ⟨"\x1b[94m  mov rax, 5\x1b[0m\n\x1b[94m  add rax, 1\x1b[0m\n6\n", none⟩ := by
    have hparse : Expr.parse (joined [("(add1" : Text), ("5)" : Text)]) = .ok (.apply .add1 (.num 5)) := rfl
    have hcode :
        Expr.code (.apply .add1 (.num 5)) = .ok [⟨"mov", "rax", Numeral.int 5⟩, ⟨"add", "rax", "1"⟩] := rfl
    have heval : Expr.eval (.apply .add1 (.num 5)) = .ok 6 := rfl
    have hfive : Numeral.int 5 = "5" := hdigit 5 (by decide)
    have hvalue : Numeral.int (6 : Int64).toInt = "6" := hdigit 6 (by decide)
    rw [hfive] at hcode
    have hresponds := @Responds.value true _ _ _ _ _ rfl (by decide) hparse hcode heval
    rw [hvalue] at hresponds
    exact hresponds
  have hbad : Responds true (joined [(")" : Text)]) ⟨[], some "read error: line 1:1: unexpected \")\""⟩ := by
    have hparse : Expr.parse (joined [(")" : Text)]) = .error (.read ⟨⟨1, 1⟩, .unexpectedClose ")"⟩) := rfl
    have hone : Numeral.int 1 = "1" := hdigit 1 (by decide)
    have hmessage : SourceError.message (.read ⟨⟨1, 1⟩, .unexpectedClose ")"⟩) =
        "read error: " ++
        ("line " ++ (Numeral.int 1 ++ ":" ++ Numeral.int 1) ++ ": " ++ "unexpected \")\"") := rfl
    have hresponds := @Responds.refused true _ _ _ rfl (by decide) hparse
    rw [hmessage, hone] at hresponds
    exact hresponds
  have hclosing : Closing.Valid (.quit " :Quit" [("7" : Text)]) := show Session.quits " :Quit" = true from rfl
  have hvalid : Transcript.Valid ⟨[⟨[(":asm" : Text)], ⟨"assembly output on\n", none⟩⟩,
      ⟨[("(add1" : Text), ("5)" : Text)],
        ⟨"\x1b[94m  mov rax, 5\x1b[0m\n\x1b[94m  add rax, 1\x1b[0m\n6\n", none⟩⟩,
      ⟨[(")" : Text)], ⟨[], some "read error: line 1:1: unexpected \")\""⟩⟩],
      .quit " :Quit" [("7" : Text)]⟩ [] :=
    .cons (isEntry_singleton rfl) rfl hasm (.cons hpair rfl hsix (.cons (isEntry_singleton rfl) rfl hbad
      (Transcript.valid_closing hclosing _)))
  obtain ⟨t, -, -, hprinted, hcomplaints, hunique⟩ :=
    run_transcript .empty [(":asm" : Text), ("(add1" : Text), ("5)" : Text), (")" : Text),
      (" :Quit" : Text), ("7" : Text)]
  obtain rfl := hunique _ hvalid rfl
  exact ⟨hprinted, hcomplaints⟩

end Dialogue

end StepLang
