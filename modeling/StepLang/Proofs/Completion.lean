import Mathlib.Data.List.Forall2
import StepLang.Proofs.Bytes
import StepLang.Proofs.LineJoin
import StepLang.Proofs.ViablePrefix
import StepLang.Session.Basic

/-!
# Incomplete sources

A source is incomplete when it stops inside a list. Then the closing brackets of the open lists, on a
further line, complete it, and no other source that cannot be read becomes readable by further lines.
-/

namespace StepLang

namespace OpenList

def closing (o : OpenList) : Char := if o.opener.lexeme = ("[" : Text) then ']' else ')'

theorem closing_eq (o : OpenList) : o.closing = ')' ∨ o.closing = ']' := by
  unfold closing
  split
  · exact .inr rfl
  · exact .inl rfl

theorem closer_eq (o : OpenList) : o.closer = .ofChars [o.closing] := by
  unfold closer closing
  split <;> rfl

end OpenList

/-- The token is the closing bracket that the list waits for. -/
def Token.Ends (t : Token) (o : OpenList) : Prop := t.kind = .closing ∧ t.lexeme = o.closer

namespace Scanner

theorem enter_closing {c : Char} (h : c = ')' ∨ c = ']') (pos : Position) (tokens : List Token) :
    enter pos tokens c = .ok ⟨pos.after c, .gap, bracket .closing c pos :: tokens⟩ := by
  rcases h with rfl | rfl
  · rfl
  · rfl

theorem passes_closing (pos : Position) (tokens : List Token) (lists : List OpenList) :
    ∃ last cs, Passes ⟨pos, .gap, tokens⟩ (lists.map OpenList.closing) last ∧
    last.closed = cs.reverse ++ tokens ∧
      List.Forall₂ Token.Ends cs lists := by
  induction lists generalizing pos tokens with
  | nil => exact ⟨_, [], .refl _, rfl, .nil⟩
  | cons o lists ih =>
    obtain ⟨last, cs, hpass, hclosed, hends⟩ :=
      ih (pos.after o.closing) (bracket .closing o.closing pos :: tokens)
    refine ⟨last, bracket .closing o.closing pos :: cs,
      .cons (enter_closing o.closing_eq pos tokens) hpass, ?_, ?_⟩
    · rw [hclosed, List.reverse_cons, List.append_assoc, List.singleton_append]
    · exact .cons ⟨rfl, o.closer_eq.symm⟩ hends

theorem enter_error {pos : Position} {tokens : List Token} {c : Char} {e : ReadError}
    (h : enter pos tokens c = .error e) : e = ⟨pos, .unexpectedChar c⟩ := by
  unfold enter at h
  simp only at h
  repeat' split at h
  all_goals cases h
  rfl

theorem run_error {s : Scanner} {cs : List Char} {e : ReadError} (h : s.run cs = .error e) :
    ∃ c, e.fault = .unexpectedChar c := by
  induction cs generalizing s with
  | nil => cases h
  | cons c cs ih =>
    rw [run] at h
    cases hstep : s.step c with
    | ok next =>
      rw [hstep] at h
      exact ih h
    | error e' =>
      rw [hstep] at h
      cases h
      refine ⟨c, ?_⟩
      unfold step at hstep
      split at hstep
      · rw [enter_error hstep]
      · cases hstep
      · split at hstep
        · rw [enter_error hstep]
        · cases hstep

end Scanner

theorem Token.scan_closing (lists : List OpenList) :
    ∃ cs pos, Token.scan (.ofChars (lists.map OpenList.closing)) = .ok (cs ++ [⟨.eof, [], pos⟩]) ∧
      List.Forall₂ Token.Ends cs lists := by
  obtain ⟨last, cs, hpass, hclosed, hends⟩ := Scanner.passes_closing .start [] lists
  refine ⟨cs, last.pos, ?_, hends⟩
  rw [scan, Text.map_toChar]
  refine hpass.run_eq.trans ?_
  rw [Scanner.finish, hclosed]
  simp

theorem Opened.closed {o : OpenList} {outer : List OpenList} {ts : List Token} {c : Token}
    (h : Opened (o :: outer) ts) (hc : c.Ends o) :
    (ReadProgress.deliver o.toDatum outer).Covers (ts ++ [c]) := by
  have hcloses := (Token.closes_iff h.opens hc.1).mpr hc.2
  rcases h.close hc.1 with hcover | ⟨e, hr⟩
  · rwa [TokenStream.close_closes hcloses] at hcover
  · cases hr with
    | mismatched _ _ _ _ hnot => exact absurd hcloses hnot

theorem Opened.complete {o : OpenList} {outer : List OpenList} {ts cs : List Token}
    (h : Opened (o :: outer) ts)
    (hcs : List.Forall₂ Token.Ends cs (o :: outer)) : Datum.Complete (ts ++ cs) := by
  induction outer generalizing o ts cs with
  | nil =>
    cases hcs with
    | cons hc hrest =>
      cases hrest
      cases h.closed hc with
      | value hd => exact ⟨_, hd⟩
  | cons p outer ih =>
    cases hcs with
    | @cons c _ cs _ hc hrest =>
      cases h.closed hc with
      | opened hopen =>
        have hends : List.Forall₂ Token.Ends cs (⟨p.opener, o.toDatum :: p.items⟩ :: outer) := by
          cases hrest with
          | cons hp hrest => exact .cons hp hrest
        have hcomplete := ih hopen hends
        rwa [List.append_assoc] at hcomplete

namespace Datum

/-- Further lines make the source readable. -/
def Completable (source : List UInt8) : Prop := ∃ more d, read (.ofBytes (source ++ 0x0A :: more)) = .ok d

theorem completable_of_opened {source : List UInt8} {o : OpenList} {outer : List OpenList} {body : List Token}
    {pos : Position} (hscan : Token.scan (.ofBytes source) = .ok (body ++ [⟨.eof, [], pos⟩]))
    (h : Opened (o :: outer) body) : Completable source := by
  obtain ⟨cs, last, hclosing, hends⟩ := Token.scan_closing (o :: outer)
  have hjoin := Token.scan_join (.ofBytes source) (.ofChars ((o :: outer).map OpenList.closing))
  simp only [hscan, hclosing, List.dropLast_concat, List.map_append, List.map_singleton] at hjoin
  have hdown :
      List.Forall₂ Token.Ends (cs.map (Token.down (1 + (Text.ofBytes source).lineBreaks))) (o :: outer) :=
    List.forall₂_map_left_iff.mpr hends
  obtain ⟨d, hd⟩ := h.complete hdown
  refine ⟨Text.toBytes (.ofChars ((o :: outer).map OpenList.closing)), d, ?_⟩
  rw [Text.ofBytes_join, Text.ofBytes_toBytes (Text.isValid_ofChars _), read_of_scan hjoin,
    ← List.append_assoc, ofTokens_of_value hd]
  rfl

theorem viable_of_completable {source : List UInt8} (h : Completable source) :
    ∃ body pos, Token.scan (.ofBytes source) = .ok (body ++ [⟨.eof, [], pos⟩]) ∧ Viable body := by
  obtain ⟨more, d, hread⟩ := h
  rw [Text.ofBytes_join] at hread
  have hjoin := Token.scan_join (.ofBytes source) (.ofBytes more)
  cases hsource : Token.scan (.ofBytes source) with
  | error e =>
    rw [hsource] at hjoin
    simp [read, hjoin] at hread
  | ok ts =>
    cases hmore : Token.scan (.ofBytes more) with
    | error e =>
      rw [hsource, hmore] at hjoin
      simp [read, hjoin] at hread
    | ok us =>
      obtain ⟨body, pos, rfl, -⟩ := Token.scan_scanned hsource
      obtain ⟨rest, last, rfl, -⟩ := Token.scan_scanned hmore
      simp only [hsource, hmore, List.dropLast_concat, List.map_append, List.map_singleton] at hjoin
      rw [← List.append_assoc] at hjoin
      obtain ⟨all, finish, hall, hscanned⟩ := Token.scan_scanned hjoin
      obtain ⟨rfl, heof⟩ := List.append_inj' hall rfl
      rw [read_of_scan hjoin, hall] at hread
      exact ⟨body, pos, rfl, _, d, (ofTokens_eq_ok_iff hscanned finish d).mp hread⟩

/-- What reading a source comes to, told by its tokens. -/
inductive Outcome (source : Text) : Except ReadError Datum → Prop where
  | unscanned {e : ReadError} {c : Char} (hscan : Token.scan source = .error e)
      (hfault : e.fault = .unexpectedChar c) :
      Outcome source (.error e)
  | value {body : List Token} {pos : Position} {d : Datum}
      (hscan : Token.scan source = .ok (body ++ [⟨.eof, [], pos⟩]))
      (h : Derives body d) : Outcome source (.ok d)
  | empty {pos : Position} (hscan : Token.scan source = .ok [⟨.eof, [], pos⟩]) :
      Outcome source (.error ⟨pos, .emptyInput⟩)
  | inside {body : List Token} {pos : Position} {o : OpenList} {outer : List OpenList}
      (hscan : Token.scan source = .ok (body ++ [⟨.eof, [], pos⟩])) (h : Opened (o :: outer) body) :
      Outcome source (.error ⟨o.opener.pos, .unclosed o.opener.lexeme⟩)
  | misfit {body : List Token} {pos : Position} {e : ReadError}
      (hscan : Token.scan source = .ok (body ++ [⟨.eof, [], pos⟩])) (hviable : ¬ Viable body)
      (hempty : e.fault ≠ .emptyInput) (hinside : e.isIncomplete = false) : Outcome source (.error e)

theorem read_outcome (source : Text) : Outcome source (read source) := by
  cases hscan : Token.scan source with
  | error e =>
    obtain ⟨c, hc⟩ := Scanner.run_error hscan
    simp only [read, hscan]
    exact .unscanned hscan hc
  | ok ts =>
    obtain ⟨body, pos, rfl, hbody⟩ := Token.scan_scanned hscan
    rw [read_of_scan hscan]
    rcases ofTokens_cases hbody pos with ⟨d, hd, h⟩ | ⟨rfl, h⟩ | ⟨o, outer, ho, h⟩ |
      ⟨used, t, rest, d, rfl, hd, h⟩ | ⟨used, t, rest, lists, e, rfl, ho, hr, h⟩
    · rw [h]
      exact .value hscan hd
    · rw [h]
      exact .empty hscan
    · rw [h]
      exact .inside hscan ho
    · rw [h]
      refine .misfit hscan (fun hviable => ?_) (by simp) rfl
      rw [List.append_cons] at hviable
      exact trailing_not_viable hd t (viable_of_append hviable)
    · rw [h]
      have hnot : ¬ Viable (used ++ t :: rest) := by
        intro hviable
        rw [List.append_cons] at hviable
        exact refused_not_viable ho hr (viable_of_append hviable)
      cases hr with
      | unexpected => exact .misfit hscan hnot (by simp) rfl
      | mismatched => exact .misfit hscan hnot (by simp) rfl

theorem isIncomplete_iff (source : List UInt8) :
    (∃ e, read (.ofBytes source) = .error e ∧ e.isIncomplete = true) ↔
      (¬ ∃ d, read (.ofBytes source) = .ok d) ∧
      (¬ ∃ pos, read (.ofBytes source) = .error ⟨pos, .emptyInput⟩) ∧
        Completable source := by
  have houtcome := read_outcome (.ofBytes source)
  constructor
  · rintro ⟨e, he, hinside⟩
    refine ⟨by simp [he], ?_, ?_⟩
    · rintro ⟨pos, hempty⟩
      rw [he] at hempty
      cases hempty
      cases hinside
    · rw [he] at houtcome
      cases houtcome with
      | unscanned _ hfault => simp [ReadError.isIncomplete, hfault] at hinside
      | empty => cases hinside
      | inside hscan hopen => exact completable_of_opened hscan hopen
      | misfit _ _ _ hnot => simp [hnot] at hinside
  · rintro ⟨hok, hempty, hcompletable⟩
    obtain ⟨body, pos, hscan, hviable⟩ := viable_of_completable hcompletable
    generalize hread : read (.ofBytes source) = result at *
    cases houtcome with
    | unscanned hscan' =>
      rw [hscan] at hscan'
      cases hscan'
    | value => exact absurd ⟨_, rfl⟩ hok
    | empty => exact absurd ⟨_, rfl⟩ hempty
    | inside => exact ⟨_, rfl, rfl⟩
    | misfit hscan' hnot =>
      rw [hscan] at hscan'
      obtain ⟨rfl, -⟩ := List.append_inj' (Except.ok.inj hscan') rfl
      exact absurd hviable hnot

theorem scan_of_emptyInput {source : Text} {pos : Position} (h : read source = .error ⟨pos, .emptyInput⟩) :
    Token.scan source = .ok [⟨.eof, [], pos⟩] := by
  have houtcome := read_outcome source
  rw [h] at houtcome
  cases houtcome with
  | unscanned _ hfault => cases hfault
  | empty hscan => exact hscan
  | misfit _ _ hempty => exact absurd rfl hempty

end Datum

theorem Session.isComplete_iff {entry : Text} (h : isCommand entry = false) :
    isComplete entry = true ↔ ¬ ∃ e, Datum.read entry = .error e ∧ e.isIncomplete = true := by
  unfold isComplete
  rw [h, Bool.false_or]
  cases Datum.read entry with
  | error e => simp
  | ok d => simp

namespace Datum

/-- A source is incomplete exactly when it cannot be read, holds something, and further lines can make it
readable. So an entry with a token in it is complete exactly when it is readable, or no further lines can
make it so. -/
theorem isIncomplete_iff_completable (source : List UInt8) :
    ((∃ e, read (.ofBytes source) = .error e ∧ e.isIncomplete = true) ↔
      (¬ ∃ d, read (.ofBytes source) = .ok d) ∧
      (¬ ∃ pos, read (.ofBytes source) = .error ⟨pos, .emptyInput⟩) ∧
        Completable source) ∧
    (Session.isCommand (.ofBytes source) = false →
      (¬ ∃ pos, Token.scan (.ofBytes source) = .ok [⟨.eof, [], pos⟩]) →
      (Session.isComplete (.ofBytes source) = true ↔
        (∃ d, read (.ofBytes source) = .ok d) ∨ ¬ Completable source)) := by
  refine ⟨isIncomplete_iff source, ?_⟩
  intro hcommand htoken
  have hempty : ¬ ∃ pos, read (.ofBytes source) = .error ⟨pos, .emptyInput⟩ :=
    fun ⟨pos, h⟩ => htoken ⟨pos, scan_of_emptyInput h⟩
  rw [Session.isComplete_iff hcommand, isIncomplete_iff]
  constructor
  · intro h
    by_cases hok : ∃ d, read (.ofBytes source) = .ok d
    · exact .inl hok
    · exact .inr fun hcompletable => h ⟨hok, hempty, hcompletable⟩
  · rintro (hok | hnot) ⟨hnone, -, hcompletable⟩
    · exact hnone hok
    · exact hnot hcompletable

/-- The bytes of `([+5;` and a stray one: further lines can still complete a source that stops inside a
comment. -/
theorem isIncomplete_iff_completable_comment :
    Completable [0x28, 0x5B, 0x2B, 0x35, 0x3B, 0xFF] ∧
      Session.isComplete (.ofBytes [0x28, 0x5B, 0x2B, 0x35, 0x3B, 0xFF]) = false := by
  have htext :
      Text.ofBytes [0x28, 0x5B, 0x2B, 0x35, 0x3B, 0xFF] = Text.ofString "([+5;" ++ [.stray 0xFF] := by
    decide +kernel
  have hread : read (.ofBytes [0x28, 0x5B, 0x2B, 0x35, 0x3B, 0xFF]) = .error ⟨⟨1, 2⟩, .unclosed "["⟩ := by
    rw [htext]
    rfl
  have hcommand : Session.isCommand (.ofBytes [0x28, 0x5B, 0x2B, 0x35, 0x3B, 0xFF]) = false := by
    rw [htext]
    rfl
  have htoken :
      ¬ ∃ pos, Token.scan (.ofBytes [0x28, 0x5B, 0x2B, 0x35, 0x3B, 0xFF]) = .ok [⟨.eof, [], pos⟩] := by
    rintro ⟨pos, hscan⟩
    rw [read_of_scan hscan] at hread
    cases hread
  obtain ⟨hiff, hcomplete⟩ := isIncomplete_iff_completable [0x28, 0x5B, 0x2B, 0x35, 0x3B, 0xFF]
  have hcompletable := (hiff.mp ⟨_, hread, rfl⟩).2.2
  refine ⟨hcompletable, ?_⟩
  rw [← Bool.not_eq_true, hcomplete hcommand htoken, hread]
  rintro (⟨d, hd⟩ | hnot)
  · cases hd
  · exact hnot hcompletable

end Datum

end StepLang
