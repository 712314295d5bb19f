import Mathlib.Order.Bounds.Defs
import StepLang.Proofs.Reading

/-!
# Errors of reading and viable prefixes

A token sequence is viable when tokens can follow it that make it a value. It is so exactly when it leaves
lists open, is a value, or is empty, and reading blames the first token behind which it is not.
-/

namespace StepLang.Datum

def Complete (ts : List Token) : Prop := ∃ d, Derives ts d

/-- Tokens can follow that make it a value. -/
def Viable (ts : List Token) : Prop := ∃ more, Complete (ts ++ more)

/-- An opening bracket behind which only whole values stand. -/
def InnermostOpen (ts : List Token) (o : Token) : Prop :=
  o.Opens ∧ ∃ before after items, ts = before ++ o :: after ∧ DerivesAll after items

theorem viable_of_append {ts us : List Token} (h : Viable (ts ++ us)) : Viable ts := by
  obtain ⟨more, hmore⟩ := h
  exact ⟨us ++ more, by simpa using hmore⟩

theorem viable_of_complete {ts : List Token} (h : Complete ts) : Viable ts := ⟨[], by simpa using h⟩

theorem exists_closes {o : Token} (ho : o.Opens) : ∃ c : Token, c.Closes o := by
  rcases ho with ⟨hk, hl | hl⟩
  · exact ⟨⟨.closing, ")", .none⟩, hk, rfl, .inl ⟨hl, rfl⟩⟩
  · exact ⟨⟨.closing, "]", .none⟩, hk, rfl, .inr ⟨hl, rfl⟩⟩

/-- Closing the lists from the inside out completes them, also behind one more value. -/
theorem opened_append_viable {lists : List OpenList} {ts us : List Token} {d : Datum} (h : Opened lists ts)
    (hd : Derives us d) : Viable (ts ++ us) := by
  induction h generalizing us d with
  | nothing => exact viable_of_complete ⟨d, hd⟩
  | inside outer o ho parts items ih =>
    obtain ⟨c, hc⟩ := exists_closes ho
    have hparts : ∀ p ∈ parts ++ [(us, d)], Derives p.1 p.2 :=
      List.forall_mem_append.mpr ⟨items, List.forall_mem_singleton.mpr hd⟩
    obtain ⟨more, hmore⟩ := ih (.list o c _ hc hparts)
    exact ⟨c :: more, by simpa using hmore⟩

theorem opened_viable {lists : List OpenList} {ts : List Token} (h : Opened lists ts) : Viable ts := by
  have hatom : Derives [⟨.symbol, [], .none⟩] (.atom .symbol [] .none) := .symbol _ rfl
  exact viable_of_append (opened_append_viable h hatom)

theorem opened_ne_append {o : OpenList} {outer : List OpenList} {ts us : List Token} {d : Datum}
    (h : Opened (o :: outer) (ts ++ us)) : ¬ Derives ts d := by
  intro hd
  have hread := h.readInto .start []
  rw [List.append_assoc, TokenStream.readInto_value .start hd] at hread
  simp [TokenStream.readInto] at hread

theorem refused_not_viable {lists : List OpenList} {ts : List Token} {t : Token} {e : ReadError}
    (h : Opened lists ts) (hr : Refused lists t e) : ¬ Viable (ts ++ [t]) := by
  rintro ⟨more, d, hd⟩
  have hread := TokenStream.readInto_value .start hd []
  rw [List.append_nil, List.append_assoc, h.readInto, List.singleton_append, TokenStream.readInto_cons,
    hr.take h] at hread
  simp at hread

theorem trailing_not_viable {ts : List Token} {d : Datum} (hd : Derives ts d) (t : Token) :
    ¬ Viable (ts ++ [t]) := by
  rintro ⟨more, e, he⟩
  rw [List.append_assoc] at he
  have hnil := derives_append_eq hd he
  simp at hnil

theorem innermostOpen_of_opened {o : OpenList} {outer : List OpenList} {ts : List Token}
    (h : Opened (o :: outer) ts) : InnermostOpen ts o.opener := by
  cases h with
  | @inside _ us _ o ho parts items => exact ⟨ho, us, _, _, rfl, parts, items, rfl, rfl⟩

/-- Reading stops at the innermost opener, so no other bracket qualifies. -/
theorem innermostOpen_unique {o : OpenList} {outer : List OpenList} {ts : List Token} {t : Token}
    (h : Opened (o :: outer) ts) (hts : ∀ u ∈ ts, u.Scanned) (ht : InnermostOpen ts t) :
    t.pos = o.opener.pos ∧ t.lexeme = o.opener.lexeme := by
  obtain ⟨hopens, before, after, ds, rfl, parts, items, rfl, -⟩ := ht
  have hbefore : ∀ u ∈ before, u.Scanned := fun u hu => hts u (List.mem_append_left _ hu)
  rcases Opened.nothing.read_cases hbefore with ⟨lists, hl⟩ | ⟨used, rest, d, rfl, hd⟩ |
    ⟨used, u, rest, lists, e, rfl, hl, hr⟩
  · have hinside := Opened.inside hl t hopens parts items
    rw [List.nil_append] at hinside
    have hread := hinside.readInto .start []
    rw [h.readInto] at hread
    simp only [TokenStream.readInto, ReadError.ended, Prod.mk.injEq, Except.error.injEq, ReadError.mk.injEq,
      ReadFault.unclosed.injEq, and_true] at hread
    exact ⟨hread.1.symm, hread.2.symm⟩
  · rw [List.append_assoc] at h
    exact absurd hd (opened_ne_append h)
  · have hviable := opened_viable h
    have hsplit : used ++ u :: rest ++ t :: parts.flatMap Prod.fst =
        (used ++ [u]) ++ (rest ++ t :: parts.flatMap Prod.fst) := by simp
    rw [hsplit] at hviable
    exact absurd (viable_of_append hviable) (refused_not_viable hl hr)

/-- The `i`-th token, counted from one, is the first behind which the tokens are not viable, and the error
blames it for what it is. -/
structure Blames (body : List Token) (e : ReadError) (i : Nat) (t : Token) : Prop where
  least : IsLeast {n | ¬ Viable (body.take n)} i
  token : body[i - 1]? = some t
  pos : e.pos = t.pos
  unexpected : e.fault = .unexpectedClose t.lexeme ↔ i = 1
  trailing : e.fault = .trailing t.lexeme ↔ Complete (body.take (i - 1))
  mismatched : (∃ o, InnermostOpen (body.take (i - 1)) o ∧ t.kind = .closing ∧ ¬ t.Closes o ∧
    e.fault = .mismatchedClose t.lexeme o.lexeme o.pos) ↔ i ≠ 1 ∧ ¬ Complete (body.take (i - 1))

/-- The error is the one that the tokens before the end of input call for. -/
structure CorrectPrefix (body : List Token) (e : ReadError) : Prop where
  empty : e.fault = .emptyInput ↔ body = []
  incomplete : e.isIncomplete = true ↔
    body ≠ [] ∧ (∃ more, more ≠ [] ∧ Complete (body ++ more)) ∧ ¬ Complete body
  innermost : e.isIncomplete = true →
    (∃ o, InnermostOpen body o) ∧ ∀ o, InnermostOpen body o → e = ⟨o.pos, .unclosed o.lexeme⟩
  misfit : e.fault ≠ .emptyInput → e.isIncomplete = false → ∃ i t, Blames body e i t

theorem isLeast_misfit {used : List Token} {t : Token} (hv : Viable used) (hn : ¬ Viable (used ++ [t]))
    (rest : List Token) : IsLeast {n | ¬ Viable ((used ++ t :: rest).take n)} (used.length + 1) := by
  constructor
  · change ¬ Viable ((used ++ t :: rest).take (used.length + 1))
    rw [List.take_length_add_append]
    simpa using hn
  · intro n hm
    refine Nat.lt_of_not_ge fun hle => hm ?_
    rw [List.take_append_of_le_length hle]
    rw [← List.take_append_drop n used] at hv
    exact viable_of_append hv

theorem correctPrefix_opened {o : OpenList} {outer : List OpenList} {body : List Token}
    (h : Opened (o :: outer) body) (hbody : ∀ t ∈ body, t.Scanned) :
    CorrectPrefix body ⟨o.opener.pos, .unclosed o.opener.lexeme⟩ := by
  have hnot : ¬ Complete body := by
    rintro ⟨d, hd⟩
    rw [← List.append_nil body] at h
    exact opened_ne_append h hd
  have hne : body ≠ [] := by
    obtain ⟨-, before, after, ds, rfl, -⟩ := innermostOpen_of_opened h
    simp
  obtain ⟨more, hmore⟩ := opened_viable h
  have hproper : more ≠ [] := by
    rintro rfl
    exact hnot (by simpa using hmore)
  refine ⟨by simp [hne], ?_, ?_, by simp [ReadError.isIncomplete]⟩
  · simp only [ReadError.isIncomplete, true_iff]
    exact ⟨hne, ⟨more, hproper, hmore⟩, hnot⟩
  · intro _
    refine ⟨⟨o.opener, innermostOpen_of_opened h⟩, ?_⟩
    intro t ht
    obtain ⟨hpos, hlexeme⟩ := innermostOpen_unique h hbody ht
    rw [hpos, hlexeme]

theorem correctPrefix_misfit {used rest : List Token} {t : Token} {e : ReadError}
    (hn : ¬ Viable (used ++ [t])) (hempty : e.fault ≠ .emptyInput) (hinc : e.isIncomplete = false)
    (hb : Blames (used ++ t :: rest) e (used.length + 1) t) : CorrectPrefix (used ++ t :: rest) e := by
  refine ⟨by simp [hempty], ?_, by simp [hinc], fun _ _ => ⟨_, t, hb⟩⟩
  simp only [hinc, Bool.false_eq_true, false_iff]
  rintro ⟨-, ⟨more, -, hmore⟩, -⟩
  exact hn ⟨rest ++ more, by simpa using hmore⟩

theorem correctPrefix_trailing {used rest : List Token} {t : Token} {d : Datum} (hd : Derives used d) :
    CorrectPrefix (used ++ t :: rest) ⟨t.pos, .trailing t.lexeme⟩ := by
  have hc : Complete used := ⟨d, hd⟩
  have hn := trailing_not_viable hd t
  have hne : used ≠ [] := derives_ne_nil hd
  refine correctPrefix_misfit hn (by simp) rfl ⟨isLeast_misfit (viable_of_complete hc) hn rest, ?_,
    rfl, ?_, ?_, ?_⟩
  · simp
  · simp [hne]
  · simp [hc]
  · simp [hc]

theorem correctPrefix_refused {lists : List OpenList} {used rest : List Token} {t : Token} {e : ReadError}
    (h : Opened lists used) (hr : Refused lists t e) : CorrectPrefix (used ++ t :: rest) e := by
  have hn := refused_not_viable h hr
  have hleast := isLeast_misfit (opened_viable h) hn rest
  cases hr with
  | unexpected _ ht =>
    have hnil : used = [] := h.eq_nil
    have hnot : ¬ Complete [] := fun ⟨d, hd⟩ => derives_ne_nil hd rfl
    subst hnil
    refine correctPrefix_misfit hn (by simp) rfl ⟨hleast, ?_, rfl, ?_, ?_, ?_⟩
    · simp
    · simp
    · simpa using hnot
    · simp
  | mismatched _ o outer ht hc =>
    have hopen := innermostOpen_of_opened h
    have hnot : ¬ Complete used := by
      rintro ⟨d, hd⟩
      rw [← List.append_nil used] at h
      exact opened_ne_append h hd
    have hne : used ≠ [] := by
      obtain ⟨-, before, after, ds, rfl, -⟩ := hopen
      simp
    refine correctPrefix_misfit hn (by simp) rfl ⟨hleast, ?_, rfl, ?_, ?_, ?_⟩
    · simp
    · simp [hne]
    · simpa using hnot
    · simp only [Nat.add_sub_cancel, List.take_left]
      have hfar : used.length + 1 ≠ 1 := by simpa using hne
      exact ⟨fun _ => ⟨hfar, hnot⟩, fun _ => ⟨o.opener, hopen, ht, hc, rfl⟩⟩

/-- An error of reading is told by the tokens alone: there are none, they can still become a value, or one of
them is the first behind which they cannot. -/
theorem read_error_correctPrefix {source : Text} {ts : List Token} {e : ReadError}
    (hscan : Token.scan source = .ok ts) (hread : read source = .error e) :
    ∃ body pos, ts = body ++ [⟨.eof, [], pos⟩] ∧ CorrectPrefix body e := by
  obtain ⟨body, pos, rfl, hbody⟩ := Token.scan_scanned hscan
  refine ⟨body, pos, rfl, ?_⟩
  rw [read_of_scan hscan] at hread
  rcases ofTokens_cases hbody pos with ⟨d, -, h⟩ | ⟨rfl, h⟩ | ⟨o, outer, ho, h⟩ |
    ⟨used, t, rest, d, rfl, hd, h⟩ | ⟨used, t, rest, lists, e', rfl, ho, hr, h⟩
  all_goals
    rw [hread] at h
    cases h
  · exact ⟨by simp, by simp [ReadError.isIncomplete], by simp [ReadError.isIncomplete], by simp⟩
  · exact correctPrefix_opened ho hbody
  · exact correctPrefix_trailing hd
  · exact correctPrefix_refused ho hr

theorem read_error_correctPrefix_mismatched :
    ∃ body pos, Token.scan "([) x" = .ok (body ++ [⟨.eof, [], pos⟩]) ∧
      CorrectPrefix body ⟨⟨1, 3⟩, .mismatchedClose ")" "[" ⟨1, 2⟩⟩ := by
  have hscan :
      Token.scan "([) x" = .ok [⟨.opening, "(", ⟨1, 1⟩⟩, ⟨.opening, "[", ⟨1, 2⟩⟩, ⟨.closing, ")", ⟨1, 3⟩⟩,
        ⟨.symbol, "x", ⟨1, 5⟩⟩, ⟨.eof, [], ⟨1, 6⟩⟩] := rfl
  have hread : read "([) x" = .error ⟨⟨1, 3⟩, .mismatchedClose ")" "[" ⟨1, 2⟩⟩ := rfl
  obtain ⟨body, pos, hts, hfit⟩ := read_error_correctPrefix hscan hread
  exact ⟨body, pos, hts ▸ hscan, hfit⟩

end StepLang.Datum
