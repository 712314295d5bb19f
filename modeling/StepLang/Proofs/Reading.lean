import StepLang.Proofs.Grammar
import StepLang.Proofs.Scanning

/-!
# Reading accepts exactly the grammar

The open lists of the reader describe the tokens read so far: each list is an opening bracket with the values
that followed it. A token extends this description, completes a value, or is a closing bracket out of place.
-/

namespace StepLang

open Datum

/-- The tokens leave the lists open, innermost first: behind each opener stand the values of its items. -/
inductive Opened : List OpenList → List Token → Prop where
  | nothing : Opened [] []
  | inside {lists : List OpenList} {ts : List Token} (outer : Opened lists ts) (o : Token) (ho : o.Opens)
      (parts : List (List Token × Datum)) (items : ∀ p ∈ parts, Derives p.1 p.2) :
      Opened (⟨o, (parts.map Prod.snd).reverse⟩ :: lists) (ts ++ o :: parts.flatMap Prod.fst)

/-- A closing bracket where nothing is open, or of another shape than the innermost opener. -/
inductive Refused : List OpenList → Token → ReadError → Prop where
  | unexpected (t : Token) (h : t.kind = .closing) : Refused [] t ⟨t.pos, .unexpectedClose t.lexeme⟩
  | mismatched (t : Token) (o : OpenList) (outer : List OpenList) (h : t.kind = .closing)
      (hc : ¬ t.Closes o.opener) :
      Refused (o :: outer) t ⟨t.pos, .mismatchedClose t.lexeme o.opener.lexeme o.opener.pos⟩

theorem Opened.opens {o : OpenList} {outer : List OpenList} {ts : List Token} (h : Opened (o :: outer) ts) :
    o.opener.Opens := by
  cases h with
  | inside _ _ ho _ _ => exact ho

theorem Opened.eq_nil {ts : List Token} (h : Opened [] ts) : ts = [] := by
  cases h
  rfl

theorem Opened.readInto {lists : List OpenList} {ts : List Token} (h : Opened lists ts) (endPos : Position)
    (rest : List Token) :
    TokenStream.readInto endPos [] (ts ++ rest) = TokenStream.readInto endPos lists rest := by
  induction h generalizing rest with
  | nothing => rfl
  | inside _ o ho parts items ih =>
    rw [List.append_assoc, ih, List.cons_append, TokenStream.readInto_cons, ReadProgress.take, ho.1]
    simp only [TokenStream.resume_reading]
    rw [TokenStream.readInto_items endPos fun p hp => TokenStream.readInto_derives endPos (items p hp)]
    simp

/-- The tokens leave the lists of the progress open, or spell its datum. -/
inductive ReadProgress.Covers (ts : List Token) : ReadProgress → Prop where
  | opened {lists : List OpenList} (h : Opened lists ts) : Covers ts (.reading lists)
  | value {d : Datum} (h : Derives ts d) : Covers ts (.done (.ok d))

theorem Opened.deliver {lists : List OpenList} {ts us : List Token} {d : Datum} (h : Opened lists ts)
    (hd : Derives us d) : (ReadProgress.deliver d lists).Covers (ts ++ us) := by
  cases h with
  | nothing => exact .value hd
  | inside outer o ho parts items =>
    have hparts : ∀ p ∈ parts ++ [(us, d)], Derives p.1 p.2 :=
      List.forall_mem_append.mpr ⟨items, List.forall_mem_singleton.mpr hd⟩
    exact .opened (by simpa using Opened.inside outer o ho _ hparts)

theorem Token.closes_iff {o : OpenList} {t : Token} (ho : o.opener.Opens) (ht : t.kind = .closing) :
    t.Closes o.opener ↔ t.lexeme = o.closer := by
  refine ⟨fun h => h.lexeme_eq, fun h => ⟨ho.1, ht, ?_⟩⟩
  rcases ho.2 with hl | hl
  · have hne : ("(" : Text) ≠ "[" := by decide
    exact .inl ⟨hl, by simpa [OpenList.closer, hl, hne] using h⟩
  · exact .inr ⟨hl, by simpa [OpenList.closer, hl] using h⟩

theorem Refused.take {lists : List OpenList} {ts : List Token} {t : Token} {e : ReadError}
    (hr : Refused lists t e) (h : Opened lists ts) : ReadProgress.take lists t = .done (.error e) := by
  cases hr with
  | unexpected _ ht => simp [ReadProgress.take, ht, ReadProgress.close]
  | mismatched _ o outer ht hc =>
    have hne : t.lexeme ≠ o.closer := fun hl => hc ((Token.closes_iff h.opens ht).mpr hl)
    simp [ReadProgress.take, ht, ReadProgress.close, hne]

theorem Opened.close {lists : List OpenList} {ts : List Token} {t : Token} (h : Opened lists ts)
    (ht : t.kind = .closing) :
    (ReadProgress.close t lists).Covers (ts ++ [t]) ∨ ∃ e, Refused lists t e := by
  cases h with
  | nothing => exact .inr ⟨_, .unexpected t ht⟩
  | @inside outer us houter o ho parts items =>
    by_cases hc : t.Closes o
    · have hclose := TokenStream.close_closes (o := ⟨o, (parts.map Prod.snd).reverse⟩) hc outer
      have hcover := houter.deliver (.list o t parts hc items)
      rw [hclose]
      exact .inl (by simpa [OpenList.toDatum] using hcover)
    · exact .inr ⟨_, .mismatched t ⟨o, (parts.map Prod.snd).reverse⟩ outer ht hc⟩

theorem Opened.take {lists : List OpenList} {ts : List Token} {t : Token} (h : Opened lists ts)
    (ht : t.Scanned) :
    (ReadProgress.take lists t).Covers (ts ++ [t]) ∨ ∃ e, Refused lists t e := by
  unfold ReadProgress.take
  rcases ht with ho | ⟨hk, -⟩ | hk | hk
  · rw [ho.1]
    exact .inl (.opened (by simpa using Opened.inside h t ho [] (by simp)))
  · rw [hk]
    exact h.close hk
  · rw [hk]
    exact .inl (h.deliver (.integer t hk))
  · rw [hk]
    exact .inl (h.deliver (.symbol t hk))

/-- Scanned tokens leave lists open, begin with a value, or hold a closing bracket out of place. -/
theorem Opened.read_cases {lists : List OpenList} {ts body : List Token} (h : Opened lists ts)
    (hbody : ∀ t ∈ body, t.Scanned) :
    (∃ next, Opened next (ts ++ body)) ∨
      (∃ used rest d, body = used ++ rest ∧ Derives (ts ++ used) d) ∨
      ∃ used t rest next e, body = used ++ t :: rest ∧ Opened next (ts ++ used) ∧ Refused next t e := by
  induction body generalizing lists ts with
  | nil => exact .inl ⟨lists, by simpa using h⟩
  | cons t body ih =>
    have htail : ∀ u ∈ body, u.Scanned := fun u hu => hbody u (List.mem_cons_of_mem t hu)
    rcases h.take (hbody t List.mem_cons_self) with hcover | ⟨e, hr⟩
    · cases htake : ReadProgress.take lists t with
      | reading next =>
        rw [htake] at hcover
        cases hcover with
        | opened hnext =>
          rcases ih hnext htail with ⟨last, hlast⟩ | ⟨used, rest, d, hsplit, hd⟩ |
            ⟨used, u, rest, last, e, hsplit, hlast, hr⟩
          · exact .inl ⟨last, by simpa using hlast⟩
          · exact .inr (.inl ⟨t :: used, rest, d, by simp [hsplit], by simpa using hd⟩)
          · exact .inr (.inr ⟨t :: used, u, rest, last, e, by simp [hsplit], by simpa using hlast, hr⟩)
      | done result =>
        rw [htake] at hcover
        cases hcover with
        | value hd => exact .inr (.inl ⟨[t], body, _, rfl, hd⟩)
    · exact .inr (.inr ⟨[], t, body, lists, e, rfl, by simpa using h, hr⟩)

namespace Datum

theorem ofTokens_of_error {ts rest : List Token} {e : ReadError}
    (h : ∀ endPos, TokenStream.readInto endPos [] ts = (.error e, rest)) : ofTokens ts = .error e := by
  simp only [ofTokens, TokenStream.next, TokenStream.ofTokens, h]

theorem ofTokens_of_value {used rest : List Token} {t : Token} {d : Datum} (h : Derives used d) :
    ofTokens (used ++ t :: rest) = if t.kind = .eof then .ok d else .error ⟨t.pos, .trailing t.lexeme⟩ := by
  simp only [ofTokens, TokenStream.next, TokenStream.ofTokens, TokenStream.readInto_value _ h]

theorem ofTokens_of_opened {lists : List OpenList} {used rest : List Token} {t : Token} {e : ReadError}
    (h : Opened lists used) (ht : ReadProgress.take lists t = .done (.error e)) :
    ofTokens (used ++ t :: rest) = .error e := by
  have hread : ∀ endPos, TokenStream.readInto endPos [] (used ++ t :: rest) = (.error e, rest) := by
    intro endPos
    rw [h.readInto, TokenStream.readInto_cons, ht, TokenStream.resume_done]
  exact ofTokens_of_error hread

theorem ofTokens_cases {body : List Token} (hbody : ∀ t ∈ body, t.Scanned) (pos : Position) :
    (∃ d, Derives body d ∧ ofTokens (body ++ [⟨.eof, [], pos⟩]) = .ok d) ∨
      (body = [] ∧ ofTokens (body ++ [⟨.eof, [], pos⟩]) = .error ⟨pos, .emptyInput⟩) ∨
      (∃ o outer, Opened (o :: outer) body ∧
        ofTokens (body ++ [⟨.eof, [], pos⟩]) = .error ⟨o.opener.pos, .unclosed o.opener.lexeme⟩) ∨
      (∃ used t rest d, body = used ++ t :: rest ∧ Derives used d ∧
        ofTokens (body ++ [⟨.eof, [], pos⟩]) = .error ⟨t.pos, .trailing t.lexeme⟩) ∨
      ∃ used t rest lists e, body = used ++ t :: rest ∧ Opened lists used ∧ Refused lists t e ∧
        ofTokens (body ++ [⟨.eof, [], pos⟩]) = .error e := by
  rcases Opened.nothing.read_cases hbody with ⟨lists, h⟩ | ⟨used, rest, d, rfl, h⟩ |
    ⟨used, t, rest, lists, e, rfl, h, hr⟩
  · rw [List.nil_append] at h
    have heof : ofTokens (body ++ [⟨.eof, [], pos⟩]) = .error (.ended pos lists) := ofTokens_of_opened h rfl
    cases lists with
    | nil => exact .inr (.inl ⟨h.eq_nil, heof⟩)
    | cons o outer => exact .inr (.inr (.inl ⟨o, outer, h, heof⟩))
  · rw [List.nil_append] at h
    cases rest with
    | nil => exact .inl ⟨d, by simpa using h, by simp [ofTokens_of_value h]⟩
    | cons t rest =>
      have hne : t.kind ≠ .eof := by
        intro heof
        have ht := hbody t (by simp)
        simp [Token.Scanned, Token.Opens, heof] at ht
      refine .inr (.inr (.inr (.inl ⟨used, t, rest, d, rfl, h, ?_⟩)))
      rw [List.append_assoc, List.cons_append, ofTokens_of_value h, if_neg hne]
  · rw [List.nil_append] at h
    refine .inr (.inr (.inr (.inr ⟨used, t, rest, lists, e, rfl, h, hr, ?_⟩)))
    rw [List.append_assoc, List.cons_append, ofTokens_of_opened h (hr.take h)]

theorem read_of_scan {source : Text} {ts : List Token} (h : Token.scan source = .ok ts) :
    read source = ofTokens ts := by
  simp only [read, h]

theorem ofTokens_eq_ok_iff {body : List Token} (hbody : ∀ t ∈ body, t.Scanned) (pos : Position) (d : Datum) :
    ofTokens (body ++ [⟨.eof, [], pos⟩]) = .ok d ↔ Derives body d := by
  constructor
  · intro hread
    rcases ofTokens_cases hbody pos with ⟨d', hd, h⟩ | ⟨-, h⟩ | ⟨o, outer, -, h⟩ |
      ⟨used, t, rest, d', -, -, h⟩ | ⟨used, t, rest, lists, e, -, -, -, h⟩
    · rw [hread] at h
      cases h
      exact hd
    all_goals simp [hread] at h
  · intro hd
    rw [ofTokens_of_value hd, if_pos rfl]

/-- Reading returns a datum exactly when the tokens before the end of input spell it. They spell at most
one, and the nodes of that one are the tokens in their order, less the closing brackets. -/
theorem read_eq_ok_iff_derives {source : Text} {ts : List Token} (h : Token.scan source = .ok ts) :
    ∃ body pos, ts = body ++ [⟨.eof, [], pos⟩] ∧
      (∀ d, read source = .ok d ↔ Derives body d) ∧
      (∀ d d', Derives body d → Derives body d' → d = d') ∧
      ∀ d, Derives body d → d.nodes = body.filterMap Token.node? := by
  obtain ⟨body, pos, rfl, hbody⟩ := Token.scan_scanned h
  refine ⟨body, pos, rfl, ?_, fun d d' => derives_unique, fun d => nodes_eq_of_derives⟩
  intro d
  rw [read_of_scan h]
  exact ofTokens_eq_ok_iff hbody pos d

theorem read_eq_ok_iff_derives_nested :
    ∃ body pos, Token.scan "(a [1])" = .ok (body ++ [⟨.eof, [], pos⟩]) ∧
      Derives body (.list [.atom .symbol "a" ⟨1, 2⟩, .list [.atom .integer "1" ⟨1, 5⟩] ⟨1, 4⟩] ⟨1, 1⟩) := by
  have hscan :
      Token.scan "(a [1])" = .ok [⟨.opening, "(", ⟨1, 1⟩⟩, ⟨.symbol, "a", ⟨1, 2⟩⟩, ⟨.opening, "[", ⟨1, 4⟩⟩,
        ⟨.integer, "1", ⟨1, 5⟩⟩, ⟨.closing, "]", ⟨1, 6⟩⟩, ⟨.closing, ")", ⟨1, 7⟩⟩, ⟨.eof, [], ⟨1, 8⟩⟩] := rfl
  obtain ⟨body, pos, hts, hiff, -⟩ := read_eq_ok_iff_derives hscan
  exact ⟨body, pos, hts ▸ hscan, (hiff _).mp rfl⟩

end Datum

end StepLang
