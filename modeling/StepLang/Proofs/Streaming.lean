import StepLang.Proofs.Grammar

/-!
# Reading datum after datum

One stream can be asked again and again. A call takes tokens until a datum is finished or a token is out of
place, and leaves the rest to the next call, which starts with no list open. So the data that a token list
is put together from come back one by one, and then the end of input for ever.
-/

namespace StepLang

open Datum

namespace TokenStream

/-- The stream after a number of calls, whatever they returned. -/
def after (s : TokenStream) : Nat → TokenStream
  | 0 => s
  | n + 1 => (s.after n).next.2

/-- What a call does with lists that are open, one token after the other: its result, and the tokens that it
leaves. -/
inductive Reads (endPos : Position) : List OpenList → List Token → Except ReadError Datum →
    List Token → Prop where
  | ended (lists : List OpenList) : Reads endPos lists [] (.error (.ended endPos lists)) []
  | last {lists : List OpenList} {t : Token} {result : Except ReadError Datum}
      (htake : ReadProgress.take lists t = .done result)
      (rest : List Token) : Reads endPos lists (t :: rest) result rest
  | more {lists inner : List OpenList} {t : Token} {rest left : List Token} {result : Except ReadError Datum}
      (htake : ReadProgress.take lists t = .reading inner) (hrest : Reads endPos inner rest result left) :
      Reads endPos lists (t :: rest) result left

theorem reads_readInto (endPos : Position) (lists : List OpenList) (ts : List Token) :
    Reads endPos lists ts (readInto endPos lists ts).1 (readInto endPos lists ts).2 := by
  induction ts generalizing lists with
  | nil => exact .ended lists
  | cons t ts ih =>
    rw [readInto_cons]
    cases htake : ReadProgress.take lists t with
    | done result => exact .last htake ts
    | reading inner => exact .more htake (ih inner)

theorem Reads.exists_drop {endPos : Position} {lists : List OpenList} {ts left : List Token}
    {result : Except ReadError Datum} (h : Reads endPos lists ts result left) :
    ∃ n, left = ts.drop n ∧ n ≤ ts.length ∧ (0 < ts.length → 0 < n) := by
  induction h with
  | ended lists => exact ⟨0, rfl, Nat.le_refl 0, id⟩
  | last _ rest => exact ⟨1, rfl, Nat.le_add_left 1 rest.length, fun _ => Nat.one_pos⟩
  | more _ _ ih =>
    obtain ⟨n, hleft, hle, -⟩ := ih
    exact ⟨n + 1, hleft, Nat.succ_le_succ hle, fun _ => Nat.succ_pos n⟩

theorem endPos_after (s : TokenStream) (n : Nat) : (s.after n).endPos = s.endPos := by
  induction n with
  | zero => rfl
  | succ n ih => exact ih

theorem reads_after (s : TokenStream) (n : Nat) :
    Reads s.endPos [] (s.after n).waiting (s.after n).next.1 (s.after (n + 1)).waiting := by
  rw [← endPos_after s n]
  exact reads_readInto _ [] _

/-- Between calls the stream stands at a token of the list or at its end. -/
theorem exists_waiting_eq_drop (s : TokenStream) (n : Nat) :
    ∃ i ≤ s.waiting.length, (s.after n).waiting = s.waiting.drop i := by
  induction n with
  | zero => exact ⟨0, Nat.zero_le _, rfl⟩
  | succ n ih =>
    obtain ⟨i, hi, hwaiting⟩ := ih
    obtain ⟨k, hleft, hk, -⟩ := (s.reads_after n).exists_drop
    rw [hwaiting, List.length_drop] at hk
    refine ⟨i + k, by omega, ?_⟩
    rw [hleft, hwaiting, List.drop_drop]

theorem next_of_derives {s : TokenStream} {ts rest : List Token} {d : Datum} (h : Derives ts d)
    (hwaiting : s.waiting = ts ++ rest) : s.next = (.ok d, ⟨rest, s.endPos⟩) := by
  simp only [next, hwaiting, readInto_value s.endPos h]

theorem ofTokens_concat (ts : List Token) (t : Token) : ofTokens (ts ++ [t]) = ⟨ts ++ [t], t.pos⟩ := by
  rw [ofTokens, List.getLast?_concat]

theorem next_end {eof : Token} (heof : eof.kind = .eof) {left : List Token}
    (hleft : left = [eof] ∨ left = []) :
    next ⟨left, eof.pos⟩ = (.error ⟨eof.pos, .emptyInput⟩, ⟨[], eof.pos⟩) := by
  rcases hleft with rfl | rfl
  · simp only [next, readInto, ReadProgress.take, heof, ReadError.ended]
  · rfl

section Parts

variable {parts : List (List Token × Datum)} {eof : Token} (hparts : ∀ p ∈ parts, Derives p.1 p.2)
include hparts

theorem after_parts {n : Nat} (hn : n ≤ parts.length) :
    (ofTokens (parts.flatMap Prod.fst ++ [eof])).after n =
    ⟨(parts.drop n).flatMap Prod.fst ++ [eof], eof.pos⟩ := by
  induction n with
  | zero => exact ofTokens_concat _ eof
  | succ n ih =>
    have hdrop : parts.drop n = parts[n] :: parts.drop (n + 1) := List.drop_eq_getElem_cons hn
    rw [after, ih (Nat.le_of_succ_le hn), hdrop, List.flatMap_cons, List.append_assoc,
      next_of_derives (hparts _ (List.getElem_mem hn)) rfl]

theorem after_end (heof : eof.kind = .eof) (n : Nat) :
    ∃ left, (ofTokens (parts.flatMap Prod.fst ++ [eof])).after (parts.length + n) = ⟨left, eof.pos⟩ ∧
      (left = [eof] ∨ left = []) := by
  induction n with
  | zero =>
    refine ⟨[eof], ?_, .inl rfl⟩
    rw [Nat.add_zero, after_parts hparts (Nat.le_refl _), List.drop_length]
    rfl
  | succ n ih =>
    obtain ⟨left, hafter, hleft⟩ := ih
    refine ⟨[], ?_, .inr rfl⟩
    rw [← Nat.add_assoc, after, hafter, next_end heof hleft]

end Parts

/-- Where a token list is put together from the tokens of data and an end of input, the calls return the
data in order, each with its own tokens taken, and from then on the end of input at its position. On any
token list a call comes to its end after finitely many tokens, from wherever the calls before it, also those
that failed, have left the stream; it does not go behind the last token, and it takes at least one while
there are any. -/
theorem next_streams :
    (∀ (parts : List (List Token × Datum)) (eof : Token), (∀ p ∈ parts, Derives p.1 p.2) → eof.kind = .eof →
      ∀ s, s = ofTokens (parts.flatMap Prod.fst ++ [eof]) →
        (∀ (n : Nat) (p : List Token × Datum), parts[n]? = some p →
          (s.after n).next.1 = .ok p.2 ∧ (s.after n).waiting = p.1 ++ (s.after (n + 1)).waiting) ∧
        (s.after parts.length).waiting = [eof] ∧
        ∀ n, parts.length ≤ n → (s.after n).next.1 = .error ⟨eof.pos, .emptyInput⟩) ∧
    ∀ (ts : List Token) (n : Nat) (s : TokenStream), s = ofTokens ts →
      Reads s.endPos [] (s.after n).waiting (s.after n).next.1 (s.after (n + 1)).waiting ∧
      ∃ i j, (s.after n).waiting = ts.drop i ∧ (s.after (n + 1)).waiting = ts.drop j ∧ i ≤ j ∧ j ≤ ts.length ∧
        (i < ts.length → i < j) := by
  constructor
  · intro parts eof hparts heof s hs
    subst hs
    refine ⟨?_, ?_, ?_⟩
    · intro n p hp
      obtain ⟨hn, rfl⟩ := List.getElem?_eq_some_iff.mp hp
      have hbefore := @after_parts parts eof hparts n (Nat.le_of_lt hn)
      have hbehind := @after_parts parts eof hparts (n + 1) hn
      rw [List.drop_eq_getElem_cons hn, List.flatMap_cons, List.append_assoc] at hbefore
      rw [hbefore, hbehind, next_of_derives (hparts _ (List.getElem_mem hn)) rfl]
      exact ⟨rfl, rfl⟩
    · rw [after_parts hparts (Nat.le_refl _), List.drop_length]
      rfl
    · intro n hn
      obtain ⟨k, rfl⟩ := Nat.exists_eq_add_of_le hn
      obtain ⟨left, hafter, hleft⟩ := after_end hparts heof k
      rw [hafter, next_end heof hleft]
  · intro ts n s hs
    subst hs
    have hreads := (ofTokens ts).reads_after n
    obtain ⟨i, hi, hwaiting⟩ := (ofTokens ts).exists_waiting_eq_drop n
    obtain ⟨k, hleft, hk, hpos⟩ := hreads.exists_drop
    change i ≤ ts.length at hi
    change _ = ts.drop i at hwaiting
    rw [hwaiting, List.length_drop] at hk hpos
    refine ⟨hreads, i, i + k, hwaiting, ?_, by omega, by omega, by omega⟩
    rw [hleft, hwaiting, List.drop_drop]

/-- Two data and the end of input; then brackets that do not fit, from which the next call goes on. -/
theorem next_streams_mismatched :
    (∃ s, s = ofTokens [⟨.opening, "[", ⟨1, 1⟩⟩, ⟨.closing, "]", ⟨1, 2⟩⟩, ⟨.symbol, "a", ⟨1, 3⟩⟩,
      ⟨.eof, [], ⟨1, 4⟩⟩] ∧ s.next.1 = .ok (.list [] ⟨1, 1⟩) ∧
      (s.after 1).next.1 = .ok (.atom .symbol "a" ⟨1, 3⟩) ∧
      (s.after 7).next.1 = .error ⟨⟨1, 4⟩, .emptyInput⟩) ∧
    ∃ s, s = ofTokens [⟨.opening, "(", ⟨1, 1⟩⟩, ⟨.closing, "]", ⟨1, 2⟩⟩, ⟨.other 9, "a", ⟨1, 3⟩⟩] ∧
      s.next.1 = .error ⟨⟨1, 2⟩, .mismatchedClose "]" "(" ⟨1, 1⟩⟩ ∧
      Reads ⟨1, 3⟩ [] [⟨.other 9, "a", ⟨1, 3⟩⟩] (s.after 1).next.1 (s.after 2).waiting ∧
      (s.after 2).waiting = [] := by
  have hlist : Derives [⟨.opening, "[", ⟨1, 1⟩⟩, ⟨.closing, "]", ⟨1, 2⟩⟩] (.list [] ⟨1, 1⟩) :=
    .list _ _ [] ⟨rfl, rfl, .inr ⟨rfl, rfl⟩⟩ (by simp)
  have hatom : Derives [⟨.symbol, "a", ⟨1, 3⟩⟩] (.atom .symbol "a" ⟨1, 3⟩) := .symbol _ rfl
  obtain ⟨hdata, -, hend⟩ := next_streams.1
    [([⟨.opening, "[", ⟨1, 1⟩⟩, ⟨.closing, "]", ⟨1, 2⟩⟩], .list [] ⟨1, 1⟩),
      ([⟨.symbol, "a", ⟨1, 3⟩⟩], .atom .symbol "a" ⟨1, 3⟩)]
    ⟨.eof, [], ⟨1, 4⟩⟩ (List.forall_mem_cons.mpr ⟨hlist, List.forall_mem_singleton.mpr hatom⟩) rfl _ rfl
  have hreads := (next_streams.2
    [⟨.opening, "(", ⟨1, 1⟩⟩, ⟨.closing, "]", ⟨1, 2⟩⟩, ⟨.other 9, "a", ⟨1, 3⟩⟩] 1 _ rfl).1
  exact ⟨⟨_, rfl, (hdata 0 _ rfl).1, (hdata 1 _ rfl).1, hend 7 (by decide)⟩, _, rfl, rfl, hreads, rfl⟩

end TokenStream

end StepLang
