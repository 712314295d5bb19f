import Mathlib.Data.List.Basic
import StepLang.Files.Path

/-!
# Replaced extensions

Replacing the extension of a path changes its last element only. So the new path names another place, unless
the path had the extension already, and then it is the same path.
-/

namespace StepLang.Path

/-- What may stand before the last element of a path. -/
def IsFront (front : Text) : Prop := front = [] ∨ ∃ before, front = before ++ [slash]

theorem elements_of_notMem {t : Text} (h : slash ∉ t) : elements t = [t] := by
  apply List.splitOnP_eq_singleton
  intro g hg
  rw [decide_eq_false_iff_not]
  rintro rfl
  exact h hg

theorem isAbsolute_of_notMem {t : Text} (h : slash ∉ t) : isAbsolute t = false := by
  rw [isAbsolute, decide_eq_false_iff_not]
  intro hhead
  exact h (List.mem_of_head? hhead)

theorem resolve_front (work : Place) {front : Text} (h : IsFront front) :
    ∃ here, ∀ last, slash ∉ last → resolve work (front ++ last) = advance here last := by
  rcases h with rfl | ⟨before, rfl⟩
  · refine ⟨work, ?_⟩
    intro last hlast
    rw [List.nil_append, resolve, elements_of_notMem hlast, origin, isAbsolute_of_notMem hlast]
    rfl
  · refine ⟨(elements before).foldl advance (origin work (before ++ [slash])), ?_⟩
    intro last hlast
    have helements : elements (before ++ [slash] ++ last) = elements before ++ [last] := by
      rw [List.append_assoc, List.singleton_append, elements, List.splitOnP_append_cons _ _ (by simp)]
      exact congrArg _ (elements_of_notMem hlast)
    have horigin : origin work (before ++ [slash] ++ last) = origin work (before ++ [slash]) := by
      cases before with
      | nil => rfl
      | cons g before => rfl
    rw [resolve, helements, horigin, List.foldl_append]
    rfl

/-- A path up to its last element, that element up to its last dot, and the rest of it, which is its
extension. -/
structure Parts (p front stem old : Text) : Prop where
  eq : p = front ++ (stem ++ old)
  front : IsFront front
  last : slash ∉ stem ++ old
  old : (old = [] ∧ dot ∉ stem) ∨ ∃ name, old = dot :: name ∧ dot ∉ name

theorem exists_front (p : Text) : ∃ front last, p = front ++ last ∧ IsFront front ∧ slash ∉ last := by
  by_cases h : slash ∈ p.reverse
  · obtain ⟨last, before, hp, hlast⟩ := List.eq_append_cons_of_mem h
    refine ⟨before.reverse ++ [slash], last.reverse, ?_, .inr ⟨_, rfl⟩, by simpa using hlast⟩
    rw [← List.reverse_cons, ← List.reverse_append, ← hp, List.reverse_reverse]
  · exact ⟨[], p, rfl, .inl rfl, by simpa using h⟩

theorem exists_parts (p : Text) : ∃ front stem old, Parts p front stem old := by
  obtain ⟨front, last, rfl, hfront, hlast⟩ := exists_front p
  by_cases h : dot ∈ last.reverse
  · obtain ⟨name, stem, hp, hname⟩ := List.eq_append_cons_of_mem h
    have heq : last = stem.reverse ++ dot :: name.reverse := by
      rw [← List.reverse_reverse last, hp]
      simp
    refine ⟨front, stem.reverse, dot :: name.reverse, by rw [heq], hfront, by rwa [← heq], .inr ⟨_, rfl, ?_⟩⟩
    simpa using hname
  · exact ⟨front, last, [], by simp, hfront, by simpa using hlast, .inl ⟨rfl, by simpa using h⟩⟩

theorem takeWhile_ne {g : Glyph} {t u : Text} (ht : g ∉ t) (hu : u = [] ∨ ∃ v, u = g :: v) :
    (t ++ u).takeWhile (· ≠ g) = t := by
  have hall : ∀ a ∈ t, decide (a ≠ g) = true := by
    intro a ha
    rw [decide_eq_true_iff]
    rintro rfl
    exact ht ha
  rw [List.takeWhile_append_of_pos hall]
  rcases hu with rfl | ⟨v, rfl⟩
  · exact List.append_nil t
  · rw [List.takeWhile_cons_of_neg (by simp), List.append_nil]

theorem withExtension_parts {p front stem old : Text} (h : Parts p front stem old) (extension : Text) :
    withExtension p extension = front ++ (stem ++ extension) := by
  have hbackwards : p.reverse = (stem ++ old).reverse ++ front.reverse := by rw [h.eq, List.reverse_append]
  have hfront : front.reverse = [] ∨ ∃ v, front.reverse = slash :: v := by
    rcases h.front with rfl | ⟨before, rfl⟩
    · exact .inl rfl
    · exact .inr ⟨before.reverse, by simp⟩
  have hlast : p.reverse.takeWhile (· ≠ slash) = (stem ++ old).reverse := by
    rw [hbackwards]
    exact takeWhile_ne (mt List.mem_reverse.mp h.last) hfront
  simp only [withExtension, hlast]
  rcases h.old with ⟨rfl, hstem⟩ | ⟨name, rfl, hname⟩
  · rw [if_neg (by simpa using hstem), h.eq]
    simp
  · have hnew : (stem ++ dot :: name).reverse.takeWhile (· ≠ dot) = name.reverse := by
      rw [List.reverse_append, List.reverse_cons, List.append_assoc]
      exact takeWhile_ne (by simpa using hname) (.inr ⟨_, rfl⟩)
    have hdrop : p.reverse.drop (name.reverse.length + 1) = stem.reverse ++ front.reverse := by
      rw [hbackwards, List.reverse_append, List.reverse_cons, List.append_assoc, List.append_assoc,
        ← List.drop_drop, List.drop_left]
      rfl
    rw [if_pos (by simp), hnew, hdrop]
    simp

/-- An extension with a name of its own behind the dot. -/
def IsExtension (extension : Text) : Prop :=
  ∃ name, extension = dot :: name ∧ name ≠ [] ∧ dot ∉ name ∧ slash ∉ name

theorem eq_of_dotted_suffix {a b : Text} (h : dot :: a <:+ dot :: b) (hb : dot ∉ b) : a = b := by
  rcases List.suffix_cons_iff.mp h with heq | hsuffix
  · exact (List.cons.inj heq).2
  · exact absurd (hsuffix.subset List.mem_cons_self) hb

theorem Parts.suffix_iff {p front stem old extension : Text} (h : Parts p front stem old)
    (hextension : IsExtension extension) : extension <:+ p ↔ old = extension := by
  obtain ⟨name, rfl, -, hdot, hslash⟩ := hextension
  constructor
  · intro hsuffix
    rw [h.eq] at hsuffix
    rcases h.old with ⟨rfl, hstem⟩ | ⟨tail, rfl, htail⟩
    · rw [List.append_nil] at hsuffix
      have hnot : ¬ dot :: name <:+ stem := fun hin => hstem (hin.subset List.mem_cons_self)
      rcases h.front with rfl | ⟨before, rfl⟩
      · exact absurd hsuffix hnot
      · have hlast : slash :: stem <:+ before ++ [slash] ++ stem := ⟨before, by simp⟩
        rcases List.suffix_or_suffix_of_suffix hsuffix hlast with hin | hover
        · rcases List.suffix_cons_iff.mp hin with heq | hin
          · cases heq
          · exact absurd hin hnot
        · rcases List.mem_cons.mp (hover.subset List.mem_cons_self) with heq | hmem
          · cases heq
          · exact absurd hmem hslash
    · have hold : dot :: tail <:+ front ++ (stem ++ dot :: tail) := ⟨front ++ stem, by simp⟩
      rcases List.suffix_or_suffix_of_suffix hsuffix hold with hin | hin
      · rw [eq_of_dotted_suffix hin htail]
      · rw [eq_of_dotted_suffix hin hdot]
  · rintro rfl
    exact ⟨front ++ stem, by rw [h.eq, List.append_assoc]⟩

theorem withExtension_of_suffix {extension : Text} (hextension : IsExtension extension) {p : Text}
    (h : extension <:+ p) : withExtension p extension = p := by
  obtain ⟨front, stem, old, hparts⟩ := exists_parts p
  rw [hparts.suffix_iff hextension] at h
  rw [withExtension_parts hparts, hparts.eq, h]

theorem advance_name {name : Text} (hne : name ≠ []) (hlast : name.getLast? ≠ some dot) (here : Place) :
    advance here name = here ++ [name] := by
  rw [advance, if_neg, if_neg]
  · rintro rfl
    exact hlast rfl
  · rintro (rfl | rfl)
    · exact hne rfl
    · exact hlast rfl

theorem eq_of_advance {here : Place} {element name : Text} (h : advance here element = here ++ [name]) :
    element = name := by
  have hlength := congrArg List.length h
  rw [List.length_append, List.length_singleton] at hlength
  unfold advance at h hlength
  split at h
  · rename_i hstay
    rw [if_pos hstay] at hlength
    omega
  rename_i hstay
  rw [if_neg hstay] at hlength
  split at h
  · rename_i hup
    rw [if_pos hup, List.length_dropLast] at hlength
    omega
  · simpa using h

theorem resolve_withExtension_iff {extension : Text} (hextension : IsExtension extension)
    (work : Place) (p : Text) :
    resolve work (withExtension p extension) = resolve work p ↔ extension <:+ p := by
  obtain ⟨front, stem, old, h⟩ := exists_parts p
  obtain ⟨here, hhere⟩ := resolve_front work h.front
  rw [h.suffix_iff hextension, withExtension_parts h, h.eq]
  constructor
  · intro hplace
    obtain ⟨name, rfl, hne, hdot, hslash⟩ := hextension
    have hstem : slash ∉ stem := fun hmem => h.last (List.mem_append_left old hmem)
    have hnew : slash ∉ stem ++ dot :: name := by
      rw [List.mem_append, List.mem_cons]
      rintro (hmem | heq | hmem)
      · exact hstem hmem
      · cases heq
      · exact hslash hmem
    have hlast : (stem ++ dot :: name).getLast? ≠ some dot := by
      intro hget
      rw [List.append_cons, List.getLast?_append_of_ne_nil _ hne] at hget
      exact hdot (List.mem_of_getLast? hget)
    rw [hhere _ h.last, hhere _ hnew, advance_name (by simp) hlast] at hplace
    exact List.append_cancel_left (eq_of_advance hplace.symm)
  · rintro rfl
    rfl

end StepLang.Path
