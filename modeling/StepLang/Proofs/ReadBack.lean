import StepLang.Proofs.Files

/-!
# Reading what was written

Writing goes to the place that a path names, and makes the directories above it. Reading goes the way of the
path and looks every place on it up. So a path can be read behind a write unless it leads through a place
that is neither above the file nor was a directory before.
-/

namespace StepLang

namespace Path

/-- The places where elements of a path are looked up: where the elements before them lead. -/
def Visits (here : Place) (es : List Text) (q : Place) : Prop :=
  ∃ front element back, es = front ++ element :: back ∧ q = front.foldl advance here

theorem not_visits_nil (here q : Place) : ¬ Visits here [] q := by
  intro ⟨front, element, back, h, _⟩
  simp at h

theorem visits_cons {here q : Place} {element : Text} {es : List Text} :
    Visits here (element :: es) q ↔ q = here ∨ Visits (advance here element) es q := by
  constructor
  · intro ⟨front, other, back, hsplit, hq⟩
    cases front with
    | nil => exact Or.inl hq
    | cons first front =>
      cases hsplit
      exact Or.inr ⟨front, other, back, rfl, hq⟩
  · intro h
    rcases h with hq | ⟨front, other, back, hsplit, hq⟩
    · exact ⟨[], element, es, rfl, hq⟩
    · exact ⟨element :: front, other, back, by rw [hsplit, List.cons_append], hq⟩

theorem prefix_advance {element : Text} (h : element ≠ "..") (here : Place) :
    here <+: advance here element := by
  unfold advance
  by_cases hstay : element = [] ∨ element = "."
  · refine ⟨[], ?_⟩
    rw [if_pos hstay, List.append_nil]
  · rw [if_neg hstay, if_neg h]
    exact List.prefix_append here [element]

theorem prefix_foldl_advance {es : List Text} (h : ∀ element ∈ es, element ≠ "..") (here : Place) :
    here <+: es.foldl advance here := by
  induction es generalizing here with
  | nil => exact List.prefix_rfl
  | cons element es ih =>
    obtain ⟨helement, hes⟩ := List.forall_mem_cons.mp h
    exact (prefix_advance helement here).trans (ih hes (advance here element))

theorem Visits.prefix_foldl {here q : Place} {es : List Text} (h : Visits here es q)
    (hdown : ∀ element ∈ es, element ≠ "..") : q <+: es.dropLast.foldl advance here := by
  obtain ⟨front, element, back, rfl, rfl⟩ := h
  rw [List.dropLast_append_cons, List.foldl_append]
  apply prefix_foldl_advance
  intro other hother
  exact hdown other (List.mem_append_right _ (List.dropLast_subset _ hother))

/-- A path that never goes up and ends in a name. -/
structure Plain (p : Text) : Prop where
  down : ∀ element ∈ elements p, element ≠ ".."
  name : ∀ last ∈ (elements p).getLast?, last ≠ [] ∧ last ≠ "."

theorem elements_ne_nil (p : Text) : elements p ≠ [] := List.splitOnP_ne_nil _ _

theorem Plain.parent_eq {p : Text} (h : Plain p) (work : Place) :
    parent (resolve work p) = (elements p).dropLast.foldl advance (origin work p) := by
  rcases List.eq_nil_or_concat (elements p) with hnil | ⟨front, last, hlast⟩
  · exact absurd hnil (elements_ne_nil p)
  · rw [List.concat_eq_append] at hlast
    obtain ⟨hne, hdot⟩ := h.name last (by rw [hlast, List.getLast?_concat, Option.mem_some_iff])
    have hup := h.down last (by rw [hlast]; exact List.mem_append_right _ List.mem_cons_self)
    have hname : ∀ here, advance here last = here ++ [last] := by
      intro here
      rw [advance, if_neg (not_or.mpr ⟨hne, hdot⟩), if_neg hup]
    rw [parent, resolve, hlast, List.foldl_append, List.foldl_cons, List.foldl_nil, hname,
      List.dropLast_concat, List.dropLast_concat]

end Path

namespace FileSystem

/-- The path can be asked for: nothing is wrong with it as it is written, and no element of it is too long. -/
structure Admits (p : Text) : Prop where
  path : pathFault? p = none
  names : ∀ element ∈ Path.elements p, isLongName element = false

theorem walk_cons (fs : FileSystem) (here : Place) (element : Text) (es : List Text) (place : Place) :
    fs.walk here (element :: es) = .ok place ↔ fs.node? here = some .directory ∧ isLongName element = false ∧
      (fs.node? (Path.advance here element)).isSome = true ∧
      fs.walk (Path.advance here element) es = .ok place := by
  rw [walk]
  by_cases hhere : fs.node? here = some .directory
  · rw [if_neg (not_not_intro hhere)]
    by_cases hname : isLongName element = true
    · simp [hname]
    · rw [if_neg hname]
      by_cases hnext : (fs.node? (Path.advance here element)).isSome = true
      · simp [hhere, hname, hnext]
      · simp [hnext]
  · simp [hhere]

theorem walk_eq_ok_iff {fs : FileSystem} {here place : Place} {es : List Text} (hes : es ≠ []) :
    fs.walk here es = .ok place ↔ (∀ element ∈ es, isLongName element = false) ∧
      (∀ q, Path.Visits here es q → fs.node? q = some .directory) ∧
      place = es.foldl Path.advance here ∧ (fs.node? place).isSome = true := by
  induction es generalizing here with
  | nil => exact absurd rfl hes
  | cons element es ih =>
    rw [walk_cons]
    simp only [List.forall_mem_cons, Path.visits_cons, List.foldl_cons, forall_eq_or_imp]
    by_cases hrest : es = []
    · subst hrest
      constructor
      · intro ⟨hhere, hname, hnext, hplace⟩
        cases hplace
        exact ⟨⟨hname, fun _ h => absurd h List.not_mem_nil⟩,
          ⟨hhere, fun q hq => absurd hq (Path.not_visits_nil _ q)⟩, rfl, hnext⟩
      · intro ⟨⟨hname, _⟩, ⟨hhere, _⟩, hplace, hpresent⟩
        subst hplace
        exact ⟨hhere, hname, hpresent, rfl⟩
    · rw [ih hrest]
      constructor
      · intro ⟨hhere, hname, _, hnames, hvisits, hplace, hpresent⟩
        exact ⟨⟨hname, hnames⟩, ⟨hhere, hvisits⟩, hplace, hpresent⟩
      · intro ⟨⟨hname, hnames⟩, ⟨hhere, hvisits⟩, hplace, hpresent⟩
        obtain ⟨next, rest, rfl⟩ := List.exists_cons_of_ne_nil hrest
        have hnext := hvisits (Path.advance here element) (Path.visits_cons.mpr (Or.inl rfl))
        exact ⟨hhere, hname, by rw [hnext]; rfl, hnames, hvisits, hplace, hpresent⟩

theorem locate_eq_ok_iff {fs : FileSystem} {p : Text} {place : Place} :
    fs.locate p = .ok place ↔
      pathFault? p = none ∧ p ≠ [] ∧ fs.walk (Path.origin fs.work p) (Path.elements p) = .ok place := by
  rw [locate]
  cases pathFault? p with
  | some fault => simp
  | none =>
    by_cases hp : p = []
    · simp [hp]
    · simp [hp]

theorem read_eq_ok_iff_visits {fs : FileSystem} {p content : Text} :
    fs.read p = .ok content ↔ Admits p ∧ p ≠ [] ∧
      (∀ q, Path.Visits (Path.origin fs.work p) (Path.elements p) q → fs.node? q = some .directory) ∧
      fs.content? (Path.resolve fs.work p) = some content := by
  rw [read_eq_ok_iff]
  simp only [locate_eq_ok_iff, walk_eq_ok_iff (Path.elements_ne_nil p)]
  constructor
  · intro ⟨place, ⟨hfault, hp, hnames, hvisits, hplace, _⟩, hcontent⟩
    rw [hplace] at hcontent
    exact ⟨⟨hfault, hnames⟩, hp, hvisits, hcontent⟩
  · intro ⟨⟨hfault, hnames⟩, hp, hvisits, hcontent⟩
    refine ⟨_, ⟨hfault, hp, hnames, hvisits, rfl, ?_⟩, hcontent⟩
    rw [← Path.resolve, content?_eq_some_iff.mp hcontent]
    rfl

theorem eq_or_prefix {here q : Place} {name : Text} {rest : List Text} (hfrom : here <+: q)
    (hto : q <+: here ++ name :: rest) : q = here ∨ here ++ [name] <+: q := by
  obtain ⟨more, rfl⟩ := hfrom
  cases more with
  | nil => exact Or.inl (List.append_nil here)
  | cons first more =>
    obtain ⟨rfl, -⟩ := List.cons_prefix_cons.mp ((List.prefix_append_right_inj here).mp hto)
    exact Or.inr ⟨more, by rw [List.append_assoc, List.singleton_append]⟩

theorem makeDirectories_cons {fs made : FileSystem} {here : Place} {name : Text} {rest : List Text}
    (h : fs.makeDirectories here (name :: rest) = (made, .ok ())) :
    ∃ mid : FileSystem, mid.node? (here ++ [name]) = some .directory ∧
      mid.makeDirectories (here ++ [name]) rest = (made, .ok ()) := by
  rw [makeDirectories] at h
  cases hnode : fs.node? (here ++ [name]) with
  | some node =>
    cases node with
    | directory =>
      simp only [hnode] at h
      exact ⟨fs, hnode, h⟩
    | file content =>
      simp only [hnode] at h
      cases h
  | none =>
    simp only [hnode] at h
    cases hfault : placeFault? (here ++ [name]) with
    | some fault =>
      rw [hfault] at h
      cases h
    | none =>
      rw [hfault] at h
      exact ⟨_, by rw [node?_put _ (by simp), if_pos rfl], h⟩

theorem directory_of_makeDirectories {fs made : FileSystem} {here : Place} {names : List Text}
    (h : fs.makeDirectories here names = (made, .ok ())) (hhere : fs.node? here = some .directory) {q : Place}
    (hfrom : here <+: q) (hto : q <+: here ++ names) : made.node? q = some .directory := by
  induction names generalizing fs here with
  | nil =>
    cases h
    rw [List.append_nil] at hto
    rw [hto.eq_of_length_le hfrom.length_le]
    exact hhere
  | cons name rest ih =>
    rcases eq_or_prefix hfrom hto with rfl | hnext
    · have hgrows := fs.grows_makeDirectories q (name :: rest)
      rw [h] at hgrows
      exact hgrows.directory q hhere
    · obtain ⟨mid, hmid, hmade⟩ := makeDirectories_cons h
      rw [List.append_cons] at hto
      exact ih hmade hmid hnext hto

theorem node?_makeDirectories {here : Place} {names : List Text} {q : Place} (h : ¬ q <+: here ++ names)
    (fs : FileSystem) : (fs.makeDirectories here names).1.node? q = fs.node? q := by
  induction names generalizing fs here with
  | nil => rfl
  | cons name rest ih =>
    rw [List.append_cons] at h
    have hne : q ≠ here ++ [name] := by
      intro heq
      rw [heq] at h
      exact h (List.prefix_append _ _)
    rw [makeDirectories]
    cases fs.node? (here ++ [name]) with
    | some node =>
      cases node with
      | directory => exact ih h fs
      | file content => rfl
    | none =>
      cases placeFault? (here ++ [name]) with
      | some fault => rfl
      | none =>
        simp only
        rw [ih h, node?_put _ (by simp), if_neg hne]

section Written

variable {fs after : FileSystem} {p content : Text} (h : fs.write p content = (after, .ok ()))
include h

theorem write_eq_ok :
    ∃ made, fs.makeDirectories [] (Path.parent (Path.resolve fs.work p)) = (made, .ok ()) ∧
      Path.resolve fs.work p ≠ [] ∧ made.node? (Path.resolve fs.work p) ≠ some .directory ∧
      after = made.put (Path.resolve fs.work p) (.file content) := by
  rw [write] at h
  cases hmake : fs.makeDirectories [] (Path.parent (Path.resolve fs.work p)) with
  | mk made result =>
    cases result with
    | error e =>
      simp only [hmake] at h
      cases h
    | ok u =>
      simp only [hmake] at h
      cases hwrite : made.writeAt (Path.resolve fs.work p) content with
      | error e =>
        simp only [hwrite] at h
        cases h
      | ok written =>
        simp only [hwrite] at h
        cases h
        exact ⟨made, rfl, writeAt_eq_ok hwrite⟩

theorem directory_iff_of_write (q : Place) :
    after.node? q = some .directory ↔
      q <+: Path.parent (Path.resolve fs.work p) ∨ fs.node? q = some .directory := by
  obtain ⟨made, hmake, hplace, hnode, rfl⟩ := write_eq_ok h
  have hgrows := fs.grows_makeDirectories [] (Path.parent (Path.resolve fs.work p))
  rw [hmake] at hgrows
  constructor
  · intro hq
    by_cases habove : q <+: Path.parent (Path.resolve fs.work p)
    · exact Or.inl habove
    · have hmade : (fs.makeDirectories [] (Path.parent (Path.resolve fs.work p))).1.node? q = fs.node? q :=
        node?_makeDirectories habove fs
      rw [hmake] at hmade
      by_cases hfile : q = Path.resolve fs.work p
      · rw [node?_put _ hplace, if_pos hfile] at hq
        cases hq
      · rw [node?_put _ hplace, if_neg hfile, hmade] at hq
        exact Or.inr hq
  · intro hq
    have hmade : made.node? q = some .directory := by
      rcases hq with hq | hq
      · exact directory_of_makeDirectories hmake rfl (List.nil_prefix) hq
      · exact hgrows.directory q hq
    rw [node?_put _ hplace, if_neg]
    · exact hmade
    · intro heq
      rw [heq] at hmade
      exact hnode hmade

theorem ne_nil_of_visits
    (hvisits : ∀ q, Path.Visits (Path.origin fs.work p) (Path.elements p) q →
      after.node? q = some .directory) :
    p ≠ [] := by
  intro hp
  have hfile := content?_eq_some_iff.mp (content?_write h)
  subst hp
  have hdirectory := hvisits (Path.resolve fs.work []) ⟨[], [], [], rfl, rfl⟩
  rw [hfile] at hdirectory
  cases hdirectory

theorem work_write : after.work = fs.work := by
  have hgrows := fs.grows_write p content
  rw [h] at hgrows
  exact hgrows.work

theorem read_eq_ok_iff_of_write :
    after.read p = .ok content ↔ Admits p ∧
      ∀ q, Path.Visits (Path.origin fs.work p) (Path.elements p) q →
        q <+: Path.parent (Path.resolve fs.work p) ∨ fs.node? q = some .directory := by
  simp only [read_eq_ok_iff_visits, work_write h, ← directory_iff_of_write h]
  constructor
  · intro hread
    obtain ⟨hadmits, _, hvisits, _⟩ := hread
    exact ⟨hadmits, hvisits⟩
  · intro hread
    obtain ⟨hadmits, hvisits⟩ := hread
    exact ⟨hadmits, ne_nil_of_visits h hvisits, hvisits, content?_write h⟩

/-- A path is read behind a write exactly when it can be asked for and leads through places above the file
and through directories from before alone. It gives back what was written then, and a path that never goes
up and ends in a name is of that kind. -/
theorem read_written_iff :
    (after.read p = .ok content ↔ Admits p ∧
      ∀ q, Path.Visits (Path.origin fs.work p) (Path.elements p) q →
        q <+: Path.parent (Path.resolve fs.work p) ∨ fs.node? q = some .directory) ∧
    (∀ other, after.read p = .ok other → other = content) ∧
    (Admits p → Path.Plain p → after.read p = .ok content) := by
  have hiff := read_eq_ok_iff_of_write h
  refine ⟨hiff, ?_, ?_⟩
  · intro other hread
    obtain ⟨_, _, _, hother⟩ := read_eq_ok_iff_visits.mp hread
    rw [work_write h, content?_write h] at hother
    exact (Option.some.inj hother).symm
  · intro hadmits hplain
    refine hiff.mpr ⟨hadmits, ?_⟩
    intro q hq
    rw [hplain.parent_eq]
    exact Or.inl (hq.prefix_foldl hplain.down)

end Written

theorem read_written_iff_new_directory :
    Admits "a//./b" ∧ Path.Plain "a//./b" ∧
      ∃ after, (fresh [("work" : Text)]).write "a//./b" "5" = (after, .ok ()) ∧
      after.read "a//./b" = .ok "5" := by
  have hadmits : Admits "a//./b" := ⟨by decide, by decide⟩
  have hplain : Path.Plain "a//./b" := ⟨by decide, by decide⟩
  obtain ⟨after, hwrite⟩ : ∃ after, (fresh [("work" : Text)]).write "a//./b" "5" = (after, .ok ()) := ⟨_, rfl⟩
  exact ⟨hadmits, hplain, after, hwrite, (read_written_iff hwrite).2.2 hadmits hplain⟩

/-- A directory that is left again by `..` is not made, so the file beside it is written and not found. -/
theorem read_written_missing_directory :
    ∃ after, (fresh [("work" : Text)]).write "a/../x" "5" = (after, .ok ()) ∧
      after.content? [("work" : Text), ("x" : Text)] = some "5" ∧
      after.read "a/../x" = .error (.read "a/../x" ⟨"open", "a/../x", .noEntry⟩) :=
  ⟨_, rfl, rfl, rfl⟩

end FileSystem

end StepLang
