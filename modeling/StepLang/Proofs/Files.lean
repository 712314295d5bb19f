import StepLang.Files.FileSystem

/-!
# What writing leaves alone

Writing may make directories, and it changes the content of no file but the one at the place that the path
names. So whatever can be read at another place is read there again. The place is found by names alone, and
where a path can be read, looking up every element on the way leads to the same place.
-/

namespace StepLang

namespace FileSystem

/-- The content of the file at a place, where there is one. -/
def content? (fs : FileSystem) (place : Place) : Option Text :=
  match fs.node? place with
  | some (.file content) => some content
  | _ => none

theorem content?_eq_some_iff {fs : FileSystem} {place : Place} {content : Text} :
    fs.content? place = some content ↔ fs.node? place = some (.file content) := by
  unfold content?
  split
  · rename_i h
    rw [h, Option.some.injEq, Option.some.injEq, Node.file.injEq]
  · rename_i h
    constructor
    · intro hcontent
      cases hcontent
    · intro hnode
      exact absurd hnode (h content)

theorem content?_congr {fs after : FileSystem} {place : Place} (h : after.node? place = fs.node? place) :
    after.content? place = fs.content? place := by
  rw [content?, content?, h]

theorem lookup_filter_ne {place q : Place} (h : q ≠ place) (nodes : List (Place × Node)) :
    (nodes.filter (·.1 ≠ place)).lookup q = nodes.lookup q := by
  induction nodes with
  | nil => rfl
  | cons first nodes ih =>
    obtain ⟨p, node⟩ := first
    by_cases hp : p = place
    · have hq : (q == p) = false := by rw [hp, beq_eq_false_iff_ne]; exact h
      rw [List.filter_cons_of_neg (by simp [hp]), ih, List.lookup_cons, hq]
    · rw [List.filter_cons_of_pos (by simp [hp]), List.lookup_cons, List.lookup_cons, ih]

theorem node?_put (fs : FileSystem) {place : Place} (hplace : place ≠ []) (node : Node) (q : Place) :
    (fs.put place node).node? q = if q = place then some node else fs.node? q := by
  by_cases hq : q = place
  · subst hq
    rw [if_pos rfl, node?, if_neg hplace, put, List.lookup_cons_self]
  · have hbeq : (q == place) = false := beq_eq_false_iff_ne.mpr hq
    rw [if_neg hq, node?, node?, put, List.lookup_cons, hbeq]
    exact congrArg _ (lookup_filter_ne hq fs.nodes)

/-- Directories stay, nothing goes away, and only files at the places `written` are changed. -/
structure Grows (fs after : FileSystem) (written : Place → Prop) : Prop where
  work : after.work = fs.work
  directory : ∀ place, fs.node? place = some .directory → after.node? place = some .directory
  present : ∀ place, (fs.node? place).isSome = true → (after.node? place).isSome = true
  content : ∀ place, ¬ written place → after.content? place = fs.content? place

namespace Grows

variable {fs mid after : FileSystem} {written : Place → Prop}

theorem refl (fs : FileSystem) (written : Place → Prop) : fs.Grows fs written :=
  ⟨rfl, fun _ h => h, fun _ h => h, fun _ _ => rfl⟩

theorem trans (h : fs.Grows mid written) (k : mid.Grows after written) : fs.Grows after written where
  work := k.work.trans h.work
  directory := fun place hplace => k.directory place (h.directory place hplace)
  present := fun place hplace => k.present place (h.present place hplace)
  content := fun place hplace => (k.content place hplace).trans (h.content place hplace)

theorem mono {larger : Place → Prop} (h : fs.Grows after written)
    (hle : ∀ place, written place → larger place) :
    fs.Grows after larger :=
  ⟨h.work, h.directory, h.present, fun place hplace => h.content place (mt (hle place) hplace)⟩

theorem walk_eq_ok (h : fs.Grows after written) {here place : Place} {elements : List Text}
    (hwalk : fs.walk here elements = .ok place) : after.walk here elements = .ok place := by
  induction elements generalizing here with
  | nil => exact hwalk
  | cons element rest ih =>
    rw [walk] at hwalk ⊢
    split at hwalk
    · cases hwalk
    rename_i hdirectory
    rw [if_neg (not_not_intro (h.directory here (Classical.not_not.mp hdirectory)))]
    split at hwalk
    · cases hwalk
    rename_i hname
    rw [if_neg hname]
    simp only at hwalk ⊢
    split at hwalk
    · rename_i hpresent
      rw [if_pos (h.present _ hpresent)]
      exact ih hwalk
    · cases hwalk

theorem locate_eq_ok (h : fs.Grows after written) {p : Text} {place : Place}
    (hlocate : fs.locate p = .ok place) :
    after.locate p = .ok place := by
  rw [locate] at hlocate ⊢
  split at hlocate
  · cases hlocate
  split at hlocate
  · cases hlocate
  rename_i hp
  rw [if_neg hp, h.work]
  exact h.walk_eq_ok hlocate

end Grows

theorem grows_put (fs : FileSystem) {place : Place} (hplace : place ≠ [])
    (hnode : fs.node? place ≠ some .directory) (node : Node) : fs.Grows (fs.put place node) (· = place) := by
  refine ⟨rfl, ?_, ?_, ?_⟩
  · intro q hq
    rw [fs.node?_put hplace, if_neg]
    · exact hq
    · rintro rfl
      exact hnode hq
  · intro q hq
    rw [fs.node?_put hplace]
    split
    · rfl
    · exact hq
  · intro q hq
    apply content?_congr
    rw [fs.node?_put hplace, if_neg hq]

theorem grows_put_directory (fs : FileSystem) {place : Place} (hplace : place ≠ [])
    (hnode : fs.node? place = none) :
    fs.Grows (fs.put place .directory) fun _ => False := by
  have hgrows := fs.grows_put hplace (by simp [hnode]) .directory
  refine ⟨hgrows.work, hgrows.directory, hgrows.present, ?_⟩
  intro q _
  by_cases hq : q = place
  · rw [content?, content?, fs.node?_put hplace, if_pos hq, hq, hnode]
  · exact hgrows.content q hq

/-- Directories are made along a path, also when that fails half-way, and no file is touched. -/
theorem grows_makeDirectories (fs : FileSystem) (here : Place) (names : List Text) :
    fs.Grows (fs.makeDirectories here names).1 fun _ => False := by
  induction names generalizing fs here with
  | nil => exact .refl fs _
  | cons name rest ih =>
    rw [makeDirectories]
    split
    · exact ih fs _
    · exact .refl fs _
    · rename_i hnode
      split
      · exact .refl fs _
      · exact (fs.grows_put_directory (by simp) hnode).trans (ih _ _)

theorem writeAt_eq_ok {fs after : FileSystem} {place : Place} {content : Text}
    (h : fs.writeAt place content = .ok after) :
    place ≠ [] ∧ fs.node? place ≠ some .directory ∧ after = fs.put place (.file content) := by
  rw [writeAt] at h
  split at h
  · cases h
  split at h
  · cases h
  rename_i hnode
  cases h
  refine ⟨?_, hnode, rfl⟩
  rintro rfl
  exact hnode rfl

/-- All that writing can do: it makes directories, and then it puts the file there or fails. -/
theorem write_cases (fs : FileSystem) (p content : Text) :
    (∃ after e, fs.write p content = (after, .error e) ∧ fs.Grows after fun _ => False) ∨
      ∃ made : FileSystem, fs.Grows made (fun _ => False) ∧ Path.resolve fs.work p ≠ [] ∧
        made.node? (Path.resolve fs.work p) ≠ some .directory ∧
        fs.write p content = (made.put (Path.resolve fs.work p) (.file content), .ok ()) := by
  have hmade := fs.grows_makeDirectories [] (Path.parent (Path.resolve fs.work p))
  rw [write]
  split
  · rename_i after e heq
    rw [heq] at hmade
    exact .inl ⟨after, _, rfl, hmade⟩
  · rename_i made heq
    rw [heq] at hmade
    split
    · exact .inl ⟨made, _, rfl, hmade⟩
    · rename_i after hwrite
      obtain ⟨hplace, hnode, rfl⟩ := writeAt_eq_ok hwrite
      exact .inr ⟨made, hmade, hplace, hnode, rfl⟩

theorem grows_write (fs : FileSystem) (p content : Text) :
    fs.Grows (fs.write p content).1 (· = Path.resolve fs.work p) := by
  rcases fs.write_cases p content with ⟨after, e, hwrite, hgrows⟩ | ⟨made, hgrows, hplace, hnode, hwrite⟩
  · rw [hwrite]
    exact hgrows.mono fun _ h => h.elim
  · rw [hwrite]
    exact (hgrows.mono fun _ h => h.elim).trans (made.grows_put hplace hnode _)

theorem content?_write {fs after : FileSystem} {p content : Text} (h : fs.write p content = (after, .ok ())) :
    after.content? (Path.resolve fs.work p) = some content := by
  rcases fs.write_cases p content with ⟨failed, e, hwrite, -⟩ | ⟨made, -, hplace, -, hwrite⟩
  · rw [hwrite] at h
    cases h
  · rw [hwrite] at h
    cases h
    rw [content?_eq_some_iff, node?_put _ hplace, if_pos rfl]

theorem grows_of_write_error {fs after : FileSystem} {p content : Text} {e : FileError}
    (h : fs.write p content = (after, .error e)) : fs.Grows after fun _ => False := by
  rcases fs.write_cases p content with ⟨failed, error, hwrite, hgrows⟩ | ⟨made, -, -, -, hwrite⟩
  · rw [hwrite] at h
    cases h
    exact hgrows
  · rw [hwrite] at h
    cases h

theorem walk_place {fs : FileSystem} {here place : Place} {elements : List Text}
    (h : fs.walk here elements = .ok place) : place = elements.foldl Path.advance here := by
  induction elements generalizing here with
  | nil =>
    cases h
    rfl
  | cons element rest ih =>
    rw [walk] at h
    split at h
    · cases h
    split at h
    · cases h
    simp only at h
    split at h
    · exact ih h
    · cases h

theorem locate_place {fs : FileSystem} {p : Text} {place : Place} (h : fs.locate p = .ok place) :
    place = Path.resolve fs.work p := by
  rw [locate] at h
  split at h
  · cases h
  split at h
  · cases h
  exact walk_place h

theorem read_eq_ok_iff {fs : FileSystem} {p content : Text} :
    fs.read p = .ok content ↔ ∃ place, fs.locate p = .ok place ∧ fs.content? place = some content := by
  unfold read
  split
  · rename_i e hlocate
    simp [hlocate]
  · rename_i place hlocate
    simp only [hlocate, Except.ok.injEq, exists_eq_left', content?_eq_some_iff]
    split
    · rename_i c hnode
      simp [hnode]
    · rename_i hnode
      simp [hnode]
    · rename_i hnode
      simp [hnode]

theorem Grows.read_eq_ok {fs after : FileSystem} {written : Place → Prop} (h : fs.Grows after written)
    {p content : Text} (hwritten : ¬ written (Path.resolve fs.work p)) (hread : fs.read p = .ok content) :
    after.read p = .ok content := by
  obtain ⟨place, hlocate, hcontent⟩ := read_eq_ok_iff.mp hread
  refine read_eq_ok_iff.mpr ⟨place, h.locate_eq_ok hlocate, ?_⟩
  rw [← locate_place hlocate] at hwritten
  rw [h.content place hwritten, hcontent]

end FileSystem

end StepLang
