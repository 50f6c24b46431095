import AstroTemplate.Proofs.Cuts
import AstroTemplate.Proofs.Paths
import Mathlib.Data.List.Induction
import Mathlib.Data.List.Basic

set_option autoImplicit false

/-! # Changes to a tree of files

A tree is well formed if what it holds has names and stands in directories. Along names, paths lead
where they say (`FileTree.walk_eq_ok_iff`, `FileTree.find_eq_file_iff`).

Two relations say what became of a tree. `FileTree.GrewTo` is what any run of operations keeps:
places are as they were, but for directories at empty places and the files that were to be written.
`FileTree.UpdatedTo` is what writing without failure comes to: each file is there, with directories
above it, and nothing else has changed. It says what there is at every place
(`FileTree.UpdatedTo.lookup?_eq`), so it does not matter in which order files were written.
-/

namespace AstroTemplate

namespace FileTree

/-! ## Well-formed trees -/

/-- Everything in the tree has a name and stands in a directory. -/
structure WellFormed (tree : FileTree) : Prop where
  named : ∀ e ∈ tree.entries, ∀ name ∈ e.1, Path.IsName name
  in_directory : ∀ e ∈ tree.entries, tree.lookup? e.1.dropLast = some .directory

instance decidableWellFormed (tree : FileTree) : Decidable tree.WellFormed :=
  decidable_of_iff ((∀ e ∈ tree.entries, ∀ name ∈ e.1, Path.IsName name) ∧
      ∀ e ∈ tree.entries, tree.lookup? e.1.dropLast = some .directory)
    ⟨fun ⟨h₁, h₂⟩ => ⟨h₁, h₂⟩, fun ⟨h₁, h₂⟩ => ⟨h₁, h₂⟩⟩

@[simp] theorem lookup?_root (tree : FileTree) : tree.lookup? [] = some .directory := rfl

section

variable {tree : FileTree} {place above : Place} {entry : Entry}

theorem mem_of_lookup? (hne : place ≠ []) (h : tree.lookup? place = some entry) :
    (place, entry) ∈ tree.entries := by
  rw [lookup?, if_neg hne] at h
  exact mem_of_lookup h

theorem content?_eq_some_iff {content : ByteArray} :
    tree.content? place = some content ↔ tree.lookup? place = some (.file content) := by
  unfold content?
  cases h : tree.lookup? place with
  | none => simp
  | some entry => cases entry <;> simp

theorem WellFormed.isName (htree : tree.WellFormed) (h : tree.lookup? place = some entry) :
    ∀ name ∈ place, Path.IsName name := by
  by_cases hne : place = []
  · simp [hne]
  · exact htree.named _ (mem_of_lookup? hne h)

/-- Above whatever there is are directories. -/
theorem WellFormed.directory_above (htree : tree.WellFormed)
    (h : tree.lookup? place = some entry) (hunder : above <+: place) (hne : above ≠ place) :
    tree.lookup? above = some .directory := by
  induction place using List.reverseRecOn generalizing entry with
  | nil => exact absurd (List.prefix_nil.1 hunder) hne
  | append_singleton rest name ih =>
      have hparent := htree.in_directory _ (mem_of_lookup? (by simp) h)
      rw [List.dropLast_concat] at hparent
      have habove : above <+: rest := (List.prefix_concat_iff.1 hunder).resolve_left hne
      by_cases hrest : above = rest
      · rwa [hrest]
      · exact ih hparent habove hrest

/-- No file is under another. -/
theorem WellFormed.eq_of_under (htree : tree.WellFormed) {first second : ByteArray}
    (h : tree.lookup? above = some (.file first)) (h' : tree.lookup? place = some (.file second))
    (hunder : above <+: place) : above = place := by
  by_contra hne
  have := htree.directory_above h' hunder hne
  rw [h] at this
  cases this

end

/-! ## Paths -/

section

variable {tree : FileTree} {place next : Place} {names : List (List Char)} {path : Path}

/-- A name that is no step up leads one further down. -/
theorem step_of_not_mem {name : List Char} (hup : ['.', '.'] ∉ name :: names) :
    step place name = place ++ [name] ∧ ['.', '.'] ∉ names := by
  obtain ⟨hname, hnames⟩ := not_or.1 (mt List.mem_cons.2 hup)
  exact ⟨if_neg (Ne.symm hname), hnames⟩

theorem walk_append (place : Place) (names more : List (List Char)) :
    tree.walk place (names ++ more) = tree.walk place names >>= fun p => tree.walk p more := by
  induction names generalizing place with
  | nil => rfl
  | cons name names ih =>
      rw [List.cons_append, walk, walk]
      cases tree.lookup? place with
      | none => rfl
      | some entry =>
          cases entry with
          | directory => exact ih _
          | file => rfl

/-- Without steps up, names lead to the place they name, through directories. -/
theorem walk_eq_ok_iff (hup : ['.', '.'] ∉ names) :
    tree.walk place names = .ok next ↔ next = place ++ names ∧
      ∀ more, more <+: names → more ≠ names → tree.lookup? (place ++ more) = some .directory := by
  induction names generalizing place with
  | nil =>
      rw [walk, List.append_nil, Except.ok.injEq]
      constructor
      · rintro rfl
        exact ⟨rfl, fun more hmore hne => absurd (List.prefix_nil.1 hmore) hne⟩
      · rintro ⟨rfl, -⟩
        rfl
  | cons name names ih =>
      obtain ⟨hstep, hnames⟩ := step_of_not_mem hup
      have hassoc : ∀ more, place ++ name :: more = place ++ [name] ++ more :=
        List.append_cons place name
      constructor
      · intro h
        have hplace : tree.lookup? place = some .directory := by
          rw [walk] at h
          split at h
          · assumption
          · cases h
          · cases h
        rw [walk, hplace, hstep] at h
        obtain ⟨hnext, hdirectories⟩ := (ih hnames).1 h
        refine ⟨hnext.trans (hassoc names).symm, ?_⟩
        intro more hmore hne
        cases more with
        | nil => rwa [List.append_nil]
        | cons first more =>
            obtain ⟨rfl, htail⟩ := List.cons_prefix_cons.1 hmore
            rw [hassoc more]
            exact hdirectories more htail fun heq => hne (by rw [heq])
      · rintro ⟨rfl, h⟩
        have hplace : tree.lookup? place = some .directory := by
          have := h [] List.nil_prefix (List.cons_ne_nil _ _).symm
          rwa [List.append_nil] at this
        rw [walk, hplace, hstep]
        refine (ih hnames).2 ⟨hassoc names, fun more hmore hne => ?_⟩
        rw [← hassoc]
        exact h (name :: more) (List.cons_prefix_cons.2 ⟨rfl, hmore⟩) fun heq =>
          hne (List.cons.inj heq).2

theorem find_eq_ok {entry : Entry} (h : tree.find path = .ok (place, entry)) :
    tree.walk [] path.names = .ok place ∧ tree.lookup? place = some entry := by
  unfold find at h
  cases hwalk : tree.walk [] path.names with
  | error e => simp [hwalk, bind, Except.bind] at h
  | ok p =>
      simp only [hwalk, bind, Except.bind] at h
      cases hp : tree.lookup? p with
      | none => simp [hp] at h
      | some found =>
          cases found with
          | directory =>
              simp only [hp] at h
              obtain ⟨rfl, rfl⟩ := Prod.mk.inj (Except.ok.inj h)
              exact ⟨rfl, hp⟩
          | file content =>
              simp only [hp] at h
              split at h
              · cases h
              · obtain ⟨rfl, rfl⟩ := Prod.mk.inj (Except.ok.inj h)
                exact ⟨rfl, hp⟩

theorem find_eq_file_iff {content : ByteArray} :
    tree.find path = .ok (place, .file content) ↔ tree.walk [] path.names = .ok place ∧
      tree.lookup? place = some (.file content) ∧ path.endsInDirectory = false := by
  constructor
  · intro h
    obtain ⟨hwalk, hplace⟩ := find_eq_ok h
    refine ⟨hwalk, hplace, ?_⟩
    cases hends : path.endsInDirectory with
    | false => rfl
    | true =>
        simp only [find, hwalk, hplace, hends, bind, Except.bind, if_true] at h
        cases h
  · rintro ⟨hwalk, hplace, hends⟩
    simp [find, hwalk, hplace, hends, bind, Except.bind, pure, Except.pure]

theorem read_eq_ok_iff {content : ByteArray} :
    tree.read path = .ok content ↔ ∃ place, tree.find path = .ok (place, .file content) := by
  unfold read
  cases hfind : tree.find path with
  | error e => simp [bind, Except.bind]
  | ok found =>
      obtain ⟨p, entry⟩ := found
      cases entry <;> simp [bind, Except.bind, pure, Except.pure]

end

/-! ## What operations keep -/

/-- The tree `before` has become `after`, and all that happened is that directories were made where
there was nothing and files of the list were written where no directory was. -/
def GrewTo (before : FileTree) (writes : List (Place × ByteArray)) (after : FileTree) : Prop :=
  ∀ place, after.lookup? place = before.lookup? place ∨
    (before.lookup? place = none ∧ after.lookup? place = some .directory) ∨
    (before.lookup? place ≠ some .directory ∧
      ∃ content, (place, content) ∈ writes ∧ after.lookup? place = some (.file content))

section

variable {before middle after : FileTree} {place : Place} {path : Path}
  {writes more : List (Place × ByteArray)}

theorem GrewTo.refl (tree : FileTree) (writes : List (Place × ByteArray)) :
    tree.GrewTo writes tree := fun _ => .inl rfl

theorem GrewTo.mono (h : before.GrewTo writes after) (hsub : writes ⊆ more) :
    before.GrewTo more after := by
  intro place
  rcases h place with hsame | hmade | ⟨hfile, content, hmem, hwritten⟩
  · exact .inl hsame
  · exact .inr (.inl hmade)
  · exact .inr (.inr ⟨hfile, content, hsub hmem, hwritten⟩)

theorem GrewTo.directory (h : before.GrewTo writes after)
    (hplace : before.lookup? place = some .directory) : after.lookup? place = some .directory := by
  rcases h place with hsame | ⟨hnone, -⟩ | ⟨hfile, -⟩
  · rwa [hsame]
  · rw [hplace] at hnone
    cases hnone
  · exact absurd hplace hfile

theorem GrewTo.trans (h : before.GrewTo writes middle) (h' : middle.GrewTo writes after) :
    before.GrewTo writes after := by
  intro place
  rcases h' place with hsame | ⟨hnone, hmade⟩ | ⟨hfile, content, hmem, hwritten⟩
  · rw [hsame]
    exact h place
  · -- what is empty afterwards was empty before
    rcases h place with hsame | ⟨-, hmade'⟩ | ⟨-, content, -, hwritten⟩
    · exact .inr (.inl ⟨hsame ▸ hnone, hmade⟩)
    · rw [hnone] at hmade'
      cases hmade'
    · rw [hnone] at hwritten
      cases hwritten
  · exact .inr (.inr ⟨fun hplace => hfile (h.directory hplace), content, hmem, hwritten⟩)

/-- A file that is not to be written stays as it is. -/
theorem GrewTo.file {content : ByteArray} (h : before.GrewTo writes after)
    (hplace : before.lookup? place = some (.file content)) (hnew : ∀ w ∈ writes, w.1 ≠ place) :
    after.lookup? place = some (.file content) := by
  rcases h place with hsame | ⟨hnone, -⟩ | ⟨-, other, hmem, -⟩
  · rwa [hsame]
  · rw [hplace] at hnone
    cases hnone
  · exact absurd rfl (hnew _ hmem)

/-- The content of a place changes only if it is written. -/
theorem GrewTo.written (h : before.GrewTo writes after)
    (hchanged : after.content? place ≠ before.content? place) :
    ∃ content, (place, content) ∈ writes ∧ after.content? place = some content := by
  rcases h place with hsame | ⟨hnone, hmade⟩ | ⟨-, content, hmem, hwritten⟩
  · exact absurd (by rw [content?, content?, hsame]) hchanged
  · exact absurd (by rw [content?, content?, hnone, hmade]) hchanged
  · exact ⟨content, hmem, content?_eq_some_iff.2 hwritten⟩

theorem GrewTo.walk {names : List (List Char)} {start : Place} (h : before.GrewTo writes after)
    (hwalk : before.walk start names = .ok place) : after.walk start names = .ok place := by
  induction names generalizing start with
  | nil => exact hwalk
  | cons name names ih =>
      rw [FileTree.walk] at hwalk ⊢
      cases hstart : before.lookup? start with
      | none => simp [hstart] at hwalk
      | some entry =>
          cases entry with
          | file => simp [hstart] at hwalk
          | directory =>
              rw [hstart] at hwalk
              rw [h.directory hstart]
              exact ih hwalk

/-- A path that leads to a file leads there still, unless the file was to be written. -/
theorem GrewTo.find {content : ByteArray} (h : before.GrewTo writes after)
    (hfind : before.find path = .ok (place, .file content)) (hnew : ∀ w ∈ writes, w.1 ≠ place) :
    after.find path = .ok (place, .file content) := by
  obtain ⟨hwalk, hplace, hends⟩ := find_eq_file_iff.1 hfind
  exact find_eq_file_iff.2 ⟨h.walk hwalk, h.file hplace hnew, hends⟩

theorem grewTo_put_directory {tree : FileTree} (h : tree.lookup? place = none) :
    tree.GrewTo [] (tree.put place .directory) := by
  have hne : place ≠ [] := by
    rintro rfl
    cases h
  intro other
  by_cases hother : other = place
  · rw [hother, lookup?_put_self tree _ hne]
    exact .inr (.inl ⟨h, rfl⟩)
  · exact .inl (lookup?_put_of_ne tree _ hother)

theorem grewTo_put_file {tree : FileTree} (h : tree.lookup? place ≠ some .directory)
    (content : ByteArray) : tree.GrewTo [(place, content)] (tree.put place (.file content)) := by
  have hne : place ≠ [] := by
    rintro rfl
    exact h rfl
  intro other
  by_cases hother : other = place
  · rw [hother, lookup?_put_self tree _ hne]
    exact .inr (.inr ⟨h, content, List.mem_singleton_self _, rfl⟩)
  · exact .inl (lookup?_put_of_ne tree _ hother)

theorem grewTo_makeFrom (tree : FileTree) (made : Bool) (place : Place)
    (names : List (List Char)) : tree.GrewTo [] (tree.makeFrom made place names).1 := by
  induction names generalizing tree made place with
  | nil => exact .refl tree []
  | cons name names ih =>
      rw [makeFrom]
      cases hnext : tree.lookup? (step place name) with
      | none => exact (grewTo_put_directory hnext).trans (ih _ _ _)
      | some entry =>
          cases entry with
          | directory => exact ih _ _ _
          | file => exact .refl tree []

theorem grewTo_makeDirectories {tree : FileTree} {failure : Option FileError}
    (h : tree.makeDirectories path = (after, failure)) : tree.GrewTo [] after := by
  have hgrew := grewTo_makeFrom tree false [] path.names
  rwa [show tree.makeFrom false [] path.names = (after, failure) from h] at hgrew

/-- A file is written where its path leads to, if there is no directory. -/
theorem write_eq_ok_iff {tree : FileTree} {content : ByteArray} :
    tree.write path content = .ok after ↔ ∃ place, tree.walk [] path.names = .ok place ∧
      path.endsInDirectory = false ∧ tree.lookup? place ≠ some .directory ∧
      after = tree.put place (.file content) := by
  unfold write
  cases hwalk : tree.walk [] path.names with
  | error e => simp [bind, Except.bind]
  | ok place =>
      simp only [bind, Except.bind]
      split
      · rename_i hdirectory
        constructor
        · nofun
        · rintro ⟨p, hp, hends, hplace, -⟩
          obtain rfl := Except.ok.inj hp
          rcases hdirectory with h | h
          · rw [hends] at h
            cases h
          · exact absurd h hplace
      · rename_i hfile
        obtain ⟨hends, hplace⟩ := not_or.1 hfile
        constructor
        · intro h
          exact ⟨place, rfl, Bool.eq_false_iff.2 hends, hplace, (Except.ok.inj h).symm⟩
        · rintro ⟨p, hp, -, -, rfl⟩
          obtain rfl := Except.ok.inj hp
          rfl

/-- What has been written is read. -/
theorem read_write {tree : FileTree} {content : ByteArray}
    (h : tree.write path content = .ok after) : after.read path = .ok content := by
  obtain ⟨place, hwalk, hends, hplace, rfl⟩ := write_eq_ok_iff.1 h
  have hne : place ≠ [] := by
    rintro rfl
    exact hplace rfl
  have hgrew := grewTo_put_file hplace content
  exact read_eq_ok_iff.2 ⟨place, find_eq_file_iff.2
    ⟨hgrew.walk hwalk, lookup?_put_self tree _ hne, hends⟩⟩

end

/-! ## Writing files -/

/-- Nothing is in the way of a file at the place: there are no files above it, and it is no
directory. -/
structure ClearAt (tree : FileTree) (place : Place) : Prop where
  above : ∀ q content, q <+: place → q ≠ place → tree.lookup? q ≠ some (.file content)
  here : tree.lookup? place ≠ some .directory

/-- The tree `before` has become `after`, and all that happened is that the files of the list were
written, with directories above them. -/
structure UpdatedTo (before : FileTree) (writes : List (Place × ByteArray)) (after : FileTree) :
    Prop where
  file : ∀ w ∈ writes, after.lookup? w.1 = some (.file w.2)
  above : ∀ w ∈ writes, ∀ q, q <+: w.1 → q ≠ w.1 → after.lookup? q = some .directory
  other : ∀ q, (∀ w ∈ writes, ¬ q <+: w.1) → after.lookup? q = before.lookup? q

/-- Neither of two places is above the other or the same. -/
def Apart (p q : Place) : Prop := ¬ p <+: q ∧ ¬ q <+: p

section

variable {before middle after : FileTree} {place : Place} {path : Path} {content : ByteArray}
  {writes more : List (Place × ByteArray)}

theorem UpdatedTo.refl (tree : FileTree) : tree.UpdatedTo [] tree := ⟨nofun, nofun, fun _ _ => rfl⟩

/-- Writing files and then files elsewhere is writing them all. -/
theorem UpdatedTo.append (h : before.UpdatedTo writes middle) (h' : middle.UpdatedTo more after)
    (hapart : ∀ w ∈ writes, ∀ w' ∈ more, Apart w.1 w'.1) :
    before.UpdatedTo (writes ++ more) after where
  file := by
    intro w hw
    rcases List.mem_append.1 hw with hw | hw
    · rw [h'.other _ fun v hv => (hapart w hw v hv).1]
      exact h.file w hw
    · exact h'.file w hw
  above := by
    intro w hw q hq hne
    rcases List.mem_append.1 hw with hw | hw
    · -- a directory above an earlier file may be above a later one too
      by_cases hlater : ∃ v ∈ more, q <+: v.1
      · obtain ⟨v, hv, hqv⟩ := hlater
        refine h'.above v hv q hqv ?_
        rintro rfl
        exact (hapart w hw v hv).2 hq
      · rw [h'.other q fun v hv hqv => hlater ⟨v, hv, hqv⟩]
        exact h.above w hw q hq hne
    · exact h'.above w hw q hq hne
  other := by
    intro q hq
    rw [h'.other q fun v hv => hq v (List.mem_append_right writes hv)]
    exact h.other q fun v hv => hq v (List.mem_append_left more hv)

/-- What was written says what there is, whatever the order. -/
theorem UpdatedTo.lookup?_eq {after' : FileTree} (h : before.UpdatedTo writes after)
    (h' : before.UpdatedTo more after') (hsame : ∀ w, w ∈ writes ↔ w ∈ more) :
    after.lookup? = after'.lookup? := by
  funext q
  by_cases hq : ∃ w ∈ writes, q <+: w.1
  · obtain ⟨w, hw, hqw⟩ := hq
    by_cases hself : q = w.1
    · rw [hself, h.file w hw, h'.file w ((hsame w).1 hw)]
    · rw [h.above w hw q hqw hself, h'.above w ((hsame w).1 hw) q hqw hself]
  · have hnone : ∀ w ∈ writes, ¬ q <+: w.1 := fun w hw hqw => hq ⟨w, hw, hqw⟩
    rw [h.other q hnone, h'.other q fun w hw => hnone w ((hsame w).2 hw)]

/-- What is in the way of a file does not change if files are written apart from it, where nothing
was in the way. -/
theorem UpdatedTo.clearAt_iff (h : before.UpdatedTo writes after)
    (hclear : ∀ w ∈ writes, before.ClearAt w.1) (hapart : ∀ w ∈ writes, Apart w.1 place) :
    after.ClearAt place ↔ before.ClearAt place := by
  have habove : ∀ q c, q <+: place → q ≠ place →
      (after.lookup? q ≠ some (.file c) ↔ before.lookup? q ≠ some (.file c)) := by
    intro q c hq hne
    by_cases hqw : ∃ w ∈ writes, q <+: w.1
    · -- above a file that was written there is a directory now, and there was no file before
      obtain ⟨w, hw, hqw⟩ := hqw
      have hself : q ≠ w.1 := by
        rintro rfl
        exact (hapart w hw).1 hq
      rw [h.above w hw q hqw hself]
      simpa using (hclear w hw).above q c hqw hself
    · rw [h.other q fun w hw hq => hqw ⟨w, hw, hq⟩]
  have hhere : after.lookup? place = before.lookup? place := h.other place fun w hw => (hapart w hw).2
  constructor
  · intro hafter
    exact ⟨fun q c hq hne => (habove q c hq hne).1 (hafter.above q c hq hne), hhere ▸ hafter.here⟩
  · intro hbefore
    exact ⟨fun q c hq hne => (habove q c hq hne).2 (hbefore.above q c hq hne),
      hhere.symm ▸ hbefore.here⟩

end

/-! ## Making directories -/

section

variable {tree middle after : FileTree} {place : Place} {names : List (List Char)} {path : Path}
  {content : ByteArray}

/-- The places that names lead through are the next one and those from there on. -/
theorem forall_through_cons {p : Place → Prop} {name : List Char} :
    (∀ more, more ≠ [] → more <+: name :: names → p (place ++ more)) ↔
      p (place ++ [name]) ∧ ∀ more, more ≠ [] → more <+: names → p (place ++ [name] ++ more) := by
  constructor
  · intro h
    refine ⟨h [name] (List.cons_ne_nil _ _) (by simp), fun more hne hmore => ?_⟩
    rw [List.append_assoc]
    exact h (name :: more) (List.cons_ne_nil _ _) (List.cons_prefix_cons.2 ⟨rfl, hmore⟩)
  · rintro ⟨hnext, hrest⟩ more hne hmore
    cases more with
    | nil => exact absurd rfl hne
    | cons first more =>
        obtain ⟨rfl, htail⟩ := List.cons_prefix_cons.1 hmore
        by_cases hempty : more = []
        · rwa [hempty]
        · have := hrest more hempty htail
          rwa [List.append_assoc] at this

/-- What is put at a place does not change what is under it. -/
theorem lookup?_put_append (entry : Entry) {more : List (List Char)} (hne : more ≠ []) :
    (tree.put place entry).lookup? (place ++ more) = tree.lookup? (place ++ more) :=
  lookup?_put_of_ne tree entry (by simpa using hne)

/-- Directories can be made exactly if no file is in the way. -/
theorem makeFrom_eq_none_iff (hup : ['.', '.'] ∉ names) (made : Bool) :
    (tree.makeFrom made place names).2 = none ↔ ∀ more, more ≠ [] → more <+: names →
      ∀ c, tree.lookup? (place ++ more) ≠ some (.file c) := by
  induction names generalizing tree made place with
  | nil => exact ⟨fun _ more hne hmore => absurd (List.prefix_nil.1 hmore) hne, fun _ => rfl⟩
  | cons name names ih =>
      obtain ⟨hstep, hnames⟩ := step_of_not_mem hup
      rw [forall_through_cons (p := fun q => ∀ c, tree.lookup? q ≠ some (.file c)), makeFrom, hstep]
      cases hnext : tree.lookup? (place ++ [name]) with
      | none =>
          -- the directory that is made is not in the way of those under it
          rw [ih hnames]
          constructor
          · intro h
            refine ⟨nofun, fun more hne hmore => ?_⟩
            rw [← lookup?_put_append .directory hne]
            exact h more hne hmore
          · rintro ⟨-, h⟩ more hne hmore
            rw [lookup?_put_append .directory hne]
            exact h more hne hmore
      | some entry =>
          cases entry with
          | directory =>
              rw [ih hnames]
              exact (and_iff_right nofun).symm
          | file c => simp

theorem lookup?_makeFrom_through (hup : ['.', '.'] ∉ names) (made : Bool)
    (h : (tree.makeFrom made place names).2 = none) : ∀ more, more ≠ [] → more <+: names →
      (tree.makeFrom made place names).1.lookup? (place ++ more) = some .directory := by
  induction names generalizing tree made place with
  | nil => exact fun more hne hmore => absurd (List.prefix_nil.1 hmore) hne
  | cons name names ih =>
      obtain ⟨hstep, hnames⟩ := step_of_not_mem hup
      rw [forall_through_cons
        (p := fun q => (tree.makeFrom made place (name :: names)).1.lookup? q = some .directory)]
      rw [makeFrom, hstep] at h ⊢
      cases hnext : tree.lookup? (place ++ [name]) with
      | none =>
          rw [hnext] at h
          refine ⟨?_, ih hnames true h⟩
          exact (grewTo_makeFrom _ _ _ _).directory (lookup?_put_self tree _ (by simp))
      | some entry =>
          rw [hnext] at h
          cases entry with
          | directory => exact ⟨(grewTo_makeFrom _ _ _ _).directory hnext, ih hnames made h⟩
          | file c => cases h

theorem lookup?_makeFrom_other (hup : ['.', '.'] ∉ names) (made : Bool) {q : Place}
    (hq : ∀ more, more ≠ [] → more <+: names → q ≠ place ++ more) :
    (tree.makeFrom made place names).1.lookup? q = tree.lookup? q := by
  induction names generalizing tree made place with
  | nil => rfl
  | cons name names ih =>
      obtain ⟨hstep, hnames⟩ := step_of_not_mem hup
      rw [forall_through_cons (p := fun other => q ≠ other)] at hq
      rw [makeFrom, hstep]
      cases tree.lookup? (place ++ [name]) with
      | none =>
          show ((tree.put (place ++ [name]) .directory).makeFrom true _ names).1.lookup? q = _
          rw [ih hnames true hq.2, lookup?_put_of_ne tree _ hq.1]
      | some entry =>
          cases entry with
          | directory => exact ih hnames made hq.2
          | file => rfl

theorem prefix_dropLast_iff {q : Place} (hne : place ≠ []) :
    q <+: place.dropLast ↔ q <+: place ∧ q ≠ place := by
  obtain ⟨rest, last, rfl⟩ := (List.eq_nil_or_concat place).resolve_left hne
  rw [List.concat_eq_append, List.dropLast_concat, List.prefix_concat_iff]
  constructor
  · intro h
    refine ⟨.inr h, ?_⟩
    rintro rfl
    have := h.length_le
    rw [List.length_append, List.length_singleton] at this
    omega
  · rintro ⟨rfl | h, hself⟩
    · exact absurd rfl hself
    · exact h

/-! ## Files at the end of a path -/

/-- A file is put into a tree in which nothing but directories above it has changed. -/
theorem updatedTo_put (hne : place ≠ [])
    (habove : ∀ q, q <+: place → q ≠ place → middle.lookup? q = some .directory)
    (hother : ∀ q, ¬ q <+: place → middle.lookup? q = tree.lookup? q) (content : ByteArray) :
    tree.UpdatedTo [(place, content)] (middle.put place (.file content)) := by
  refine ⟨fun w hw => ?_, fun w hw q hq hself => ?_, fun q hq => ?_⟩
  · rw [List.mem_singleton.1 hw]
    exact lookup?_put_self middle _ hne
  · rw [List.mem_singleton.1 hw] at hq hself
    rw [lookup?_put_of_ne middle _ hself, habove q hq hself]
  · have hq : ¬ q <+: place := hq _ (List.mem_singleton_self _)
    have hself : q ≠ place := by
      rintro rfl
      exact hq (List.prefix_refl q)
    rw [lookup?_put_of_ne middle _ hself, hother q hq]

/-- A file can be written where a path leads to, once the directories on the way have been made. -/
def Takes (tree : FileTree) (path : Path) (content : ByteArray) : Prop :=
  ∃ middle after, tree.makeDirectories path.parent = (middle, none) ∧
    middle.write path content = .ok after

theorem takes_iff_of_make (h : tree.makeDirectories path.parent = (middle, none)) :
    tree.Takes path content ↔ ∃ after, middle.write path content = .ok after := by
  constructor
  · rintro ⟨other, after, hother, hafter⟩
    obtain rfl := (Prod.mk.inj (hother.symm.trans h)).1
    exact ⟨after, hafter⟩
  · rintro ⟨after, hafter⟩
    exact ⟨middle, after, h, hafter⟩

/-- What a path leads to can be written anew. -/
theorem write_eq_ok_of_find {old : ByteArray} (hfind : tree.find path = .ok (place, .file old))
    (content : ByteArray) : tree.write path content = .ok (tree.put place (.file content)) := by
  obtain ⟨hwalk, hplace, hends⟩ := find_eq_file_iff.1 hfind
  refine write_eq_ok_iff.2 ⟨place, hwalk, hends, ?_, rfl⟩
  rw [hplace]
  nofun

/-- A file that a path leads to can be written in its place. -/
theorem exists_write_of_find {old : ByteArray} (hup : ['.', '.'] ∉ path.names)
    (hfind : tree.find path = .ok (place, .file old)) (content : ByteArray) :
    ∃ after, tree.write path content = .ok after ∧
      tree.UpdatedTo [(path.names, content)] after ∧ tree.ClearAt path.names := by
  obtain ⟨hwalk, hplace, hends⟩ := find_eq_file_iff.1 hfind
  have hwrite := write_eq_ok_of_find hfind content
  obtain ⟨rfl, hdirectories⟩ := (walk_eq_ok_iff hup).1 hwalk
  rw [List.nil_append] at hplace
  refine ⟨_, hwrite, ?_, ?_, ?_⟩
  · exact updatedTo_put (Path.names_ne_nil hends) hdirectories (fun _ _ => rfl) content
  · intro q c hq hself
    rw [show tree.lookup? q = some .directory from hdirectories q hq hself]
    nofun
  · rw [hplace]
    nofun

section

variable (hup : ['.', '.'] ∉ path.names) (hends : path.endsInDirectory = false)

include hup hends

/-- What making the directories above a file comes to. -/
theorem makeDirectories_parent (tree : FileTree) :
    ((tree.makeDirectories path.parent).2 = none ↔
      ∀ q c, q <+: path.names → q ≠ path.names → tree.lookup? q ≠ some (.file c)) ∧
    ((tree.makeDirectories path.parent).2 = none → ∀ q, q <+: path.names → q ≠ path.names →
      (tree.makeDirectories path.parent).1.lookup? q = some .directory) ∧
    ∀ q, (q <+: path.names → q = path.names) →
      (tree.makeDirectories path.parent).1.lookup? q = tree.lookup? q := by
  have hne := Path.names_ne_nil hends
  have hup' : ['.', '.'] ∉ path.names.dropLast := fun hmem => hup (List.dropLast_subset _ hmem)
  rw [makeDirectories, Path.names_parent hends]
  refine ⟨?_, ?_, ?_⟩
  · rw [makeFrom_eq_none_iff hup']
    constructor
    · intro h q c hq hself
      by_cases hroot : q = []
      · rw [hroot]
        nofun
      · exact h q hroot ((prefix_dropLast_iff hne).2 ⟨hq, hself⟩) c
    · intro h q _ hq c
      obtain ⟨hq, hself⟩ := (prefix_dropLast_iff hne).1 hq
      exact h q c hq hself
  · intro h q hq hself
    by_cases hroot : q = []
    · rw [hroot, lookup?_root]
    · exact lookup?_makeFrom_through hup' false h q hroot ((prefix_dropLast_iff hne).2 ⟨hq, hself⟩)
  · intro q hq
    refine lookup?_makeFrom_other hup' false ?_
    rintro more - hmore rfl
    obtain ⟨hmore, hself⟩ := (prefix_dropLast_iff hne).1 hmore
    exact hself (hq hmore)

/-- A file can be written, with the directories above it, exactly if nothing is in the way. -/
theorem takes_iff (content : ByteArray) : tree.Takes path content ↔ tree.ClearAt path.names := by
  obtain ⟨hmake, hthrough, hother⟩ := makeDirectories_parent hup hends tree
  have hhere := hother path.names fun _ => rfl
  constructor
  · rintro ⟨middle, after, hmiddle, hwrite⟩
    obtain ⟨place, hwalk, -, hplace, -⟩ := write_eq_ok_iff.1 hwrite
    obtain ⟨rfl, -⟩ := (walk_eq_ok_iff hup).1 hwalk
    refine ⟨hmake.1 (congrArg Prod.snd hmiddle), ?_⟩
    rw [hmiddle] at hhere
    exact hhere ▸ hplace
  · intro hclear
    have hnone := hmake.2 hclear.above
    refine ⟨_, _, Prod.ext rfl hnone, write_eq_ok_iff.2 ⟨path.names, ?_, hends, ?_, rfl⟩⟩
    · exact (walk_eq_ok_iff hup).2 ⟨rfl, hthrough hnone⟩
    · exact hhere.symm ▸ hclear.here

theorem updatedTo_of_write (hmiddle : tree.makeDirectories path.parent = (middle, none))
    (hwrite : middle.write path content = .ok after) :
    tree.UpdatedTo [(path.names, content)] after := by
  obtain ⟨-, hthrough, hother⟩ := makeDirectories_parent hup hends tree
  rw [hmiddle] at hthrough hother
  obtain ⟨place, hwalk, -, -, rfl⟩ := write_eq_ok_iff.1 hwrite
  obtain ⟨rfl, -⟩ := (walk_eq_ok_iff hup).1 hwalk
  refine updatedTo_put (Path.names_ne_nil hends) (hthrough rfl) (fun q hq => ?_) content
  exact hother q fun h => absurd h hq

end

end

end FileTree

end AstroTemplate
