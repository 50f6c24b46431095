import AstroTemplate.Run.Session
import Mathlib.Data.List.TakeWhile

set_option autoImplicit false

/-! # The names of a path

Paths are written in many ways, and what counts are their names. `names` turns a slash into a
division (`Path.names_append_slash`), so a path that is joined to another adds its names to the
other's (`Path.names_join`), and the path of a directory leaves the last name out
(`Path.names_parent`). The path of a file under a workspace has the names of the workspace and then
those of the file (`Session.names_path`).
-/

namespace AstroTemplate

/-! ## Cutting at a character -/

theorem splitAtChar_ne_nil (sep : Char) (s : List Char) : splitAtChar sep s ≠ [] := by
  cases s with
  | nil => simp [splitAtChar]
  | cons c s =>
      rw [splitAtChar]
      split
      · simp
      · split <;> simp

theorem splitAtChar_append (sep : Char) (s t : List Char) :
    splitAtChar sep (s ++ sep :: t) = splitAtChar sep s ++ splitAtChar sep t := by
  induction s with
  | nil => simp [splitAtChar]
  | cons c s ih =>
      by_cases hc : c = sep
      · simp [splitAtChar, hc, ih]
      · cases hs : splitAtChar sep s with
        | nil => exact absurd hs (splitAtChar_ne_nil sep s)
        | cons w ws => simp [splitAtChar, hc, ih, hs]

theorem splitAtChar_of_not_mem {sep : Char} {s : List Char} (h : sep ∉ s) :
    splitAtChar sep s = [s] := by
  induction s with
  | nil => rfl
  | cons c s ih =>
      obtain ⟨hc, hs⟩ := not_or.1 (mt List.mem_cons.2 h)
      rw [splitAtChar, if_neg (Ne.symm hc), ih hs]

/-- A text ends in its last piece. -/
theorem exists_last_piece (sep : Char) (s : List Char) :
    ∃ last, sep ∉ last ∧ (s = last ∨ ∃ before, s = before ++ sep :: last) := by
  induction s with
  | nil => exact ⟨[], List.not_mem_nil, .inl rfl⟩
  | cons c s ih =>
      obtain ⟨last, hlast, rfl | ⟨before, rfl⟩⟩ := ih
      · by_cases hc : sep = c
        · exact ⟨s, hlast, .inr ⟨[], by rw [hc]; rfl⟩⟩
        · exact ⟨c :: s, List.not_mem_cons_of_ne_of_not_mem hc hlast, .inl rfl⟩
      · exact ⟨last, hlast, .inr ⟨c :: before, rfl⟩⟩

namespace Path

/-- A name that leads on from a directory. -/
structure IsName (name : List Char) : Prop where
  nonempty : name ≠ []
  not_here : name ≠ ['.']
  not_up : name ≠ ['.', '.']
  no_slash : '/' ∉ name

instance decidableIsName (name : List Char) : Decidable (IsName name) :=
  decidable_of_iff (name ≠ [] ∧ name ≠ ['.'] ∧ name ≠ ['.', '.'] ∧ '/' ∉ name)
    ⟨fun ⟨h₁, h₂, h₃, h₄⟩ => ⟨h₁, h₂, h₃, h₄⟩, fun ⟨h₁, h₂, h₃, h₄⟩ => ⟨h₁, h₂, h₃, h₄⟩⟩

/-! ## Names -/

@[simp] theorem names_nil : names [] = [] := rfl

@[simp] theorem names_append_slash (path rest : Path) :
    names (path ++ '/' :: rest) = names path ++ names rest := by
  rw [names, splitAtChar_append, List.filter_append]
  rfl

theorem names_of_no_slash {name : List Char} (h : '/' ∉ name) :
    names name = if name = [] ∨ name = ['.'] then [] else [name] := by
  rw [names, splitAtChar_of_not_mem h]
  by_cases hnil : name = []
  · simp [hnil]
  · by_cases hdot : name = ['.']
    · simp [hdot]
    · simp [hnil, hdot]

@[simp] theorem IsName.names_eq {name : List Char} (h : IsName name) : names name = [name] := by
  rw [names_of_no_slash h.no_slash, if_neg (not_or_intro h.nonempty h.not_here)]

theorem IsName.isAbsolute_eq {name : List Char} (h : IsName name) : isAbsolute name = false := by
  cases name with
  | nil => rfl
  | cons c s =>
      have hc : '/' ≠ c := fun heq => h.no_slash (heq ▸ List.mem_cons_self)
      simpa [isAbsolute] using hc.symm

/-- A path that starts from `base` is written behind a slash, unless there is nothing to put it
behind. -/
theorem join_cases (base : Path) {path : Path} (h : isAbsolute path = false) :
    (base = [] ∧ join base path = path) ∨
      ∃ before, join base path = before ++ '/' :: path ∧ names before = names base := by
  unfold join
  by_cases hbase : base = []
  · exact .inl ⟨hbase, by simp [hbase]⟩
  · right
    have hempty : base.isEmpty = false := by simpa using hbase
    rw [h, hempty]
    by_cases hlast : base.getLast? = some '/'
    · obtain ⟨before, rfl⟩ := List.getLast?_eq_some_iff.1 hlast
      exact ⟨before, by simp, by simp⟩
    · exact ⟨base, by simp [hlast], rfl⟩

theorem names_join (base : Path) {path : Path} (h : isAbsolute path = false) :
    names (join base path) = names base ++ names path := by
  rcases join_cases base h with ⟨rfl, hjoin⟩ | ⟨before, hjoin, hnames⟩
  · rw [hjoin, names_nil, List.nil_append]
  · rw [hjoin, names_append_slash, hnames]

theorem mem_names_join {base path : Path} {name : List Char} (h : name ∈ names (join base path)) :
    name ∈ names base ∨ name ∈ names path := by
  by_cases habsolute : isAbsolute path = true
  · right
    simpa [join, habsolute] using h
  · rw [names_join base (Bool.eq_false_iff.2 habsolute)] at h
    exact List.mem_append.1 h

theorem names_foldl_join {file : List (List Char)} (h : ∀ name ∈ file, IsName name) (base : Path) :
    names (file.foldl join base) = names base ++ file := by
  induction file generalizing base with
  | nil => simp
  | cons name file ih =>
      have hname := h name List.mem_cons_self
      rw [List.foldl_cons, ih (fun n hn => h n (List.mem_cons_of_mem name hn)),
        names_join base hname.isAbsolute_eq, hname.names_eq, List.append_assoc]
      rfl

theorem ofNames_cons_cons (name next : List Char) (rest : List (List Char)) :
    ofNames (name :: next :: rest) = name ++ '/' :: ofNames (next :: rest) :=
  List.append_assoc name ['/'] (joinWith ['/'] (next :: rest))

theorem isAbsolute_ofNames {file : List (List Char)} (h : ∀ name ∈ file, IsName name) :
    isAbsolute (ofNames file) = false := by
  cases file with
  | nil => rfl
  | cons name rest =>
      have hname := h name List.mem_cons_self
      obtain ⟨c, s, rfl⟩ := List.exists_cons_of_ne_nil hname.nonempty
      cases rest with
      | nil => exact hname.isAbsolute_eq
      | cons next rest => exact hname.isAbsolute_eq

theorem names_ofNames {file : List (List Char)} (h : ∀ name ∈ file, IsName name) :
    names (ofNames file) = file := by
  induction file with
  | nil => rfl
  | cons name rest ih =>
      have hname := h name List.mem_cons_self
      have hrest := ih fun n hn => h n (List.mem_cons_of_mem name hn)
      cases rest with
      | nil => exact hname.names_eq
      | cons next rest =>
          rw [ofNames_cons_cons, names_append_slash, hname.names_eq, hrest]
          rfl

/-! ## Paths of directories -/

theorem endsInDirectory_append_slash (path rest : Path) :
    endsInDirectory (path ++ '/' :: rest) = endsInDirectory rest := by
  have hlast : (splitAtChar '/' (path ++ '/' :: rest)).getLastD []
      = (splitAtChar '/' rest).getLastD [] := by
    obtain ⟨pieces, last, hpieces⟩ :=
      (List.eq_nil_or_concat (splitAtChar '/' rest)).resolve_left (splitAtChar_ne_nil '/' rest)
    simp [splitAtChar_append, hpieces]
  rw [endsInDirectory, hlast]
  rfl

theorem endsInDirectory_of_no_slash {name : List Char} (h : '/' ∉ name) :
    endsInDirectory name = (name.isEmpty || name == ['.']) := by
  rw [endsInDirectory, splitAtChar_of_not_mem h]
  rfl

theorem endsInDirectory_join (base : Path) {path : Path} (h : isAbsolute path = false) :
    endsInDirectory (join base path) = endsInDirectory path := by
  rcases join_cases base h with ⟨-, hjoin⟩ | ⟨before, hjoin, -⟩
  · rw [hjoin]
  · rw [hjoin, endsInDirectory_append_slash]

/-- A path that need not be that of a directory ends in its last name. -/
theorem exists_last_name {path : Path} (h : endsInDirectory path = false) :
    ∃ last, '/' ∉ last ∧ names last = [last] ∧
      (path = last ∨ ∃ before, path = before ++ '/' :: last) := by
  obtain ⟨last, hslash, hpath⟩ := exists_last_piece '/' path
  have hends : endsInDirectory last = false := by
    rcases hpath with rfl | ⟨before, rfl⟩
    · exact h
    · rwa [endsInDirectory_append_slash] at h
  refine ⟨last, hslash, ?_, hpath⟩
  rw [endsInDirectory_of_no_slash hslash] at hends
  rw [names_of_no_slash hslash, if_neg]
  simpa using hends

theorem names_ne_nil {path : Path} (h : endsInDirectory path = false) : names path ≠ [] := by
  obtain ⟨last, -, hnames, rfl | ⟨before, rfl⟩⟩ := exists_last_name h
  · simp [hnames]
  · simp [hnames]

theorem IsName.endsInDirectory_eq {name : List Char} (h : IsName name) :
    endsInDirectory name = false := by
  rw [endsInDirectory_of_no_slash h.no_slash]
  simp [h.nonempty, h.not_here]

theorem names_trimEndReversed (s : List Char) :
    names (trimEndReversed s).reverse = names s.reverse := by
  fun_induction trimEndReversed s with
  | case1 => rfl
  | case2 s hs ih => rw [ih, List.reverse_cons, names_append_slash, names_nil, List.append_nil]
  | case3 s ih =>
      have hstep : ('.' :: '/' :: s).reverse = s.reverse ++ '/' :: ['.'] := by simp
      rw [ih, hstep, List.reverse_cons, names_append_slash, names_append_slash]
      rfl
  | case4 => rfl

theorem trimEndReversed_eq {s : List Char} (h : endsInDirectory s.reverse = false) :
    trimEndReversed s = s := by
  fun_cases trimEndReversed s with
  | case1 => rfl
  | case2 s =>
      rw [List.reverse_cons, endsInDirectory_append_slash] at h
      cases h
  | case3 s =>
      have hstep : ('.' :: '/' :: s).reverse = s.reverse ++ '/' :: ['.'] := by simp
      rw [hstep, endsInDirectory_append_slash] at h
      cases h
  | case4 => rfl

/-- The directory that a file is in has all names but the last. -/
theorem names_parent {path : Path} (h : endsInDirectory path = false) :
    names (parent path) = (names path).dropLast := by
  obtain ⟨last, hslash, hnames, hpath⟩ := exists_last_name h
  have hlast : ∀ c ∈ last.reverse, (c != '/') = true := by
    intro c hc
    have hne : c ≠ '/' := fun heq => hslash (heq ▸ List.mem_reverse.1 hc)
    simpa using hne
  -- nothing is trimmed before the last name is dropped; what is trimmed after it has no names
  rw [parent, trimEnd, names_trimEndReversed, List.reverse_reverse, trimEnd, List.reverse_reverse,
    trimEndReversed_eq (path.reverse_reverse.symm ▸ h)]
  rcases hpath with rfl | ⟨before, rfl⟩
  · rw [List.dropWhile_eq_nil_iff.2 hlast, hnames]
    rfl
  · have hdrop : (before ++ '/' :: last).reverse.dropWhile (· != '/') = '/' :: before.reverse := by
      rw [List.reverse_append, List.reverse_cons, List.append_assoc,
        List.dropWhile_append_of_pos hlast]
      rfl
    rw [hdrop, List.reverse_cons, List.reverse_reverse, names_append_slash, names_append_slash,
      hnames, names_nil, List.append_nil, List.dropLast_concat]

end Path

/-! ## Paths of a workspace -/

namespace Session

variable (session : Session) {file : SourceFile}

theorem names_path (h : ∀ name ∈ file, Path.IsName name) :
    (session.path file).names = session.workspace.names ++ file :=
  Path.names_foldl_join h session.workspace

/-- A file in a directory has a path that need not be that of a directory. -/
theorem endsInDirectory_path (h : ∀ name ∈ file, Path.IsName name) (hne : file ≠ []) :
    (session.path file).endsInDirectory = false := by
  obtain ⟨rest, name, rfl⟩ := (List.eq_nil_or_concat file).resolve_left hne
  have hname : Path.IsName name := h name (by simp)
  rw [path, List.concat_eq_append, List.foldl_append]
  show (Path.join _ name).endsInDirectory = false
  rw [Path.endsInDirectory_join _ hname.isAbsolute_eq, hname.endsInDirectory_eq]

end Session

end AstroTemplate
