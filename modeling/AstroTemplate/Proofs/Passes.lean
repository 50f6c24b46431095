import AstroTemplate.Proofs.SourceFiles
import Mathlib.Data.List.Perm.Basic
import Mathlib.Data.List.Forall2

set_option autoImplicit false

/-! # Passes over files

Files are converted one after another. `Session.write?` says what is to be written for a file, going
by what it holds before the pass. One step writes that or nothing (`Session.grewTo_process`), so as
long as files keep apart (`Session.KeepsApart`), each is read as it was before the pass, and what a
pass writes is what was to be written for its files, whichever of them fail
(`Session.grewTo_passOver`).

In a pass without failure each file is converted as if it were the only one
(`Session.processAll_eq_ok_iff`), and all that was to be written is
(`Session.updatedTo_processAll`). Neither mentions the order of the files.
-/

namespace AstroTemplate

/-- Two relations that agree on the members of a list relate it to the same lists. -/
theorem forall₂_iff_of_forall_mem {α β : Type} {r s : α → β → Prop} {as : List α} {bs : List β}
    (h : ∀ a ∈ as, ∀ b, r a b ↔ s a b) : List.Forall₂ r as bs ↔ List.Forall₂ s as bs := by
  induction as generalizing bs with
  | nil => simp
  | cons a as ih =>
      have hrest : ∀ b ∈ as, ∀ c, r b c ↔ s b c := fun b hb => h b (List.mem_cons_of_mem a hb)
      simp only [List.forall₂_cons_left_iff, h a List.mem_cons_self, ih hrest]

namespace Session

/-! ## One file -/

/-- The paths of a session have no steps up. -/
structure GoesDown (session : Session) : Prop where
  workspace : ['.', '.'] ∉ session.workspace.names
  outDir : ∀ outDir ∈ session.outDir, ['.', '.'] ∉ outDir.names

/-- The place of a file. -/
def place (session : Session) (file : SourceFile) : Place := (session.path file).names

/-- The place that the conversion of a file is written to. -/
def target? (session : Session) (file : SourceFile) : Option Place :=
  if session.options.write then some (session.place file)
  else session.outDir.map fun outDir => (targetIn outDir file).names

/-- What is to be written for a file: where, and what. -/
def write? (session : Session) (tree : FileTree) (file : SourceFile) : Option (Place × ByteArray) :=
  (session.target? file).bind fun target =>
    (session.readSource tree file).toOption.bind fun source =>
      (convertModule? source (session.path file)).map fun conversion =>
        (target, (String.ofList conversion.code).toUTF8)

/-- The file has proper names, and its path leads to its place, where there is a file. -/
structure Holds (session : Session) (tree : FileTree) (file : SourceFile) : Prop where
  named : ∀ name ∈ file, Path.IsName name
  found : ∃ content, tree.find (session.path file) = .ok (session.place file, .file content)

section

variable {session : Session} {tree after : FileTree} {file other : SourceFile}
  {source code : List Char} {conversion : Conversion} {writes : List (Place × ByteArray)}

theorem GoesDown.place (hsession : session.GoesDown) (hfile : session.Holds tree file) :
    ['.', '.'] ∉ session.place file := by
  rw [Session.place, session.names_path hfile.named, List.mem_append]
  exact not_or_intro hsession.workspace fun hup => (hfile.named _ hup).not_up rfl

theorem names_targetIn (outDir : Path) (h : ∀ name ∈ file, Path.IsName name) :
    (targetIn outDir file).names = outDir.names ++ file := by
  rw [targetIn, relative, Path.names_join outDir (Path.isAbsolute_ofNames h), Path.names_ofNames h]

theorem GoesDown.target {outDir : Path} (hsession : session.GoesDown)
    (hout : session.outDir = some outDir) (h : ∀ name ∈ file, Path.IsName name) :
    ['.', '.'] ∉ (targetIn outDir file).names := by
  rw [names_targetIn outDir h, List.mem_append]
  exact not_or_intro (hsession.outDir outDir hout) fun hup => (h _ hup).not_up rfl

theorem target?_in_place (hwrite : session.options.write = true) (file : SourceFile) :
    session.target? file = some (session.place file) := if_pos hwrite

theorem target?_apart {outDir : Path} (hwrite : session.options.write = false)
    (hout : session.outDir = some outDir) (file : SourceFile) :
    session.target? file = some (targetIn outDir file).names := by
  rw [target?, hwrite, hout]
  rfl

theorem target?_dry (hwrite : session.options.write = false) (hout : session.outDir = none)
    (file : SourceFile) : session.target? file = none := by
  rw [target?, hwrite, hout]
  rfl

theorem write?_of_some (hread : session.readSource tree file = .ok source)
    (hsome : convertModule? source (session.path file) = some conversion) :
    session.write? tree file
      = (session.target? file).map fun target => (target, (String.ofList conversion.code).toUTF8) := by
  rw [write?, hread]
  simp only [Except.toOption, Option.bind_some, hsome, Option.map_some]
  cases session.target? file <;> rfl

theorem write?_of_none (hread : session.readSource tree file = .ok source)
    (hnone : convertModule? source (session.path file) = none) :
    session.write? tree file = none := by
  rw [write?, hread]
  simp only [Except.toOption, Option.bind_some, hnone, Option.map_none]
  cases session.target? file <;> rfl

/-- What is written for a file is the conversion of its text. -/
theorem exists_of_write?_eq_some {w : Place × ByteArray} (h : session.write? tree file = some w) :
    session.target? file = some w.1 ∧ ∃ source conversion,
      session.readSource tree file = .ok source ∧
      convertModule? source (session.path file) = some conversion ∧
      w.2 = (String.ofList conversion.code).toUTF8 := by
  obtain ⟨target, htarget, h⟩ := Option.bind_eq_some_iff.1 h
  obtain ⟨source, hsource, h⟩ := Option.bind_eq_some_iff.1 h
  obtain ⟨conversion, hconversion, rfl⟩ := Option.map_eq_some_iff.1 h
  refine ⟨htarget, source, conversion, ?_, hconversion, rfl⟩
  cases hread : session.readSource tree file with
  | error e => simp [hread, Except.toOption] at hsource
  | ok text =>
      rw [hread] at hsource
      rw [Option.some.inj hsource]

theorem grewTo_writeCode {path : Path} (hup : ['.', '.'] ∉ path.names) (tree : FileTree)
    (code : List Char) :
    tree.GrewTo [(path.names, (String.ofList code).toUTF8)] (writeCode tree path code).1 := by
  rcases writeCode_cases tree path code with ⟨after, hcode⟩ | ⟨e, hcode⟩
  · obtain ⟨place, hwalk, -, hplace, rfl⟩ := FileTree.write_eq_ok_iff.1 (writeCode_eq_iff.1 hcode)
    obtain ⟨rfl, -⟩ := (FileTree.walk_eq_ok_iff hup).1 hwalk
    rw [hcode]
    exact FileTree.grewTo_put_file hplace _
  · rw [hcode]
    exact .refl tree _

/-- Storing a conversion writes it to its target, if it writes anything. -/
theorem grewTo_store (hsession : session.GoesDown) (hfile : session.Holds tree file)
    (code : List Char) :
    tree.GrewTo ((session.target? file).map fun target =>
        (target, (String.ofList code).toUTF8)).toList (session.store tree file code).1 := by
  rcases session.store_cases tree file code with ⟨hwrite, hstore⟩ | ⟨-, -, hstore⟩ |
    ⟨hwrite, outDir, middle, hout, ⟨hmake, hstore⟩ | ⟨cause, hmake, hstore⟩⟩
  · rw [hstore, target?_in_place hwrite]
    exact grewTo_writeCode (hsession.place hfile) tree code
  · rw [hstore]
    exact .refl tree _
  · rw [hstore, target?_apart hwrite hout]
    exact ((FileTree.grewTo_makeDirectories hmake).mono (List.nil_subset _)).trans
      (grewTo_writeCode (hsession.target hout hfile.named) middle code)
  · rw [hstore]
    exact (FileTree.grewTo_makeDirectories hmake).mono (List.nil_subset _)

/-- **What one step does.** Whether it fails or not, converting a file writes what is to be written
for it, if anything. -/
theorem grewTo_process (hsession : session.GoesDown) (hfile : session.Holds tree file) :
    tree.GrewTo (session.write? tree file).toList (session.process tree file).tree := by
  cases hread : session.readSource tree file with
  | error e =>
      rw [process_of_error hread]
      exact .refl tree _
  | ok source =>
      cases hmodule : convertModule? source (session.path file) with
      | none =>
          rw [process_of_none hread hmodule]
          exact .refl tree _
      | some conversion =>
          rw [process_of_some hread hmodule, write?_of_some hread hmodule]
          exact grewTo_store hsession hfile conversion.code

/-- A file that is not written is found and read as before. -/
theorem Holds.grewTo (hfile : session.Holds tree file) (h : tree.GrewTo writes after)
    (hnew : ∀ w ∈ writes, w.1 ≠ session.place file) :
    session.Holds after file ∧ session.readSource after file = session.readSource tree file := by
  obtain ⟨content, hfind⟩ := hfile.found
  have hfind' := h.find hfind hnew
  have hread := FileTree.read_eq_ok_iff.2 ⟨_, hfind⟩
  have hread' := FileTree.read_eq_ok_iff.2 ⟨_, hfind'⟩
  refine ⟨⟨hfile.named, content, hfind'⟩, ?_⟩
  rw [readSource, readSource, hread, hread']

theorem write?_congr (h : session.readSource after file = session.readSource tree file) :
    session.write? after file = session.write? tree file := by
  rw [write?, write?, h]

end

/-! ## Files one after another -/

/-- What is written for the first file is neither the second nor in the way of what is written for
it. -/
structure KeepsApart (session : Session) (first second : SourceFile) : Prop where
  from_source : ∀ p ∈ session.target? first, p ≠ session.place second
  from_target : ∀ p ∈ session.target? first, ∀ q ∈ session.target? second, FileTree.Apart p q

/-- The tree after some files have been converted, whether this failed or not. -/
def passOver (session : Session) (tree : FileTree) (files : List SourceFile) : FileTree :=
  files.foldl (fun tree file => (session.process tree file).tree) tree

section

variable {session : Session} {tree after : FileTree} {file other : SourceFile}
  {files : List SourceFile} {writes : List (Place × ByteArray)}

theorem target?_of_mem_write? {w : Place × ByteArray}
    (h : w ∈ (session.write? tree file).toList) : w.1 ∈ session.target? file :=
  (exists_of_write?_eq_some (Option.mem_toList.1 h)).1

/-- A file is as it was after another has been converted. -/
theorem Holds.process (hsession : session.GoesDown) (hfile : session.Holds tree file)
    (hother : session.Holds tree other) (hapart : session.KeepsApart file other) :
    session.Holds (session.process tree file).tree other ∧
      session.readSource (session.process tree file).tree other
        = session.readSource tree other :=
  hother.grewTo (grewTo_process hsession hfile) fun _ hw =>
    hapart.from_source _ (target?_of_mem_write? hw)

section

variable (hsession : session.GoesDown) (hfiles : ∀ f ∈ file :: files, session.Holds tree f)
  (hapart : (file :: files).Pairwise session.KeepsApart)

include hsession hfiles hapart

/-- After the first of some files, the others are as they were. -/
theorem holds_later : ∀ other ∈ files, session.Holds (session.process tree file).tree other ∧
    session.readSource (session.process tree file).tree other = session.readSource tree other := by
  intro other hother
  refine (hfiles file List.mem_cons_self).process hsession ?_ ?_
  · exact hfiles other (List.mem_cons_of_mem file hother)
  · exact (List.pairwise_cons.1 hapart).1 other hother

/-- What is to be written for the files is to be written for the first, and for the others
afterwards. -/
theorem filterMap_write?_cons :
    (file :: files).filterMap (session.write? tree) = (session.write? tree file).toList
      ++ files.filterMap (session.write? (session.process tree file).tree) := by
  have hlater : files.filterMap (session.write? (session.process tree file).tree)
      = files.filterMap (session.write? tree) :=
    List.filterMap_congr fun other hother =>
      write?_congr (holds_later hsession hfiles hapart other hother).2
  rw [hlater, List.filterMap_cons]
  cases session.write? tree file <;> rfl

end

/-- **What a run does.** In whatever order files are converted, and whichever of them fail, only
what is to be written for them is written. -/
theorem grewTo_passOver (hsession : session.GoesDown)
    (hfiles : ∀ file ∈ files, session.Holds tree file) (hapart : files.Pairwise session.KeepsApart) :
    tree.GrewTo (files.filterMap (session.write? tree)) (session.passOver tree files) := by
  induction files generalizing tree with
  | nil => exact .refl tree []
  | cons file rest ih =>
      have hfirst := grewTo_process hsession (hfiles file List.mem_cons_self)
      have hrest := ih (fun other hother => (holds_later hsession hfiles hapart other hother).1)
        (List.pairwise_cons.1 hapart).2
      rw [filterMap_write?_cons hsession hfiles hapart]
      exact (hfirst.mono (List.subset_append_left _ _)).trans
        (hrest.mono (List.subset_append_right _ _))

/-- Files are converted up to the first failure. -/
theorem exists_processAll_tree (session : Session) (tree : FileTree) (files : List SourceFile) :
    ∃ done, done <+: files ∧ (session.processAll tree files).tree = session.passOver tree done := by
  induction files generalizing tree with
  | nil => exact ⟨[], List.prefix_refl _, rfl⟩
  | cons file rest ih =>
      rw [processAll]
      cases hfirst : (session.process tree file).result with
      | error e => exact ⟨[file], by simp, rfl⟩
      | ok outcome =>
          obtain ⟨done, hdone, htree⟩ := ih (session.process tree file).tree
          exact ⟨file :: done, List.cons_prefix_cons.2 ⟨rfl, hdone⟩, htree⟩

end

/-! ## Runs without failure -/

/-- Nothing is in the way of a conversion of the file. -/
def Writable (session : Session) (tree : FileTree) (file : SourceFile) : Prop :=
  session.options.write = true ∨ ∀ outDir ∈ session.outDir,
    (targetIn outDir file).endsInDirectory = false ∧ tree.ClearAt (targetIn outDir file).names

section

variable {session : Session} {tree after : FileTree} {file other : SourceFile}
  {files : List SourceFile} {source code : List Char} {outcome : FileOutcome}

/-- A conversion that is stored is written to its target, where nothing was in the way, and nothing
else happens. -/
theorem updatedTo_store (hsession : session.GoesDown) (hfile : session.Holds tree file)
    (hstored : session.store tree file code = (after, none)) :
    tree.UpdatedTo ((session.target? file).map fun target =>
        (target, (String.ofList code).toUTF8)).toList after ∧
      (∀ p ∈ session.target? file, tree.ClearAt p) ∧ session.Writable tree file := by
  rcases session.store_cases tree file code with ⟨hwrite, hstore⟩ | ⟨hwrite, hout, hstore⟩ |
    ⟨hwrite, outDir, middle, hout, ⟨hmake, hstore⟩ | ⟨cause, hmake, hstore⟩⟩
  · obtain ⟨content, hfind⟩ := hfile.found
    obtain ⟨written, hwritten, hupdated, hclear⟩ := FileTree.exists_write_of_find
      (hsession.place hfile) hfind (String.ofList code).toUTF8
    rw [hstore, writeCode_eq_iff.2 hwritten] at hstored
    obtain rfl := (Prod.mk.inj hstored).1
    rw [target?_in_place hwrite]
    refine ⟨hupdated, ?_, .inl hwrite⟩
    intro p hp
    rwa [← Option.some.inj hp]
  · rw [hstore] at hstored
    obtain rfl := (Prod.mk.inj hstored).1
    rw [target?_dry hwrite hout]
    exact ⟨.refl tree, nofun, .inr (by simp [hout])⟩
  · -- that it could be written says that nothing was in the way, directories included
    have hup := hsession.target hout hfile.named
    rw [hstore, writeCode_eq_iff] at hstored
    obtain ⟨-, -, hends, -, -⟩ := FileTree.write_eq_ok_iff.1 hstored
    have hclear := (FileTree.takes_iff hup hends _).1 ⟨middle, after, hmake, hstored⟩
    rw [target?_apart hwrite hout]
    refine ⟨FileTree.updatedTo_of_write hup hends hmake hstored, ?_, .inr ?_⟩
    · intro p hp
      rwa [← Option.some.inj hp]
    · intro other hother
      obtain rfl := Option.some.inj (hout.symm.trans hother)
      exact ⟨hends, hclear⟩
  · rw [hstore] at hstored
    cases hstored

/-- A conversion is stored exactly if nothing is in the way. -/
theorem store_eq_none_iff (hsession : session.GoesDown) (hfile : session.Holds tree file) :
    (session.store tree file code).2 = none ↔ session.Writable tree file := by
  obtain ⟨content, hfind⟩ := hfile.found
  rw [store_eq_none_iff_takes hfind]
  refine or_congr_right (forall₂_congr fun outDir hout => ?_)
  have hup := hsession.target hout hfile.named
  constructor
  · intro htakes
    obtain ⟨_, _, -, hwrite⟩ := id htakes
    obtain ⟨-, -, hends, -, -⟩ := FileTree.write_eq_ok_iff.1 hwrite
    exact ⟨hends, (FileTree.takes_iff hup hends _).1 htakes⟩
  · rintro ⟨hends, hclear⟩
    exact (FileTree.takes_iff hup hends _).2 hclear

/-- **What one step without failure does.** What is to be written for the file is written, where
nothing was in the way, and nothing else happens. -/
theorem updatedTo_process (hsession : session.GoesDown) (hfile : session.Holds tree file)
    (hok : (session.process tree file).result = .ok outcome) :
    tree.UpdatedTo (session.write? tree file).toList (session.process tree file).tree ∧
      ∀ w ∈ session.write? tree file, tree.ClearAt w.1 := by
  cases hread : session.readSource tree file with
  | error e =>
      rw [process_of_error hread] at hok
      cases hok
  | ok source =>
      cases hmodule : convertModule? source (session.path file) with
      | none =>
          rw [process_of_none hread hmodule, write?_of_none hread hmodule]
          exact ⟨.refl tree, nofun⟩
      | some conversion =>
          have hprocess := process_of_some hread hmodule
          cases hstore : session.store tree file conversion.code with
          | mk after failure =>
              rw [hstore] at hprocess
              cases failure with
              | some e =>
                  rw [hprocess] at hok
                  cases hok
              | none =>
                  obtain ⟨hupdated, hclear, -⟩ := updatedTo_store hsession hfile hstore
                  rw [hprocess, write?_of_some hread hmodule]
                  refine ⟨hupdated, ?_⟩
                  intro w hw
                  obtain ⟨p, hp, rfl⟩ := Option.map_eq_some_iff.1 hw
                  exact hclear p hp

/-- Whether a conversion can be stored does not change when another file has been converted. -/
theorem writable_process_iff (hsession : session.GoesDown) (hfile : session.Holds tree file)
    (hapart : session.KeepsApart file other)
    (hok : (session.process tree file).result = .ok outcome) :
    session.Writable (session.process tree file).tree other ↔ session.Writable tree other := by
  obtain ⟨hupdated, hclear⟩ := updatedTo_process hsession hfile hok
  cases hwrite : session.options.write with
  | true => exact iff_of_true (.inl hwrite) (.inl hwrite)
  | false =>
      refine or_congr_right (forall₂_congr fun outDir hout => and_congr_right fun _ => ?_)
      refine hupdated.clearAt_iff (fun w hw => hclear w (Option.mem_toList.1 hw)) fun w hw => ?_
      exact hapart.from_target _ (target?_of_mem_write? hw) _ (target?_apart hwrite hout other)

/-- A file is converted without failure exactly if it is a text, and nothing is in the way of its
conversion if there is one. -/
theorem process_eq_ok_iff (hsession : session.GoesDown) (hfile : session.Holds tree file) :
    (session.process tree file).result = .ok outcome ↔
      ∃ source, session.readSource tree file = .ok source ∧
        ((convertModule? source (session.path file) = none ∧ outcome = { file }) ∨
          ∃ conversion, convertModule? source (session.path file) = some conversion ∧
            session.Writable tree file ∧ outcome = session.outcome file source conversion.code) := by
  cases hread : session.readSource tree file with
  | error e =>
      rw [process_of_error hread]
      simp
  | ok source =>
      cases hmodule : convertModule? source (session.path file) with
      | none =>
          rw [process_of_none hread hmodule]
          simp [hmodule, eq_comm]
      | some conversion =>
          have hstored : (session.store tree file conversion.code).2 = none ↔
              session.Writable tree file := store_eq_none_iff hsession hfile
          rw [process_of_some hread hmodule]
          cases hfailure : (session.store tree file conversion.code).2 with
          | none => simp [hmodule, hstored.1 hfailure, eq_comm]
          | some e =>
              have hnot : ¬ session.Writable tree file := fun h => by
                rw [hstored.2 h] at hfailure
                cases hfailure
              simp [hmodule, hnot]

/-- What becomes of a file does not change when another has been converted. -/
theorem process_process_iff {later : FileOutcome} (hsession : session.GoesDown)
    (hfile : session.Holds tree file) (hother : session.Holds tree other)
    (hapart : session.KeepsApart file other)
    (hok : (session.process tree file).result = .ok outcome) :
    (session.process (session.process tree file).tree other).result = .ok later ↔
      (session.process tree other).result = .ok later := by
  obtain ⟨hholds, hread⟩ := hfile.process hsession hother hapart
  rw [process_eq_ok_iff hsession hholds, process_eq_ok_iff hsession hother, hread]
  simp only [writable_process_iff hsession hfile hapart hok]

theorem processAll_cons_eq_ok {outcomes : List FileOutcome} :
    (session.processAll tree (file :: files)).result = .ok outcomes ↔
      ∃ outcome rest, outcomes = outcome :: rest ∧
        (session.process tree file).result = .ok outcome ∧
        (session.processAll (session.process tree file).tree files).result = .ok rest := by
  rw [processAll]
  cases (session.process tree file).result with
  | error e => simp
  | ok outcome =>
      cases hrest : (session.processAll (session.process tree file).tree files).result with
      | error e => simp [hrest, Except.map]
      | ok rest => simp [hrest, Except.map, eq_comm]

/-- In a run without failure each file is converted as if it were the only one. -/
theorem processAll_eq_ok_iff {outcomes : List FileOutcome} (hsession : session.GoesDown)
    (hfiles : ∀ file ∈ files, session.Holds tree file) (hapart : files.Pairwise session.KeepsApart) :
    (session.processAll tree files).result = .ok outcomes ↔
      List.Forall₂ (fun file outcome => (session.process tree file).result = .ok outcome)
        files outcomes := by
  -- the files after the first are converted in another tree, where they fare as in this one
  induction files generalizing tree outcomes with
  | nil => simp [processAll, eq_comm]
  | cons file rest ih =>
      obtain ⟨hfirst, hrest⟩ := List.pairwise_cons.1 hapart
      have hiff : ∀ {first}, (session.process tree file).result = .ok first → ∀ other ∈ rest,
          ∀ later, (session.process (session.process tree file).tree other).result = .ok later ↔
            (session.process tree other).result = .ok later := fun hok other hother _ =>
        process_process_iff hsession (hfiles file List.mem_cons_self)
          (hfiles other (List.mem_cons_of_mem file hother)) (hfirst other hother) hok
      rw [processAll_cons_eq_ok, List.forall₂_cons_left_iff]
      refine exists_congr fun outcome => exists_congr fun later => ?_
      rw [ih (fun other hother => (holds_later hsession hfiles hapart other hother).1) hrest]
      constructor
      · rintro ⟨rfl, hok, hlater⟩
        exact ⟨hok, (forall₂_iff_of_forall_mem (hiff hok)).1 hlater, rfl⟩
      · rintro ⟨hok, hlater, rfl⟩
        exact ⟨rfl, hok, (forall₂_iff_of_forall_mem (hiff hok)).2 hlater⟩

/-- **What a run without failure does.** What is to be written for the files is written, with
directories above it, and nothing else happens. -/
theorem updatedTo_processAll {outcomes : List FileOutcome} (hsession : session.GoesDown)
    (hfiles : ∀ file ∈ files, session.Holds tree file) (hapart : files.Pairwise session.KeepsApart)
    (hok : (session.processAll tree files).result = .ok outcomes) :
    tree.UpdatedTo (files.filterMap (session.write? tree)) (session.processAll tree files).tree := by
  induction files generalizing tree outcomes with
  | nil => exact .refl tree
  | cons file rest ih =>
      obtain ⟨outcome, later, -, hfirst, hlater⟩ := processAll_cons_eq_ok.1 hok
      obtain ⟨hupdated, -⟩ := updatedTo_process hsession (hfiles file List.mem_cons_self) hfirst
      have hrest := ih (fun other hother => (holds_later hsession hfiles hapart other hother).1)
        (List.pairwise_cons.1 hapart).2 hlater
      have htree : (session.processAll tree (file :: rest)).tree
          = (session.processAll (session.process tree file).tree rest).tree := by
        rw [processAll]
        simp only [hfirst]
      rw [filterMap_write?_cons hsession hfiles hapart, htree]
      refine hupdated.append hrest fun w hw v hv => ?_
      obtain ⟨other, hother, hv⟩ := List.mem_filterMap.1 hv
      exact ((List.pairwise_cons.1 hapart).1 other hother).from_target _ (target?_of_mem_write? hw)
        _ (exists_of_write?_eq_some hv).1

end

end Session

end AstroTemplate
