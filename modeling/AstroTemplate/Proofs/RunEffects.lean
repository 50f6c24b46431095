import AstroTemplate.Page.Pipeline
import AstroTemplate.Proofs.Passes

set_option autoImplicit false

/-! # What a run does to the files

A run without `--write` and `--out-dir` changes no file, one with `--write` changes files of the
workspace to their conversions, and one with `--out-dir` writes conversions under another directory
and leaves the files of the workspace alone (`Session.WritesConversions`). This is so in whatever
order the files are converted and wherever the run fails, and without failure the order makes no
difference at all (`Session.Settles`): no conversion is written to where another file is read from,
for the files under the directory for conversions are left alone.
-/

namespace AstroTemplate

namespace Session

/-! ## The files of a workspace -/

section

variable {session : Session} {tree : FileTree} {file other : SourceFile} {files : List SourceFile}

theorem holds_of_mem_discover (hsession : session.GoesDown) (htree : tree.WellFormed)
    (h : file ∈ session.discover tree) : session.Holds tree file := by
  obtain ⟨place, entry, hworkspace⟩ := exists_find_workspace h
  obtain ⟨⟨content, hcontent⟩, -⟩ := (mem_discover_iff hworkspace).1 h
  have hnamed : ∀ name ∈ file, Path.IsName name := fun name hname =>
    htree.isName (FileTree.content?_eq_some_iff.1 hcontent) name (List.mem_append_right place hname)
  have hplace : session.place file = place ++ file := by
    obtain ⟨rfl, -⟩ :=
      (FileTree.walk_eq_ok_iff hsession.workspace).1 (FileTree.find_eq_ok hworkspace).1
    exact session.names_path hnamed
  exact ⟨hnamed, content, hplace ▸ find_path htree hworkspace hcontent⟩

/-- No file stands under another. -/
theorem eq_of_place_under (htree : tree.WellFormed) (hfile : session.Holds tree file)
    (hother : session.Holds tree other) (h : session.place file <+: session.place other) :
    file = other := by
  obtain ⟨content, hfind⟩ := hfile.found
  obtain ⟨content', hfind'⟩ := hother.found
  have hplace := htree.eq_of_under (FileTree.find_eq_ok hfind).2 (FileTree.find_eq_ok hfind').2 h
  rw [place, place, session.names_path hfile.named, session.names_path hother.named] at hplace
  exact List.append_cancel_left hplace

/-- No file is under the directory for conversions. -/
theorem not_prefix_of_mem_discover {outDir : Path} (hout : session.outDir = some outDir)
    (h : file ∈ session.discover tree) : ¬ outDir.names <+: session.place file := by
  obtain ⟨place, entry, hworkspace⟩ := exists_find_workspace h
  obtain ⟨-, -, hignored⟩ := (mem_discover_iff hworkspace).1 h
  intro hunder
  rw [isIgnored, hout, Option.any_some, Bool.or_eq_false_iff] at hignored
  have hnot : outDir.isUnder (session.path file) = true := List.isPrefixOf_iff_prefix.2 hunder
  rw [hignored.1] at hnot
  cases hnot

/-- Conversions are written apart from the other files and from each other. -/
theorem keepsApart_of_mem_discover (hsession : session.GoesDown) (htree : tree.WellFormed)
    (hfile : file ∈ session.discover tree) (hother : other ∈ session.discover tree)
    (hne : file ≠ other) : session.KeepsApart file other := by
  have hholds := holds_of_mem_discover hsession htree hfile
  have hholds' := holds_of_mem_discover hsession htree hother
  have hplaces : FileTree.Apart (session.place file) (session.place other) :=
    ⟨fun h => hne (eq_of_place_under htree hholds hholds' h),
      fun h => hne (eq_of_place_under htree hholds' hholds h).symm⟩
  cases hwrite : session.options.write with
  | true =>
      refine ⟨fun p hp => ?_, fun p hp q hq => ?_⟩
      · rw [target?_in_place hwrite] at hp
        rw [← Option.some.inj hp]
        intro heq
        exact hplaces.1 (heq ▸ List.prefix_refl _)
      · rw [target?_in_place hwrite] at hp hq
        rwa [← Option.some.inj hp, ← Option.some.inj hq]
  | false =>
      cases hout : session.outDir with
      | none =>
          have hdry := target?_dry hwrite hout file
          exact ⟨by simp [hdry], by simp [hdry]⟩
      | some outDir =>
          have htarget := target?_apart hwrite hout file
          have htarget' := target?_apart hwrite hout other
          rw [names_targetIn outDir hholds.named] at htarget
          rw [names_targetIn outDir hholds'.named] at htarget'
          refine ⟨fun p hp => ?_, fun p hp q hq => ?_⟩
          · -- the other file would be under the directory for conversions
            obtain rfl := Option.some.inj (htarget.symm.trans hp)
            intro heq
            exact not_prefix_of_mem_discover hout hother (heq ▸ List.prefix_append _ _)
          · -- under that directory files stand to each other as they do under the workspace
            obtain rfl := Option.some.inj (htarget.symm.trans hp)
            obtain rfl := Option.some.inj (htarget'.symm.trans hq)
            rw [place, place, session.names_path hholds.named, session.names_path hholds'.named]
              at hplaces
            unfold FileTree.Apart at hplaces ⊢
            simpa only [List.prefix_append_right_inj] using hplaces

theorem pairwise_keepsApart (hsession : session.GoesDown) (htree : tree.WellFormed)
    (hnodup : files.Nodup) (hsub : files ⊆ session.discover tree) :
    files.Pairwise session.KeepsApart :=
  hnodup.imp_of_mem fun hfile hother hne =>
    keepsApart_of_mem_discover hsession htree (hsub hfile) (hsub hother) hne

end

/-! ## Conversions -/

/-- The content is what the pipeline makes of what the file held before. -/
def IsConversion (session : Session) (before : FileTree) (file : SourceFile)
    (content : ByteArray) : Prop :=
  ∃ source code, (before.content? (session.place file)).bind textOfBytes? = some source ∧
    Pipeline.conversion.run source (session.path file) = some code ∧
    content = (String.ofList code).toUTF8

/-- What a session may change in a tree, according to its options. -/
structure WritesConversions (session : Session) (before after : FileTree) : Prop where
  dry : session.options.write = false → session.outDir = none →
    ∀ place, after.content? place = before.content? place
  in_place : session.options.write = true →
    ∀ place, after.content? place ≠ before.content? place →
      ∃ file ∈ session.discover before, place = session.place file ∧
        ∃ content, after.content? place = some content ∧ session.IsConversion before file content
  apart : ∀ outDir ∈ session.outDir,
    (∀ place, after.content? place ≠ before.content? place →
      ∃ file ∈ session.discover before, place = (targetIn outDir file).names ∧
        ∃ content, after.content? place = some content ∧ session.IsConversion before file content) ∧
    ∀ file ∈ session.discover before,
      after.content? (session.place file) = before.content? (session.place file)

section

variable {session : Session} {tree after : FileTree} {file : SourceFile} {files : List SourceFile}

theorem content?_of_readSource {source : List Char} (hfile : session.Holds tree file) :
    session.readSource tree file = .ok source ↔
      (tree.content? (session.place file)).bind textOfBytes? = some source := by
  obtain ⟨content, hfind⟩ := hfile.found
  have hcontent := FileTree.content?_eq_some_iff.2 (FileTree.find_eq_ok hfind).2
  rw [readSource, FileTree.read_eq_ok_iff.2 ⟨_, hfind⟩, hcontent, Option.bind_some]
  cases htext : textOfBytes? content with
  | none => simp [htext]
  | some text => simp [htext]

theorem write?_eq_some_iff (hfile : session.Holds tree file) {w : Place × ByteArray} :
    session.write? tree file = some w ↔
      session.target? file = some w.1 ∧ session.IsConversion tree file w.2 := by
  constructor
  · intro h
    obtain ⟨htarget, source, conversion, hread, hmodule, hcode⟩ := exists_of_write?_eq_some h
    refine ⟨htarget, source, conversion.code, (content?_of_readSource hfile).1 hread, ?_, hcode⟩
    rw [Pipeline.run_conversion, hmodule, Option.map_some]
  · rintro ⟨htarget, source, code, hsource, hrun, hcode⟩
    rw [Pipeline.run_conversion] at hrun
    obtain ⟨conversion, hmodule, rfl⟩ := Option.map_eq_some_iff.1 hrun
    rw [write?_of_some ((content?_of_readSource hfile).2 hsource) hmodule, htarget, ← hcode]
    rfl

/-- A tree in which only what is to be written for files of the workspace was written. -/
theorem writesConversions_of_grewTo (hsession : session.GoesDown) (htree : tree.WellFormed)
    (hways : session.options.write = true → session.outDir = none)
    (hsub : files ⊆ session.discover tree)
    (h : tree.GrewTo (files.filterMap (session.write? tree)) after) :
    session.WritesConversions tree after := by
  have hchanged : ∀ place, after.content? place ≠ tree.content? place →
      ∃ file ∈ session.discover tree, session.target? file = some place ∧
        ∃ content, after.content? place = some content ∧ session.IsConversion tree file content := by
    intro place hplace
    obtain ⟨content, hmem, hcontent⟩ := h.written hplace
    obtain ⟨file, hfile, hwrite⟩ := List.mem_filterMap.1 hmem
    have hholds := holds_of_mem_discover hsession htree (hsub hfile)
    obtain ⟨htarget, hconversion⟩ := (write?_eq_some_iff hholds).1 hwrite
    exact ⟨file, hsub hfile, htarget, content, hcontent, hconversion⟩
  refine ⟨fun hwrite hout place => ?_, fun hwrite place hplace => ?_, fun outDir hout => ?_⟩
  · by_contra hplace
    obtain ⟨file, -, htarget, -⟩ := hchanged place hplace
    rw [target?_dry hwrite hout] at htarget
    cases htarget
  · obtain ⟨file, hfile, htarget, hcontent⟩ := hchanged place hplace
    rw [target?_in_place hwrite] at htarget
    exact ⟨file, hfile, (Option.some.inj htarget).symm, hcontent⟩
  · have hwrite : session.options.write = false := by
      rw [← Bool.not_eq_true]
      intro hwrite
      rw [hways hwrite] at hout
      cases hout
    refine ⟨fun place hplace => ?_, fun file hfile => ?_⟩
    · obtain ⟨file, hfile, htarget, hcontent⟩ := hchanged place hplace
      rw [target?_apart hwrite hout] at htarget
      exact ⟨file, hfile, (Option.some.inj htarget).symm, hcontent⟩
    · -- a conversion in the place of a file would make the file one to leave alone
      by_contra hplace
      obtain ⟨other, hother, htarget, -⟩ := hchanged _ hplace
      have hholds := holds_of_mem_discover hsession htree hother
      rw [target?_apart hwrite hout, names_targetIn outDir hholds.named] at htarget
      refine not_prefix_of_mem_discover hout hfile ?_
      rw [← Option.some.inj htarget]
      exact List.prefix_append _ _

theorem writesConversions_passOver (hsession : session.GoesDown) (htree : tree.WellFormed)
    (hways : session.options.write = true → session.outDir = none) (hnodup : files.Nodup)
    (hsub : files ⊆ session.discover tree) :
    session.WritesConversions tree (session.passOver tree files) :=
  writesConversions_of_grewTo hsession htree hways hsub
    (grewTo_passOver hsession
      (fun _ hfile => holds_of_mem_discover hsession htree (hsub hfile))
      (pairwise_keepsApart hsession htree hnodup hsub))

theorem writesConversions_processAll (hsession : session.GoesDown) (htree : tree.WellFormed)
    (hways : session.options.write = true → session.outDir = none)
    (hfiles : files.Perm (session.discover tree)) :
    session.WritesConversions tree (session.processAll tree files).tree := by
  obtain ⟨done, hdone, heq⟩ := exists_processAll_tree session tree files
  have hnodup := hfiles.nodup_iff.2 (session.nodup_discover tree)
  rw [heq]
  exact writesConversions_passOver hsession htree hways (hdone.sublist.nodup hnodup)
    (List.Subset.trans hdone.subset hfiles.subset)

end

/-! ## The order of files -/

theorem summary_perm (session : Session) {outcomes others : List FileOutcome}
    (h : outcomes.Perm others) : session.summary outcomes = session.summary others := by
  have hsum : ∀ severity, outcomes.foldr (·.count severity + ·) 0
      = others.foldr (·.count severity + ·) 0 := fun severity =>
    h.foldr_eq' (fun a _ b _ n => Nat.add_left_comm (b.count severity) (a.count severity) n) 0
  simp only [summary, h.length_eq, h.countP_eq, hsum]

/-- A run over `tree` that ended in `after` with `outcome` is the same as converting the files in
the order given: it fails exactly if that fails, and otherwise its counts and its tree are the same.
Without failure every file that has a conversion has it written. -/
structure Settles (session : Session) (tree : FileTree) (files : List SourceFile)
    (after : FileTree) (outcome : Except RunError Summary) : Prop where
  counts : ∀ summary, outcome = .ok summary ↔
    ∃ outcomes, (session.processAll tree files).result = .ok outcomes ∧
      session.summary outcomes = summary
  same_tree : ∀ summary, outcome = .ok summary →
    (session.processAll tree files).tree.lookup? = after.lookup?
  written : ∀ summary, outcome = .ok summary → ∀ file ∈ files,
    ∀ target ∈ session.target? file, ∀ content, session.IsConversion tree file content →
      after.content? target = some content

section

variable {session : Session} {tree : FileTree} {files : List SourceFile}

theorem runOnce_tree (session : Session) (tree : FileTree) :
    (session.runOnce tree).tree = (session.processAll tree (session.discover tree)).tree := by
  rw [runOnce, conclude]
  cases (session.processAll tree (session.discover tree)).result <;> rfl

theorem runOnce_eq_ok_iff {summary : Summary} : (session.runOnce tree).outcome = .ok summary ↔
    ∃ outcomes, (session.processAll tree (session.discover tree)).result = .ok outcomes ∧
      session.summary outcomes = summary := by
  rw [runOnce, conclude]
  cases (session.processAll tree (session.discover tree)).result with
  | error e => simp
  | ok outcomes => simp

section

variable (hsession : session.GoesDown) (htree : tree.WellFormed)

include hsession htree

/-- All files of the workspace, in any order, can be converted independently of each other. -/
theorem holds_of_perm (hfiles : files.Perm (session.discover tree)) :
    (∀ file ∈ files, session.Holds tree file) ∧ files.Pairwise session.KeepsApart :=
  ⟨fun _ hfile => holds_of_mem_discover hsession htree (hfiles.subset hfile),
    pairwise_keepsApart hsession htree (hfiles.nodup_iff.2 (session.nodup_discover tree))
      hfiles.subset⟩

/-- **Without failure, the order makes no difference.** -/
theorem exists_processAll_perm {others : List SourceFile} {outcomes : List FileOutcome}
    (hfiles : files.Perm (session.discover tree)) (hothers : others.Perm (session.discover tree))
    (hok : (session.processAll tree files).result = .ok outcomes) :
    ∃ later, (session.processAll tree others).result = .ok later ∧ later.Perm outcomes ∧
      (session.processAll tree others).tree.lookup? = (session.processAll tree files).tree.lookup? := by
  obtain ⟨hholds, hapart⟩ := holds_of_perm hsession htree hfiles
  obtain ⟨hholds', hapart'⟩ := holds_of_perm hsession htree hothers
  have hperm := hothers.trans hfiles.symm
  have hconverted := (processAll_eq_ok_iff hsession hholds hapart).1 hok
  obtain ⟨later, hlater, hsame⟩ := List.perm_comp_forall₂ hperm hconverted
  have hok' := (processAll_eq_ok_iff hsession hholds' hapart').2 hlater
  refine ⟨later, hok', hsame, ?_⟩
  have hupdated := updatedTo_processAll hsession hholds hapart hok
  have hupdated' := updatedTo_processAll hsession hholds' hapart' hok'
  exact hupdated'.lookup?_eq hupdated fun w => (hperm.filterMap _).mem_iff

theorem settles_runOnce (hfiles : files.Perm (session.discover tree)) :
    session.Settles tree files (session.runOnce tree).tree (session.runOnce tree).outcome := by
  have hdiscover := List.Perm.refl (session.discover tree)
  refine ⟨fun summary => ?_, fun summary h => ?_, fun summary h file hfile target htarget content
    hcontent => ?_⟩
  · rw [runOnce_eq_ok_iff]
    constructor
    · rintro ⟨outcomes, hok, rfl⟩
      obtain ⟨later, hlater, hsame, -⟩ :=
        exists_processAll_perm hsession htree hdiscover hfiles hok
      exact ⟨later, hlater, session.summary_perm hsame⟩
    · rintro ⟨outcomes, hok, rfl⟩
      obtain ⟨later, hlater, hsame, -⟩ :=
        exists_processAll_perm hsession htree hfiles hdiscover hok
      exact ⟨later, hlater, session.summary_perm hsame⟩
  · obtain ⟨outcomes, hok, -⟩ := runOnce_eq_ok_iff.1 h
    obtain ⟨-, -, -, htrees⟩ := exists_processAll_perm hsession htree hdiscover hfiles hok
    rw [htrees, runOnce_tree]
  · obtain ⟨outcomes, hok, -⟩ := runOnce_eq_ok_iff.1 h
    obtain ⟨hholds, hapart⟩ := holds_of_perm hsession htree hdiscover
    have hmem := hfiles.subset hfile
    have hwrite : session.write? tree file = some (target, content) :=
      (write?_eq_some_iff (hholds file hmem)).2 ⟨htarget, hcontent⟩
    rw [runOnce_tree, FileTree.content?_eq_some_iff]
    exact (updatedTo_processAll hsession hholds hapart hok).file (target, content)
      (List.mem_filterMap.2 ⟨file, hmem, hwrite⟩)

end

end

end Session

/-! ## Accepted arguments -/

namespace OptionsReader

theorem readName_ne_run (r : OptionsReader) (name : OptionName) (options : Options) :
    r.readName name ≠ .ok (.inl (.run options)) := by
  unfold readName
  cases r.settle with
  | error e => nofun
  | ok settled =>
      cases name with
      | flag flag =>
          simp only [bind, Except.bind]
          cases settled.raise flag <;> nofun
      | value option => nofun
      | help => nofun
      | version => nofun

theorem readLong_ne_run (r : OptionsReader) (body : List Char) (options : Options) :
    r.readLong body ≠ .ok (.inl (.run options)) := by
  unfold readLong
  simp only
  split
  · nofun
  · exact r.readName_ne_run _ options
  · cases r.settle with
    | error e => nofun
    | ok settled =>
        simp only [bind, Except.bind]
        cases settled.accept _ _ <;> nofun
  · nofun

theorem readShort_ne_run (r : OptionsReader) (letters : List Char) (options : Options) :
    r.readShort letters ≠ .ok (.inl (.run options)) := by
  induction letters generalizing r with
  | nil => nofun
  | cons c letters ih =>
      rw [readShort]
      split
      · nofun
      · rename_i name _
        split
        · exact ih _
        · exact r.readName_ne_run name options

/-- A single argument asks for help or for the version, but not for a run. -/
theorem readArgument_ne_run (r : OptionsReader) (argument : List Char) (options : Options) :
    r.readArgument argument ≠ .ok (.inl (.run options)) := by
  unfold readArgument
  split
  · exact r.readLong_ne_run _ options
  · exact r.readShort_ne_run _ options
  · unfold readWord
    split <;> nofun

/-- A run is not asked to write in two ways. -/
theorem exclusive_of_finish {r : OptionsReader} {options : Options}
    (h : r.finish = .ok (.run options)) : options.write = true → options.outDir = none := by
  unfold finish at h
  cases hsettle : r.settle with
  | error e => simp [hsettle, bind, Except.bind] at h
  | ok settled =>
      simp only [hsettle, bind, Except.bind] at h
      split at h
      · cases h
      · rename_i hways
        obtain rfl := Request.run.inj (Except.ok.inj h)
        intro hwrite
        by_contra hout
        exact hways ⟨hwrite, Option.isSome_iff_ne_none.2 hout⟩

theorem exclusive_of_readAll {r : OptionsReader} {options : Options} {arguments : List (List Char)}
    (h : r.readAll arguments = .ok (.run options)) :
    options.write = true → options.outDir = none := by
  induction arguments generalizing r with
  | nil => exact exclusive_of_finish h
  | cons argument rest ih =>
      rw [readAll] at h
      split at h
      · split at h
        · exact exclusive_of_finish h
        · cases h
      · split at h
        · cases h
        · rename_i request hargument
          rw [Except.ok.inj h] at hargument
          exact absurd hargument (r.readArgument_ne_run argument options)
        · exact ih h

end OptionsReader

/-! ## Whole runs -/

namespace Session

variable {environment : Environment} {options : Options} {tree : FileTree} {session : Session}

theorem prepare_eq_ok (h : (prepare environment options tree).1 = .ok session) :
    session.options = options ∧ session.workspace = environment.directory.join options.workspace ∧
      session.outDir = options.outDir.map environment.directory.join := by
  rw [prepare] at h
  obtain ⟨settings, log⟩ := loadSettings tree (environment.directory.join options.workspace)
  simp only [ofSettings] at h
  split at h
  · cases h
  · obtain rfl := Except.ok.inj h
    exact ⟨rfl, rfl, rfl⟩

theorem goesDown_of_prepare (h : (prepare environment options tree).1 = .ok session)
    (hdirectory : ['.', '.'] ∉ environment.directory.names)
    (hworkspace : ['.', '.'] ∉ Path.names options.workspace)
    (hout : ∀ outDir ∈ options.outDir, ['.', '.'] ∉ Path.names outDir) : session.GoesDown := by
  obtain ⟨-, hws, hod⟩ := prepare_eq_ok h
  refine ⟨fun hup => ?_, fun outDir houtDir hup => ?_⟩
  · rw [hws] at hup
    exact (Path.mem_names_join hup).elim hdirectory hworkspace
  · rw [hod] at houtDir
    obtain ⟨given, hgiven, rfl⟩ := Option.map_eq_some_iff.1 houtDir
    exact (Path.mem_names_join hup).elim hdirectory (hout given hgiven)

end Session

theorem run_of_error {environment : Environment} {options : Options} {tree : FileTree}
    {e : RunError} (h : (Session.prepare environment options tree).1 = .error e) :
    (run environment options tree).tree = tree := by
  unfold run
  cases hprepare : Session.prepare environment options tree with
  | mk session log =>
      rw [hprepare] at h
      obtain rfl : session = .error e := h
      rfl

theorem run_of_ok {environment : Environment} {options : Options} {tree : FileTree}
    {session : Session} (h : (Session.prepare environment options tree).1 = .ok session)
    (hwatch : options.watch = false) :
    (run environment options tree).tree = (session.runOnce tree).tree ∧
      (run environment options tree).outcome = (session.runOnce tree).outcome := by
  unfold run
  cases hprepare : Session.prepare environment options tree with
  | mk prepared log =>
      rw [hprepare] at h
      obtain rfl : prepared = .ok session := h
      simp only [hwatch]
      exact ⟨rfl, rfl⟩

/-- **A run writes conversions and nothing else, in whatever order.** Let the arguments be accepted
and ask for one run, and let neither the directory that the run starts from nor the paths that are
given have steps up. If the run cannot begin, the tree stays as it is. Otherwise only conversions
are written, as the options say, by the run itself and by any run over the same files in another
order, also if it fails, and wherever a run has been left off. If the run does not fail, no order of
the files fails, and they all come to the same counts and to the same tree, in which every
conversion is written. -/
theorem run_writes_conversions {arguments : List (List Char)} {options : Options}
    (environment : Environment) (tree : FileTree)
    (hread : Request.read arguments = .ok (.run options)) (hwatch : options.watch = false)
    (hdirectory : ['.', '.'] ∉ environment.directory.names)
    (hworkspace : ['.', '.'] ∉ Path.names options.workspace)
    (hout : ∀ outDir ∈ options.outDir, ['.', '.'] ∉ Path.names outDir) (htree : tree.WellFormed) :
    (∀ e, (Session.prepare environment options tree).1 = .error e →
      (run environment options tree).tree = tree) ∧
    ∀ session, (Session.prepare environment options tree).1 = .ok session →
      session.WritesConversions tree (run environment options tree).tree ∧
      (∀ files, files.Nodup → files ⊆ session.discover tree →
        session.WritesConversions tree (session.passOver tree files)) ∧
      ∀ files, files.Perm (session.discover tree) →
        session.WritesConversions tree (session.processAll tree files).tree ∧
        session.Settles tree files (run environment options tree).tree
          (run environment options tree).outcome := by
  refine ⟨fun e he => run_of_error he, fun session hsession => ?_⟩
  obtain ⟨hoptions, -, houtDir⟩ := Session.prepare_eq_ok hsession
  have hways : session.options.write = true → session.outDir = none := by
    intro hwrite
    rw [hoptions] at hwrite
    rw [houtDir, OptionsReader.exclusive_of_readAll hread hwrite]
    rfl
  have hdown := Session.goesDown_of_prepare hsession hdirectory hworkspace hout
  obtain ⟨hrunTree, hrunOutcome⟩ := run_of_ok hsession hwatch
  refine ⟨?_, fun files hnodup hsub => ?_, fun files hfiles => ⟨?_, ?_⟩⟩
  · rw [hrunTree, Session.runOnce_tree]
    exact Session.writesConversions_processAll hdown htree hways (List.Perm.refl _)
  · exact Session.writesConversions_passOver hdown htree hways hnodup hsub
  · exact Session.writesConversions_processAll hdown htree hways hfiles
  · rw [hrunTree, hrunOutcome]
    exact Session.settles_runOnce hdown htree hfiles

/-- A page in the directory `w`, and what an earlier run may have made of it. -/
def pageAndConversion : FileTree :=
  (({} : FileTree).putFile ["w".toList, "a.astro".toList]
    "---\n---\n\x7b\x7b x \x7d\x7d".toUTF8).putFile
      ["w".toList, "out".toList, "a.astro".toList] "---\n---\n\x7bx\x7d\n".toUTF8

/-- The directory for conversions is in the workspace, and there is a page to convert outside it. -/
theorem run_writes_conversions_apart :
    Request.read ["--out-dir".toList, "out".toList] = .ok (.run { outDir := some "out".toList }) ∧
      ∃ session, (Session.prepare ⟨"/w".toList, none⟩ { outDir := some "out".toList }
          pageAndConversion).1 = .ok session ∧
        ["a.astro".toList] ∈ session.discover pageAndConversion ∧
        session.WritesConversions pageAndConversion
          (run ⟨"/w".toList, none⟩ { outDir := some "out".toList } pageAndConversion).tree := by
  have hread : Request.read ["--out-dir".toList, "out".toList]
      = .ok (.run { outDir := some "out".toList }) := rfl
  have hsome : (Session.prepare ⟨"/w".toList, none⟩ { outDir := some "out".toList }
      pageAndConversion).1.toOption.any (fun session => session.hasExtension ["a.astro".toList]
        && !session.isIgnored ["a.astro".toList]) = true := by decide +kernel
  refine ⟨hread, ?_⟩
  cases hsession : (Session.prepare ⟨"/w".toList, none⟩ { outDir := some "out".toList }
      pageAndConversion).1 with
  | error e =>
      rw [hsession] at hsome
      cases hsome
  | ok session =>
      rw [hsession] at hsome
      obtain ⟨hextension, hignored⟩ := Bool.and_eq_true_iff.1 hsome
      have hworkspace : pageAndConversion.find session.workspace = .ok (["w".toList], .directory) := by
        rw [(Session.prepare_eq_ok hsession).2.1]
        rfl
      refine ⟨session, rfl, ?_, ?_⟩
      · exact (Session.mem_discover_iff hworkspace).2
          ⟨⟨_, rfl⟩, hextension, (Bool.not_eq_true' _).mp hignored⟩
      · exact ((run_writes_conversions ⟨"/w".toList, none⟩ pageAndConversion hread rfl
          (by decide +kernel) (by decide +kernel) (by decide +kernel) (by decide +kernel)).2
            session hsession).1

end AstroTemplate
