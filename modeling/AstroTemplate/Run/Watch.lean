import AstroTemplate.Run.Pass

set_option autoImplicit false

/-! # Passes of a run that watches

A run that watches the workspace makes a pass at its beginning and another one whenever a file that
it looks at has changed. Converted code can still look like a template, so a file that was converted
in its own place must not be converted again. The run therefore remembers the code that it has given
to files, and leaves a file alone as long as it holds just that.

Files to which nothing was written are converted as in a single pass (`processAllAgain_eq`), so the
first pass is one (`runAgain_nil`).
-/

namespace AstroTemplate

/-- That a file is left alone. -/
def LogEntry.skipped (path : List Char) : LogEntry :=
  detail "vuecast::orchestrator"
    ("skipping " ++ String.ofList path ++ ", unchanged since it was written")

/-- The code that was written to files in their own places, the last one first. -/
abbrev Written := List (SourceFile × List Char)

namespace Session

/-- What has been written after a file was converted. -/
def remember (session : Session) (written : Written) (outcome : FileOutcome) : Written :=
  match outcome.code with
  | some code => if session.options.write then (outcome.file, code) :: written else written
  | none => written

/-- Converts a file, unless it still holds what was written to it. -/
def processAgain (session : Session) (written : Written) (tree : FileTree) (file : SourceFile) :
    Progress FileOutcome :=
  match session.readSource tree file with
  | .error _ => session.process tree file
  | .ok source =>
    if written.lookup file = some source then ⟨tree, [.skipped (relative file)], .ok { file }⟩
    else session.process tree file

/-- Converts files in the order given, up to the first failure, and tells what has been written
then. -/
def processAllAgain (session : Session) (written : Written) (tree : FileTree) :
    List SourceFile → Progress (List FileOutcome) × Written
  | [] => (⟨tree, [], .ok []⟩, written)
  | file :: files =>
    let first := session.processAgain written tree file
    match first.result with
    | .error e => (⟨first.tree, first.log, .error e⟩, written)
    | .ok outcome =>
      let (others, written) :=
        session.processAllAgain (session.remember written outcome) first.tree files
      (⟨others.tree, first.log ++ others.log, others.result.map (outcome :: ·)⟩, written)

/-- One more pass over the workspace, and what has been written after it. -/
def runAgain (session : Session) (written : Written) (tree : FileTree) : RunResult × Written :=
  let (progress, written) := session.processAllAgain written tree (session.discover tree)
  let result := session.conclude progress
  ({ result with log := result.log.filter (·.isShown session.options.verbose) }, written)

/-- The content of the file at a path, if there is one that can be read. -/
def dataAt? (tree : FileTree) (path : Path) : Option (Array UInt8) :=
  (tree.read path).toOption.map (·.data)

/-- Whether two trees hold the same of what the session looks at. -/
def sameFiles (session : Session) (before after : FileTree) : Bool :=
  session.discover before = session.discover after ∧
    (session.discover after).all fun file =>
      dataAt? before (session.path file) = dataAt? after (session.path file)

variable {session : Session} {written : Written} {tree : FileTree} {file : SourceFile}

/-- A file to which nothing was written is converted. -/
theorem processAgain_of_lookup (h : written.lookup file = none) :
    session.processAgain written tree file = session.process tree file := by
  rw [processAgain, h]
  cases session.readSource tree file <;> rfl

theorem process_file {outcome : FileOutcome}
    (h : (session.process tree file).result = .ok outcome) : outcome.file = file := by
  unfold process at h
  split at h
  · cases h
  · split at h
    · rw [← Except.ok.inj h]
    · simp only at h
      split at h
      · cases h
      · rw [← Except.ok.inj h]
        rfl

/-- What is written to a file is remembered of no other one. -/
theorem lookup_remember {outcome : FileOutcome} (hne : file ≠ outcome.file) :
    (session.remember written outcome).lookup file = written.lookup file := by
  have hbeq : (file == outcome.file) = false := beq_false_of_ne hne
  unfold remember
  split
  · split
    · rw [List.lookup_cons, hbeq]
    · rfl
  · rfl

/-- Files to which nothing was written are converted as in a single pass. -/
theorem processAllAgain_eq {files : List SourceFile} (hnodup : files.Nodup)
    (h : ∀ file ∈ files, written.lookup file = none) :
    (session.processAllAgain written tree files).1 = session.processAll tree files := by
  induction files generalizing written tree with
  | nil => rfl
  | cons file files ih =>
      obtain ⟨hfile, hfiles⟩ := List.forall_mem_cons.1 h
      obtain ⟨hnot, hrest⟩ := List.nodup_cons.1 hnodup
      rw [processAllAgain, processAll, processAgain_of_lookup hfile]
      cases hresult : (session.process tree file).result with
      | error e => rfl
      | ok outcome =>
          have hwritten : ∀ other ∈ files,
              (session.remember written outcome).lookup other = none := by
            intro other hother
            rw [lookup_remember, hfiles other hother]
            rintro rfl
            exact hnot (process_file hresult ▸ hother)
          simp only [ih hrest hwritten]

/-- The first pass of a run that watches is a single pass. -/
theorem runAgain_nil (hnodup : (session.discover tree).Nodup) :
    (session.runAgain [] tree).1 = { session.runOnce tree with
      log := (session.runOnce tree).log.filter (·.isShown session.options.verbose) } := by
  rw [runAgain, runOnce, ← processAllAgain_eq hnodup fun _ _ => List.lookup_nil]

end Session

end AstroTemplate
