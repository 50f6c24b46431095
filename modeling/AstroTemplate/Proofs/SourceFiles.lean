import AstroTemplate.Proofs.FileTrees
import AstroTemplate.Run.Pass
import Mathlib.Data.List.Nodup

set_option autoImplicit false

/-! # The files of a workspace

The files to look at are those of the tree that stand under the workspace, have one of the endings
and are not left alone (`Session.mem_discover_iff`). Each is there once, and the path it is given
leads to it (`Session.find_path`), whatever steps in place or up the path of the workspace has.

A file is read, converted and stored. The lemmas on `Session.process` say what each way through
these steps comes to, so that nothing else has to open its definition.
-/

namespace AstroTemplate

theorem nodup_eraseDups {α : Type} [BEq α] [LawfulBEq α] : (l : List α) → l.eraseDups.Nodup
  | [] => List.nodup_nil
  | a :: rest => by
      rw [List.eraseDups_cons, List.nodup_cons]
      constructor
      · intro hmem
        have hne := (List.mem_filter.1 (List.mem_eraseDups.1 hmem)).2
        simp at hne
      · exact nodup_eraseDups _
  termination_by l => l.length
  decreasing_by exact Nat.lt_succ_of_le (List.length_filter_le _ rest)

namespace FileTree

theorem mem_places {tree : FileTree} {place : Place} {content : ByteArray}
    (h : tree.content? place = some content) : place ∈ tree.places := by
  rw [content?_eq_some_iff] at h
  have hne : place ≠ [] := by
    rintro rfl
    cases h
  exact List.mem_eraseDups.2 (List.mem_map_of_mem (mem_of_lookup? hne h))

theorem mem_filesUnder_iff {tree : FileTree} {place : Place} {file : List (List Char)} :
    file ∈ tree.filesUnder place ↔ ∃ content, tree.content? (place ++ file) = some content := by
  simp only [filesUnder, List.mem_map, List.mem_filter, Bool.and_eq_true, List.isPrefixOf_iff_prefix]
  constructor
  · rintro ⟨p, ⟨-, hcontent, rest, rfl⟩, rfl⟩
    rw [List.drop_left]
    exact Option.isSome_iff_exists.1 hcontent
  · rintro ⟨content, hcontent⟩
    refine ⟨place ++ file, ⟨mem_places hcontent, ?_, List.prefix_append place file⟩, List.drop_left⟩
    rw [hcontent]
    rfl

theorem nodup_filesUnder (tree : FileTree) (place : Place) : (tree.filesUnder place).Nodup := by
  refine List.Nodup.map_on ?_ ((nodup_eraseDups _).filter _)
  intro p hp q hq hdrop
  simp only [List.mem_filter, Bool.and_eq_true, List.isPrefixOf_iff_prefix] at hp hq
  obtain ⟨-, -, rest, rfl⟩ := hp
  obtain ⟨-, -, rest', rfl⟩ := hq
  rw [List.drop_left, List.drop_left] at hdrop
  rw [hdrop]

end FileTree

namespace Session

variable {session : Session} {tree : FileTree} {place : Place} {entry : Entry} {file : SourceFile}

theorem mem_discover_iff (hworkspace : tree.find session.workspace = .ok (place, entry)) :
    file ∈ session.discover tree ↔ (∃ content, tree.content? (place ++ file) = some content) ∧
      session.hasExtension file = true ∧ session.isIgnored file = false := by
  rw [discover, hworkspace]
  simp [List.mem_mergeSort, FileTree.mem_filesUnder_iff]

/-- There is a workspace if there are files in it. -/
theorem exists_find_workspace (h : file ∈ session.discover tree) :
    ∃ place entry, tree.find session.workspace = .ok (place, entry) := by
  cases hworkspace : tree.find session.workspace with
  | error e => simp [discover, hworkspace] at h
  | ok found => exact ⟨found.1, found.2, rfl⟩

theorem nodup_discover (session : Session) (tree : FileTree) : (session.discover tree).Nodup := by
  unfold discover
  cases tree.find session.workspace with
  | error e => exact List.nodup_nil
  | ok found =>
      refine (List.mergeSort_perm _ _).nodup_iff.2 ?_
      exact (FileTree.nodup_filesUnder tree found.1).filter _

/-- The path of a file leads to it. -/
theorem find_path {content : ByteArray} (htree : tree.WellFormed)
    (hworkspace : tree.find session.workspace = .ok (place, entry))
    (hfile : tree.content? (place ++ file) = some content) :
    tree.find (session.path file) = .ok (place ++ file, .file content) := by
  rw [FileTree.content?_eq_some_iff] at hfile
  have hnames : ∀ name ∈ file, Path.IsName name := fun name hname =>
    htree.isName hfile name (List.mem_append_right place hname)
  obtain ⟨hwalk, hplace⟩ := FileTree.find_eq_ok hworkspace
  refine FileTree.find_eq_file_iff.2 ⟨?_, hfile, ?_⟩
  · rw [session.names_path hnames, FileTree.walk_append, hwalk]
    show tree.walk place file = _
    refine (FileTree.walk_eq_ok_iff fun hup => (hnames _ hup).not_up rfl).2 ⟨rfl, ?_⟩
    intro more hmore hne
    refine htree.directory_above hfile ?_ ?_
    · exact (List.prefix_append_right_inj place).2 hmore
    · exact fun heq => hne (List.append_cancel_left heq)
  · by_cases hne : file = []
    · -- the workspace is the file, and its path has led there
      rw [hne, List.append_nil, hplace] at hfile
      rw [Option.some.inj hfile] at hworkspace
      rw [hne]
      exact (FileTree.find_eq_file_iff.1 hworkspace).2.2
    · exact session.endsInDirectory_path hnames hne

/-! ## Converting a file -/

section

variable {source code : List Char} {conversion : Conversion} {after : FileTree}

theorem readSource_eq {content : ByteArray}
    (hfind : tree.find (session.path file) = .ok (place, .file content))
    (htext : textOfBytes? content = some source) : session.readSource tree file = .ok source := by
  rw [readSource, FileTree.read_eq_ok_iff.2 ⟨place, hfind⟩]
  simp only [htext]

theorem process_of_error {e : RunError} (hread : session.readSource tree file = .error e) :
    session.process tree file = ⟨tree, [], .error e⟩ := by
  rw [process, hread]

theorem process_of_none (hread : session.readSource tree file = .ok source)
    (hnone : convertModule? source (session.path file) = none) :
    session.process tree file = ⟨tree, [], .ok { file }⟩ := by
  rw [process, hread]
  simp only [hnone]

theorem process_of_some (hread : session.readSource tree file = .ok source)
    (hsome : convertModule? source (session.path file) = some conversion) :
    session.process tree file =
      ⟨(session.store tree file conversion.code).1, session.conversionLog file source conversion,
        ((session.store tree file conversion.code).2.map .error).getD
          (.ok (session.outcome file source conversion.code))⟩ := by
  rw [process, hread]
  simp only [hsome]
  obtain ⟨after, failure⟩ := session.store tree file conversion.code
  cases failure <;> rfl

/-! ## Storing a file -/

theorem writeCode_eq_iff {path : Path} : writeCode tree path code = (after, none) ↔
    tree.write path (String.ofList code).toUTF8 = .ok after := by
  unfold writeCode
  cases tree.write path (String.ofList code).toUTF8 with
  | ok other => simp only [Prod.mk.injEq, and_true, Except.ok.injEq]
  | error e => simp only [Prod.mk.injEq, reduceCtorEq, and_false]

/-- Code is written, or the tree stays as it is. -/
theorem writeCode_cases (tree : FileTree) (path : Path) (code : List Char) :
    (∃ after, writeCode tree path code = (after, none)) ∨
      ∃ e, writeCode tree path code = (tree, some (.writeFailed path e)) := by
  unfold writeCode
  cases tree.write path (String.ofList code).toUTF8 with
  | ok after => exact .inl ⟨after, rfl⟩
  | error e => exact .inr ⟨e, rfl⟩

/-- Directories are made for what is written, and that may fail. -/
theorem writeCodeDeep_cases (tree : FileTree) (path : Path) (code : List Char) :
    ∃ middle, (tree.makeDirectories path.parent = (middle, none) ∧
        writeCodeDeep tree path code = writeCode middle path code) ∨
      ∃ e, tree.makeDirectories path.parent = (middle, some e) ∧
        writeCodeDeep tree path code = (middle, some (.writeFailed path.parent e)) := by
  unfold writeCodeDeep
  cases tree.makeDirectories path.parent with
  | mk middle failure =>
      cases failure with
      | none => exact ⟨middle, .inl ⟨rfl, rfl⟩⟩
      | some e => exact ⟨middle, .inr ⟨e, rfl, rfl⟩⟩

/-- A conversion is written in place, or not at all, or apart, where the directories for it may
fail. -/
theorem store_cases (session : Session) (tree : FileTree) (file : SourceFile) (code : List Char) :
    (session.options.write = true ∧
      session.store tree file code = writeCode tree (session.path file) code) ∨
    (session.options.write = false ∧ session.outDir = none ∧
      session.store tree file code = (tree, none)) ∨
    (session.options.write = false ∧ ∃ outDir middle, session.outDir = some outDir ∧
      ((tree.makeDirectories (targetIn outDir file).parent = (middle, none) ∧
        session.store tree file code = writeCode middle (targetIn outDir file) code) ∨
      ∃ e, tree.makeDirectories (targetIn outDir file).parent = (middle, some e) ∧
        session.store tree file code
          = (middle, some (.writeFailed (targetIn outDir file).parent e)))) := by
  cases hwrite : session.options.write with
  | true => exact .inl ⟨rfl, if_pos hwrite⟩
  | false =>
      right
      cases hout : session.outDir with
      | none =>
          refine .inl ⟨rfl, rfl, ?_⟩
          rw [store, hwrite, hout]
          exact if_neg Bool.false_ne_true
      | some outDir =>
          have hstore : session.store tree file code
              = writeCodeDeep tree (targetIn outDir file) code := by
            rw [store, hwrite, hout]
            exact if_neg Bool.false_ne_true
          rw [hstore]
          obtain ⟨middle, hmiddle⟩ := writeCodeDeep_cases tree (targetIn outDir file) code
          exact .inr ⟨rfl, outDir, middle, rfl, hmiddle⟩

/-- A conversion is stored in place of the file it belongs to, if that has been found; apart, if the
tree takes it there; and otherwise there is nothing to store. -/
theorem store_eq_none_iff_takes {content : ByteArray}
    (hfind : tree.find (session.path file) = .ok (place, .file content)) :
    (session.store tree file code).2 = none ↔ session.options.write = true ∨
      ∀ outDir ∈ session.outDir, tree.Takes (targetIn outDir file) (String.ofList code).toUTF8 := by
  rcases session.store_cases tree file code with ⟨hwrite, hstore⟩ | ⟨hwrite, hout, hstore⟩ |
    ⟨hwrite, outDir, middle, hout, ⟨hmake, hstore⟩ | ⟨e, hmake, hstore⟩⟩
  · have hafter := FileTree.write_eq_ok_of_find hfind (String.ofList code).toUTF8
    rw [hstore, writeCode_eq_iff.2 hafter]
    exact iff_of_true rfl (.inl hwrite)
  · rw [hstore]
    exact iff_of_true rfl (.inr fun outDir hother => by simp [hout] at hother)
  · rw [hstore, hout]
    simp only [hwrite, Bool.false_eq_true, false_or, Option.mem_some_iff, forall_eq',
      FileTree.takes_iff_of_make hmake]
    rcases writeCode_cases middle (targetIn outDir file) code with ⟨after, hcode⟩ | ⟨e, hcode⟩
    · exact iff_of_true (by rw [hcode]) ⟨after, writeCode_eq_iff.1 hcode⟩
    · refine iff_of_false (by rw [hcode]; nofun) ?_
      rintro ⟨after, hafter⟩
      rw [writeCode_eq_iff.2 hafter] at hcode
      cases (Prod.mk.inj hcode).2
  · rw [hstore, hout]
    simp only [hwrite, Bool.false_eq_true, false_or, Option.mem_some_iff, forall_eq']
    refine iff_of_false nofun ?_
    rintro ⟨other, -, hother, -⟩
    cases (Prod.mk.inj (hother.symm.trans hmake)).2

/-- Storing fails in writing only. -/
theorem exists_of_store_eq_some {e : RunError} (h : (session.store tree file code).2 = some e) :
    ∃ path cause, e = .writeFailed path cause := by
  have hwritten : ∀ {tree path}, (writeCode tree path code).2 = some e →
      ∃ path cause, e = .writeFailed path cause := by
    intro tree path hwritten
    rcases writeCode_cases tree path code with ⟨after, hcode⟩ | ⟨cause, hcode⟩
    · rw [hcode] at hwritten
      cases hwritten
    · rw [hcode] at hwritten
      exact ⟨path, cause, (Option.some.inj hwritten).symm⟩
  rcases session.store_cases tree file code with ⟨-, hstore⟩ | ⟨-, -, hstore⟩ |
    ⟨-, outDir, middle, -, ⟨-, hstore⟩ | ⟨cause, -, hstore⟩⟩
  · exact hwritten (hstore ▸ h)
  · rw [hstore] at h
    cases h
  · exact hwritten (hstore ▸ h)
  · rw [hstore] at h
    exact ⟨_, cause, (Option.some.inj h).symm⟩

end

end Session

end AstroTemplate
