import AstroTemplate.Proofs.SourceFiles

set_option autoImplicit false

/-! # Pages among the files

A file of the workspace is looked at for the ending of its name, but its whole path is taken as a
module id, and an id ends before its first question mark. So a page is converted like its text
(`Session.process_page`), unless there is a question mark in its path and what stands before it
does not end like a page: then it is left alone, whatever its text.
-/

namespace AstroTemplate

/-! ## Endings -/

theorem afterPrefix?_isSome_iff {p s : List Char} : (afterPrefix? p s).isSome = true ↔ p <+: s := by
  rw [Option.isSome_iff_exists]
  constructor
  · rintro ⟨t, ht⟩
    exact ⟨t, (eq_append_of_afterPrefix? ht).symm⟩
  · rintro ⟨t, rfl⟩
    exact ⟨t, afterPrefix?_append p t⟩

theorem endsWith_iff {p s : List Char} : endsWith p s = true ↔ p <:+ s := by
  rw [endsWith, beforeSuffix?, Option.isSome_map, afterPrefix?_isSome_iff, List.reverse_prefix]

/-- A path that need not be that of a directory ends like its last name. -/
theorem Path.endsWith_of_last {path : Path} {extension : List Char}
    (hends : path.endsInDirectory = false)
    (h : endsWith extension (path.names.getLastD []) = true) : endsWith extension path = true := by
  obtain ⟨last, -, hnames, rfl | ⟨before, rfl⟩⟩ := exists_last_name hends
  · rwa [hnames] at h
  · rw [names_append_slash, hnames, List.getLastD_concat, endsWith_iff] at h
    exact endsWith_iff.2 ((h.trans (List.suffix_cons '/' last)).trans (List.suffix_append _ _))

theorem stripQuery_of_not_mem {id : List Char} (h : '?' ∉ id) : stripQuery id = id := by
  refine List.takeWhile_eq_self_iff.2 fun c hc => ?_
  have hne : c ≠ '?' := fun heq => h (heq ▸ hc)
  simpa using hne

/-- Of the paths whose last name is that of a page, those are ids of pages that have no question
mark, or a page's ending before it. -/
theorem isPageId_iff {path : Path} (hends : path.endsInDirectory = false)
    (hname : endsWith pageExtension (path.names.getLastD []) = true) :
    isPageId path = true ↔ '?' ∉ path ∨ endsWith pageExtension (stripQuery path) = true := by
  constructor
  · exact .inr
  · rintro (hquery | h)
    · rw [isPageId, stripQuery_of_not_mem hquery]
      exact Path.endsWith_of_last hends hname
    · exact h

/-! ## Texts of files -/

theorem textOfBytes?_toUTF8 (source : List Char) :
    textOfBytes? (String.ofList source).toUTF8 = some source := by
  have hvalid := (String.ofList source).isValidUTF8
  have hfrom : String.fromUTF8? (String.ofList source).toUTF8 = some (String.ofList source) :=
    dif_pos hvalid
  rw [textOfBytes?, hfrom, Option.map_some, String.toList_ofList]

namespace Session

/-! ## One file -/

/-- The file is converted as `conversion?` says. It is marked as converted if that is a conversion,
and then it is the code of the conversion that is written and printed. Otherwise nothing is done.
Nothing fails but writing apart, and that only where the tree does not take the file. -/
structure ConvertsAs (session : Session) (tree : FileTree) (file : SourceFile)
    (conversion? : Option Conversion) : Prop where
  succeeds : (∃ outcome, (session.process tree file).result = .ok outcome) ↔
    ∀ conversion ∈ conversion?, session.options.write = true ∨ ∀ outDir ∈ session.outDir,
      tree.Takes (targetIn outDir file) (String.ofList conversion.code).toUTF8
  marked : ∀ outcome, (session.process tree file).result = .ok outcome →
    outcome.code = conversion?.map (·.code)
  failed : ∀ e, (session.process tree file).result = .error e →
    conversion?.isSome = true ∧ ∃ path cause, e = .writeFailed path cause
  untouched : conversion? = none → (session.process tree file).tree = tree
  in_place : session.options.write = true → ∀ conversion ∈ conversion?,
    ∀ outcome, (session.process tree file).result = .ok outcome →
      (session.process tree file).tree.read (session.path file)
        = .ok (String.ofList conversion.code).toUTF8
  apart : session.options.write = false → ∀ outDir ∈ session.outDir, ∀ conversion ∈ conversion?,
    ∀ outcome, (session.process tree file).result = .ok outcome →
      (session.process tree file).tree.read (targetIn outDir file)
        = .ok (String.ofList conversion.code).toUTF8
  printed : session.options.emit = true → ∀ conversion ∈ conversion?,
    ∀ outcome, (session.process tree file).result = .ok outcome →
      session.printFile outcome = "=== " ++ String.ofList (relative file) ++ " ===\n"
        ++ String.ofList conversion.code ++ "\n" ++ outcome.report

section

variable {session : Session} {tree after : FileTree} {file : SourceFile} {source code : List Char}

theorem read_writeCode {path : Path} (h : writeCode tree path code = (after, none)) :
    after.read path = .ok (String.ofList code).toUTF8 :=
  FileTree.read_write (writeCode_eq_iff.1 h)

/-- A conversion that is stored in place is read from there. -/
theorem read_store_in_place (hwrite : session.options.write = true)
    (h : session.store tree file code = (after, none)) :
    after.read (session.path file) = .ok (String.ofList code).toUTF8 := by
  rcases session.store_cases tree file code with ⟨-, hstore⟩ | ⟨hdry, -⟩ | ⟨hdry, -⟩
  · exact read_writeCode (hstore ▸ h)
  · rw [hwrite] at hdry
    cases hdry
  · rw [hwrite] at hdry
    cases hdry

/-- A conversion that is stored apart is read from there. -/
theorem read_store_apart {outDir : Path} (hwrite : session.options.write = false)
    (hout : session.outDir = some outDir) (h : session.store tree file code = (after, none)) :
    after.read (targetIn outDir file) = .ok (String.ofList code).toUTF8 := by
  rcases session.store_cases tree file code with ⟨hplace, -⟩ | ⟨-, hnone, -⟩ |
    ⟨-, other, middle, hother, ⟨-, hstore⟩ | ⟨cause, -, hstore⟩⟩
  · rw [hwrite] at hplace
    cases hplace
  · rw [hout] at hnone
    cases hnone
  · obtain rfl := Option.some.inj (hout.symm.trans hother)
    exact read_writeCode (hstore ▸ h)
  · rw [hstore] at h
    cases h

theorem convertsAs_of_none (hread : session.readSource tree file = .ok source)
    (hmodule : convertModule? source (session.path file) = none) :
    session.ConvertsAs tree file none := by
  have hprocess := process_of_none hread hmodule
  refine ⟨?_, ?_, ?_, ?_, ?_, ?_, ?_⟩
  · rw [hprocess]
    exact iff_of_true ⟨_, rfl⟩ nofun
  · intro outcome h
    rw [hprocess] at h
    rw [← Except.ok.inj h]
    rfl
  · intro e h
    rw [hprocess] at h
    cases h
  · intro _
    rw [hprocess]
  all_goals nofun

section

variable {place : Place} {content : ByteArray} {conversion : Conversion}

theorem convertsAs_of_stored (hfind : tree.find (session.path file) = .ok (place, .file content))
    (hread : session.readSource tree file = .ok source)
    (hmodule : convertModule? source (session.path file) = some conversion)
    (hstore : session.store tree file conversion.code = (after, none)) :
    session.ConvertsAs tree file (some conversion) := by
  have hprocess := process_of_some hread hmodule
  rw [hstore] at hprocess
  have hok : ∀ outcome, (session.process tree file).result = .ok outcome →
      outcome = session.outcome file source conversion.code := by
    intro outcome h
    rw [hprocess] at h
    exact (Except.ok.inj h).symm
  have htree : (session.process tree file).tree = after := by rw [hprocess]
  refine ⟨?_, ?_, ?_, nofun, ?_, ?_, ?_⟩
  · rw [hprocess]
    refine iff_of_true ⟨_, rfl⟩ ?_
    intro other hother
    obtain rfl := Option.some.inj hother
    exact (store_eq_none_iff_takes hfind).1 (by rw [hstore])
  · intro outcome h
    rw [hok outcome h]
    rfl
  · intro e h
    rw [hprocess] at h
    cases h
  · intro hwrite other hother _ _
    obtain rfl := Option.some.inj hother
    rw [htree]
    exact read_store_in_place hwrite hstore
  · intro hwrite outDir hout other hother _ _
    obtain rfl := Option.some.inj hother
    rw [htree]
    exact read_store_apart hwrite hout hstore
  · intro hemit other hother outcome h
    obtain rfl := Option.some.inj hother
    rw [hok outcome h, printFile, hemit]
    rfl

theorem convertsAs_of_not_stored {e : RunError}
    (hfind : tree.find (session.path file) = .ok (place, .file content))
    (hread : session.readSource tree file = .ok source)
    (hmodule : convertModule? source (session.path file) = some conversion)
    (hstore : session.store tree file conversion.code = (after, some e)) :
    session.ConvertsAs tree file (some conversion) := by
  have hprocess := process_of_some hread hmodule
  rw [hstore] at hprocess
  have herror : ∀ outcome, (session.process tree file).result ≠ .ok outcome := by
    intro outcome h
    rw [hprocess] at h
    cases h
  refine ⟨?_, fun o h => absurd h (herror o), ?_, nofun,
    fun _ _ _ o h => absurd h (herror o), fun _ _ _ _ _ o h => absurd h (herror o),
    fun _ _ _ o h => absurd h (herror o)⟩
  · refine iff_of_false (fun ⟨o, h⟩ => herror o h) fun hall => ?_
    have hnone := (store_eq_none_iff_takes hfind).2 (hall conversion rfl)
    rw [hstore] at hnone
    cases hnone
  · intro e' h
    rw [hprocess] at h
    obtain rfl := Except.error.inj h
    exact ⟨rfl, exists_of_store_eq_some (congrArg Prod.snd hstore)⟩

/-- A file that is found and read is converted as a module whose id is its path. -/
theorem convertsAs_of_readSource
    (hfind : tree.find (session.path file) = .ok (place, .file content))
    (hread : session.readSource tree file = .ok source) :
    session.ConvertsAs tree file (convertModule? source (session.path file)) := by
  cases hmodule : convertModule? source (session.path file) with
  | none => exact convertsAs_of_none hread hmodule
  | some conversion =>
      cases hstore : session.store tree file conversion.code with
      | mk after failure =>
          cases failure with
          | none => exact convertsAs_of_stored hfind hread hmodule hstore
          | some e => exact convertsAs_of_not_stored hfind hread hmodule hstore

end

/-- **Pages are converted like their texts, unless a question mark hides what they are.** Let the
name of a file under the workspace end like that of a page, and let its content be a text. If its
path has no question mark, or ends like that of a page before the first one, the file is converted
as its text is, and without failure unless the tree does not take what is to be written apart.
Otherwise it is left alone, whatever its text. -/
theorem process_page {place : Place} {entry : Entry} (htree : tree.WellFormed)
    (hworkspace : tree.find session.workspace = .ok (place, entry))
    (hname : endsWith pageExtension ((session.path file).names.getLastD []) = true)
    (hcontent : tree.content? (place ++ file) = some (String.ofList source).toUTF8) :
    session.ConvertsAs tree file
      (if '?' ∉ session.path file ∨ endsWith pageExtension (stripQuery (session.path file)) = true
        then convert? .condense source else none) := by
  have hfind := find_path htree hworkspace hcontent
  have hread := readSource_eq hfind (textOfBytes?_toUTF8 source)
  have hends := (FileTree.find_eq_file_iff.1 hfind).2.2
  have hmodule : convertModule? source (session.path file)
      = if '?' ∉ session.path file ∨ endsWith pageExtension (stripQuery (session.path file)) = true
        then convert? .condense source else none :=
    if_congr (isPageId_iff hends hname) rfl rfl
  exact hmodule ▸ convertsAs_of_readSource hfind hread

end

/-- A session that converts the pages of a workspace in place. -/
def inPlace (workspace : Path) : Session where
  options := { write := true }
  workspace := workspace
  outDir := none
  extensions := [pageExtension]
  ignored := []
  diagnostics := true
  timings := false

/-- A tree that holds one text. -/
def treeOf (place : Place) (source : List Char) : FileTree :=
  ({} : FileTree).putFile place (String.ofList source).toUTF8

/-- A page in a directory with a question mark in its name, behind what looks like a page, is
converted. -/
theorem process_page_in_queried_directory :
    ["a.astro?b".toList, "c.astro".toList] ∈ (inPlace "/w".toList).discover
        (treeOf ["w".toList, "a.astro?b".toList, "c.astro".toList]
          "---\n---\n\x7b\x7b x \x7d\x7d".toList) ∧
      (inPlace "/w".toList).ConvertsAs
        (treeOf ["w".toList, "a.astro?b".toList, "c.astro".toList]
          "---\n---\n\x7b\x7b x \x7d\x7d".toList)
        ["a.astro?b".toList, "c.astro".toList]
        (convert? .condense "---\n---\n\x7b\x7b x \x7d\x7d".toList) ∧
      ∃ outcome, ((inPlace "/w".toList).process
        (treeOf ["w".toList, "a.astro?b".toList, "c.astro".toList]
          "---\n---\n\x7b\x7b x \x7d\x7d".toList)
        ["a.astro?b".toList, "c.astro".toList]).result = .ok outcome ∧
        outcome.code.isSome = true := by
  have hworkspace : (treeOf ["w".toList, "a.astro?b".toList, "c.astro".toList]
      "---\n---\n\x7b\x7b x \x7d\x7d".toList).find (inPlace "/w".toList).workspace
        = .ok (["w".toList], .directory) := rfl
  have hquery : '?' ∉ (inPlace "/w".toList).path ["a.astro?b".toList, "c.astro".toList] ∨
      endsWith pageExtension
        (stripQuery ((inPlace "/w".toList).path ["a.astro?b".toList, "c.astro".toList])) = true := by
    decide +kernel
  have hconverts : (inPlace "/w".toList).ConvertsAs
      (treeOf ["w".toList, "a.astro?b".toList, "c.astro".toList]
        "---\n---\n\x7b\x7b x \x7d\x7d".toList)
      ["a.astro?b".toList, "c.astro".toList]
      (convert? .condense "---\n---\n\x7b\x7b x \x7d\x7d".toList) := by
    rw [← if_pos (t := convert? .condense _) (e := none) hquery]
    exact process_page (by decide +kernel) hworkspace (by decide +kernel) rfl
  have hsome : (convert? .condense "---\n---\n\x7b\x7b x \x7d\x7d".toList).isSome = true := by
    decide +kernel
  obtain ⟨outcome, hok⟩ := hconverts.succeeds.2 fun _ _ => .inl rfl
  refine ⟨?_, hconverts, outcome, hok, ?_⟩
  · exact (mem_discover_iff hworkspace).2 ⟨⟨_, rfl⟩, by decide +kernel, by decide +kernel⟩
  · rw [hconverts.marked outcome hok, Option.isSome_map, hsome]

/-- A page with a question mark in its name is left alone, although there is something to
convert. -/
theorem process_page_hidden :
    ["what?.astro".toList] ∈ (inPlace "/w".toList).discover
        (treeOf ["w".toList, "what?.astro".toList] "---\n---\n\x7b\x7b x \x7d\x7d".toList) ∧
      (convert? .condense "---\n---\n\x7b\x7b x \x7d\x7d".toList).isSome = true ∧
      (inPlace "/w".toList).process
          (treeOf ["w".toList, "what?.astro".toList] "---\n---\n\x7b\x7b x \x7d\x7d".toList)
          ["what?.astro".toList]
        = ⟨treeOf ["w".toList, "what?.astro".toList] "---\n---\n\x7b\x7b x \x7d\x7d".toList, [],
          .ok { file := ["what?.astro".toList] }⟩ := by
  have hworkspace : (treeOf ["w".toList, "what?.astro".toList]
      "---\n---\n\x7b\x7b x \x7d\x7d".toList).find (inPlace "/w".toList).workspace
        = .ok (["w".toList], .directory) := rfl
  have hfind : (treeOf ["w".toList, "what?.astro".toList]
      "---\n---\n\x7b\x7b x \x7d\x7d".toList).find ((inPlace "/w".toList).path ["what?.astro".toList])
        = .ok (["w".toList, "what?.astro".toList],
          .file (String.ofList "---\n---\n\x7b\x7b x \x7d\x7d".toList).toUTF8) := rfl
  refine ⟨?_, by decide +kernel, ?_⟩
  · exact (mem_discover_iff hworkspace).2 ⟨⟨_, rfl⟩, by decide +kernel, by decide +kernel⟩
  · exact process_of_none (readSource_eq hfind (textOfBytes?_toUTF8 _)) (by decide +kernel)

end Session

end AstroTemplate
