import AstroTemplate.Page.Pipeline
import Mathlib.Data.List.Induction

set_option autoImplicit false

/-! # Assembled pipelines

A pipeline that is assembled from stages, one insertion after another, holds them class by class:
the stages that come first, those without a wish, and those that come last, each class in the order
of registration. An insertion looks for its place only as far as the stages are early enough
(`Pipeline.insert`). That this is the right place rests on what the earlier insertions have left, so
the classes are the invariant (`Pipeline.insert_classes`).

Running a pipeline hands the code from stage to stage; a stage without a result hands on what it was
given (`feed`).
-/

namespace AstroTemplate

/-! ## Places of the stages -/

/-- The stages that ask for an order, in their order. -/
def inClass (order : StageOrder) (stages : List Stage) : List Stage :=
  stages.filter (·.order = order)

/-- The stages class by class. -/
def classes (stages : List Stage) : List Stage :=
  inClass .pre stages ++ inClass .normal stages ++ inClass .post stages

theorem order_of_mem_inClass {order : StageOrder} {stages : List Stage} {stage : Stage}
    (h : stage ∈ inClass order stages) : stage.order = order :=
  of_decide_eq_true (List.mem_filter.1 h).2

theorem inClass_concat (order : StageOrder) (stages : List Stage) (stage : Stage) :
    inClass order (stages ++ [stage])
      = inClass order stages ++ if stage.order = order then [stage] else [] := by
  rw [inClass, List.filter_append, List.filter_cons, List.filter_nil]
  simp only [decide_eq_true_eq]
  rfl

namespace Pipeline

/-- The pipeline made of stages that are inserted one after another. -/
def assemble (stages : List Stage) : Pipeline := stages.foldl insert empty

theorem assemble_concat (stages : List Stage) (stage : Stage) :
    assemble (stages ++ [stage]) = (assemble stages).insert stage := by
  rw [assemble, List.foldl_append]
  rfl

/-- Where the stages fall into early ones and late ones, a stage is inserted between them. -/
theorem insert_between (stage : Stage) {early late : List Stage}
    (hearly : ∀ s ∈ early, s.order.rank ≤ stage.order.rank)
    (hlate : ∀ s ∈ late, stage.order.rank < s.order.rank) :
    insert ⟨early ++ late⟩ stage = ⟨early ++ stage :: late⟩ := by
  have hbefore : ∀ s ∈ early, decide (s.order.rank ≤ stage.order.rank) = true :=
    fun s hs => decide_eq_true (hearly s hs)
  have hstop : late.takeWhile (fun s => decide (s.order.rank ≤ stage.order.rank)) = [] ∧
      late.dropWhile (fun s => decide (s.order.rank ≤ stage.order.rank)) = late := by
    cases late with
    | nil => exact ⟨rfl, rfl⟩
    | cons s rest =>
        have hs : ¬ decide (s.order.rank ≤ stage.order.rank) = true := by
          simpa using hlate s List.mem_cons_self
        exact ⟨List.takeWhile_cons_of_neg hs, List.dropWhile_cons_of_neg hs⟩
  rw [insert]
  dsimp only
  rw [List.takeWhile_append_of_pos hbefore, List.dropWhile_append_of_pos hbefore, hstop.1,
    hstop.2, List.append_nil]

/-- An insertion keeps the classes apart, and puts the stage at the end of its own. -/
theorem insert_classes (stages : List Stage) (stage : Stage) :
    insert ⟨classes stages⟩ stage = ⟨classes (stages ++ [stage])⟩ := by
  have hle : ∀ (order : StageOrder) {own : StageOrder}, stage.order = own →
      order.rank ≤ own.rank → ∀ s ∈ inClass order stages, s.order.rank ≤ stage.order.rank := by
    intro order own hown hrank s hs
    rw [order_of_mem_inClass hs, hown]
    exact hrank
  have hlt : ∀ (order : StageOrder) {own : StageOrder}, stage.order = own →
      own.rank < order.rank → ∀ s ∈ inClass order stages, stage.order.rank < s.order.rank := by
    intro order own hown hrank s hs
    rw [order_of_mem_inClass hs, hown]
    exact hrank
  rw [classes, classes, inClass_concat, inClass_concat, inClass_concat]
  -- the stage goes behind its own class: all stages up to there are early enough, all others late
  cases horder : stage.order with
  | pre =>
      have hearly := hle .pre horder (by decide)
      have hlate := List.forall_mem_append.2
        ⟨hlt .normal horder (by decide), hlt .post horder (by decide)⟩
      simpa using insert_between stage hearly hlate
  | normal =>
      have hearly := List.forall_mem_append.2
        ⟨hle .pre horder (by decide), hle .normal horder (by decide)⟩
      have hlate := hlt .post horder (by decide)
      simpa using insert_between stage hearly hlate
  | post =>
      have hearly := List.forall_mem_append.2
        ⟨hle .pre horder (by decide), hle .normal horder (by decide)⟩
      have hpost := hle .post horder (by decide)
      simpa using insert_between stage (List.forall_mem_append.2 ⟨hearly, hpost⟩)
        (List.forall_mem_nil _)

theorem stages_assemble (registered : List Stage) :
    assemble registered = ⟨classes registered⟩ := by
  induction registered using List.reverseRecOn with
  | nil => rfl
  | append_singleton registered stage ih => rw [assemble_concat, ih, insert_classes]

theorem perm_insert (pipeline : Pipeline) (stage : Stage) :
    (pipeline.insert stage).stages.Perm (stage :: pipeline.stages) := by
  refine List.perm_middle.trans ?_
  rw [List.takeWhile_append_dropWhile]

/-- No stage is lost and none is made. -/
theorem perm_assemble (registered : List Stage) :
    (assemble registered).stages.Perm registered := by
  induction registered using List.reverseRecOn with
  | nil => exact List.Perm.refl []
  | append_singleton registered stage ih =>
      rw [assemble_concat]
      exact ((perm_insert _ stage).trans (ih.cons stage)).trans
        (List.perm_append_singleton stage registered).symm

end Pipeline

/-! ## Code that is handed on -/

/-- What a stage hands on: its result, or the code it was given. -/
def Stage.handOn (stage : Stage) (id code : List Char) : List Char :=
  (stage.transform code id).getD code

/-- The code that comes out of the last of some stages. -/
def feed (id : List Char) (stages : List Stage) (code : List Char) : List Char :=
  stages.foldl (fun code stage => stage.handOn id code) code

/-- No stage has a result for the code that the stages before it hand on. -/
def AllSilent (id : List Char) (stages : List Stage) (code : List Char) : Prop :=
  ∀ before stage after, stages = before ++ stage :: after →
    stage.transform (feed id before code) id = none

theorem allSilent_cons {id : List Char} {stage : Stage} {rest : List Stage} {code : List Char} :
    AllSilent id (stage :: rest) code ↔
      stage.transform code id = none ∧ AllSilent id rest (stage.handOn id code) := by
  constructor
  · intro h
    refine ⟨h [] stage rest rfl, ?_⟩
    rintro before other after rfl
    exact h (stage :: before) other after rfl
  · rintro ⟨hstage, hrest⟩ before other after heq
    rcases List.cons_eq_append_iff.1 heq with ⟨rfl, hcons⟩ | ⟨more, rfl, hmore⟩
    · obtain ⟨rfl, rfl⟩ := List.cons.inj hcons
      exact hstage
    · exact hrest more other after hmore

namespace Pipeline

/-- The result of the stages, or the code itself if there is none, is what the stages hand on. -/
theorem getD_runStages (code id : List Char) (latest : Option (List Char))
    (stages : List Stage) :
    (runStages code id latest stages).getD code = feed id stages (latest.getD code) := by
  -- what the next stage is given is the latest result, or the code itself as long as there is none
  induction stages generalizing latest with
  | nil => rfl
  | cons stage rest ih =>
      have hnext : ((stage.transform (latest.getD code) id).or latest).getD code
          = stage.handOn id (latest.getD code) := by
        rw [Stage.handOn]
        cases stage.transform (latest.getD code) id <;> rfl
      rw [runStages, ih, hnext]
      rfl

/-- A result is not lost. -/
theorem runStages_some_ne_none (code id latest : List Char) (stages : List Stage) :
    runStages code id (some latest) stages ≠ none := by
  induction stages generalizing latest with
  | nil => exact Option.some_ne_none latest
  | cons stage rest ih =>
      rw [runStages]
      cases stage.transform ((some latest).getD code) id with
      | none => exact ih latest
      | some next => exact ih next

theorem runStages_none_iff (code id : List Char) (stages : List Stage) :
    runStages code id none stages = none ↔ AllSilent id stages code := by
  induction stages with
  | nil => simp [runStages, AllSilent]
  | cons stage rest ih =>
      rw [runStages, Option.getD_none, allSilent_cons, Stage.handOn]
      cases stage.transform code id with
      | none => simpa using ih
      | some next => simpa using runStages_some_ne_none code id next rest

/-- **Assembling sorts, running composes.** Whatever stages are inserted into an empty pipeline and
in whatever order, the pipeline holds the same stages: those that come first, then those without a
wish, then those that come last, each class in the order of registration. Running it on a module
feeds the code through the stages in that order. There is no result exactly if no stage had one for
the code it was given. -/
theorem assemble_sorts_and_composes (registered : List Stage) :
    (assemble registered).stages
        = inClass .pre registered ++ inClass .normal registered ++ inClass .post registered ∧
      (assemble registered).stages.Perm registered ∧
      ∀ code id : List Char,
        ((assemble registered).run code id).getD code
            = feed id (assemble registered).stages code ∧
          ((assemble registered).run code id = none ↔
            AllSilent id (assemble registered).stages code) := by
  refine ⟨congrArg stages (stages_assemble registered), perm_assemble registered, ?_⟩
  intro code id
  exact ⟨getD_runStages code id none _, runStages_none_iff code id _⟩

end Pipeline

end AstroTemplate
