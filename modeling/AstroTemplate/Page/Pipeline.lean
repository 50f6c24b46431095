import AstroTemplate.Page.Conversion
import AstroTemplate.Text.Quoted

set_option autoImplicit false

/-! # Pipelines of stages

A build runs a list of stages over each module. Stages are kept in the order they ask for; stages
that ask for the same keep the order in which they were added.
-/

namespace AstroTemplate

/-- When a stage runs. -/
inductive StageOrder where
  | pre
  | normal
  | post
  deriving DecidableEq, Repr

/-- The place of an order among the others. -/
def StageOrder.rank : StageOrder → Nat
  | pre => 0
  | normal => 1
  | post => 2

/-- A step of a build. Its transform is given the code and the id of a module, and gives new code
if it changes anything. -/
structure Stage where
  name : String
  order : StageOrder := .normal
  transform : List Char → List Char → Option (List Char)

/-- The stage that converts pages. It runs before whatever compiles them. -/
def conversionStage : Stage where
  name := "vuecast-vue-template-pre-astro"
  order := .pre
  transform code id := (convertModule? code id).map (·.code)

/-- Stages in the order in which they run. -/
structure Pipeline where
  stages : List Stage

namespace Pipeline

def empty : Pipeline := ⟨[]⟩

/-- Adds a stage after all stages of the same order or an earlier one. -/
def insert (pipeline : Pipeline) (stage : Stage) : Pipeline :=
  let early := fun (s : Stage) => decide (s.order.rank ≤ stage.order.rank)
  ⟨pipeline.stages.takeWhile early ++ stage :: pipeline.stages.dropWhile early⟩

/-- The pipeline that converts pages and does nothing else. -/
def conversion : Pipeline := empty.insert conversionStage

def stageNames (pipeline : Pipeline) : List String := pipeline.stages.map (·.name)

/-- The last result of the stages, each given the code that the stages before it have left;
`latest` is the result so far. -/
def runStages (code id : List Char) (latest : Option (List Char)) :
    List Stage → Option (List Char)
  | [] => latest
  | stage :: rest =>
    runStages code id ((stage.transform (latest.getD code) id).or latest) rest

/-- Runs the stages over a module. There is no result if no stage changed anything. -/
def run (pipeline : Pipeline) (code id : List Char) : Option (List Char) :=
  runStages code id none pipeline.stages

@[simp] theorem run_conversion (code id : List Char) :
    conversion.run code id = (convertModule? code id).map (·.code) := by
  simp [conversion, insert, empty, run, runStages, conversionStage]

/-- The names of the stages, in quotes, as a list for display. -/
def describe (pipeline : Pipeline) : String :=
  let names := pipeline.stageNames.map fun name => String.ofList (quoted name.toList)
  "[" ++ ", ".intercalate names ++ "]"

end Pipeline

end AstroTemplate
