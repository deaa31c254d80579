/-
What a build is planned to be.
-/
import ImageLock.Context
import ImageLock.Document.Json
import ImageLock.Names

namespace ImageLock

/-- The plan of a stage: its image, context, definition and locks, and the
arguments of its build. `source` is the plan of the image it copies from. -/
structure BuildPlan where
  kind : String
  stage : String
  image : String
  context : Context
  isDev : Bool
  definition : Json
  locks : Json
  arguments : Names String
  source : Option BuildPlan

namespace BuildPlan

/-- A plan without arguments that copies from no other. -/
def make (kind stage image : String) (context : Context) (isDev : Bool)
    (definition locks : Json) : BuildPlan :=
  { kind, stage, image, context, isDev, definition := definition.sorted, locks := locks.sorted
    arguments := Names.empty, source := none }

def withArgument (plan : BuildPlan) (name value : String) : BuildPlan :=
  { plan with arguments := plan.arguments.insert name value }

def withSource (plan source : BuildPlan) : BuildPlan := { plan with source := some source }

def argumentFields (arguments : Names String) : List (String × Json) :=
  if arguments.entries.isEmpty then []
  else [("args", .object (arguments.entries.map fun (name, value) => (name, .text value)))]

/-- The fields of a plan, in the order in which they are shown. -/
def toJson : BuildPlan → Json
  | { kind, stage, image, context, isDev, definition, locks, arguments, source } =>
      .object ([("kind", .text kind), ("stage", .text stage), ("base_image", .text image),
          ("build_context", Json.ofRecord context.toNode), ("dev", .bool isDev),
          ("definition", definition), ("locks", locks)] ++
        argumentFields arguments ++
        match source with
        | some plan => [("source", plan.toJson)]
        | none => [])

end BuildPlan
end ImageLock
