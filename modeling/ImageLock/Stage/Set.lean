/-
Stages and what they derive from.

A set of stages names each stage's parent. The chain of a stage runs from the
stage itself up to the base, which has no name of its own in the set.
-/
import ImageLock.Names
import ImageLock.Decode
import ImageLock.Text.Quoted

namespace ImageLock

/-- A stage that changes what its parent says. -/
structure DerivedStage (S : Type) where
  stage : S
  parent : String
  isDev : Option Bool
deriving DecidableEq, Repr

abbrev StageSet (S : Type) := Names (DerivedStage S)

inductive StageError where
  | notFound (name : String)
  | cyclic (name : String)
deriving DecidableEq, Repr

def StageError.message : StageError → String
  | .notFound name => "stage " ++ Text.quoted name ++ " not found"
  | .cyclic name =>
      "there's a cyclic dependency between " ++ Text.quoted name ++ " and itself"

/-- What a kind's stages are: how one changes another, and their documents. -/
class StageConfig (S : Type) where
  merge : S → S → S
  toFields : S → List (String × Node)
  read : Decode.Reader S

namespace DerivedStage

variable {S : Type} [StageConfig S]

/-- The parent is that of the overriding stage. -/
def merge (base overriding : DerivedStage S) : DerivedStage S :=
  ⟨StageConfig.merge base.stage overriding.stage, overriding.parent,
    overriding.isDev.or base.isDev⟩

def toNode (d : DerivedStage S) : Node :=
  .record (StageConfig.toFields d.stage ++
    (if d.parent.isEmpty then [] else [("derive_from", .text d.parent)]) ++
    Node.optional "dev" (d.isDev.map .bool))

def readParent : Option Node → Except Mismatch String
  | none | some .null => .ok ""
  | some (.text parent) => .ok parent
  | some _ => .error .parentNotText

def readDev : Option Node → Except Mismatch (Option Bool)
  | none | some .null => .ok none
  | some (.bool isDev) => .ok (some isDev)
  | some _ => .error .devNotBool

/-- The two fields of derivation are taken out before the stage's own. -/
def read : Decode.Reader (DerivedStage S) := fun node => do
  let fields ← Decode.fields node
  let (parent, fields) := fields.take "derive_from"
  let parent ← readParent parent
  let (isDev, fields) := fields.take "dev"
  let isDev ← readDev isDev
  return ⟨← StageConfig.read (.map fields), parent, isDev⟩

end DerivedStage

namespace StageSet

variable {S : Type} [StageConfig S]

def empty : StageSet S := Names.empty

def merge (base overriding : StageSet S) : StageSet S :=
  overriding.entries.foldl (fun merged (name, stage) =>
    match merged.find? name with
    | some below => merged.insert name (below.merge stage)
    | none => merged.insert name stage) base

def toNode (set : StageSet S) : Node :=
  .record (set.entries.map fun (name, stage) => (name, stage.toNode))

def read : Decode.Reader (StageSet S) := fun node => do
  return Names.ofList (← Decode.entries DerivedStage.read node)

end StageSet
end ImageLock
