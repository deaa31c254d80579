/-
The chain of a stage, and the stage that the chain makes.
-/
import ImageLock.Stage.Set

namespace ImageLock

/-- The stage that a chain makes of its base. -/
structure MergedStage (S : Type) where
  stage : S
  isDev : Bool
deriving DecidableEq, Repr

namespace StageSet

variable {S : Type}

/-- The name of the stage that a definition itself describes. -/
def baseName : String := "base"

def isBase (name : String) : Bool := name.isEmpty || name == baseName

/-- Follows parents up to the base. Each step visits another stage of the
set, so `fuel` beyond the number of stages is never used up. -/
def walk (set : StageSet S) : Nat → List String → String →
    Except StageError (List (DerivedStage S))
  | fuel, visited, name =>
      if isBase name then .ok []
      else if visited.contains name then .error (.cyclic name)
      else match set.find? name, fuel with
        | none, _ => .error (.notFound name)
        | some _, 0 => .error (.cyclic name)
        | some stage, fuel + 1 => do
            return stage :: (← walk set fuel (name :: visited) stage.parent)

/-- The stages from the named one up to the base, which is not among them. -/
def chain (set : StageSet S) (name : String) : Except StageError (List (DerivedStage S)) :=
  walk set (set.size + 1) [] name

variable [StageConfig S]

/-- Applies a chain from its far end. A stage that does not say whether it is
for development is like its parent. -/
def mergeChain (base : S) (chain : List (DerivedStage S)) : MergedStage S :=
  chain.foldr (fun derived merged =>
    ⟨StageConfig.merge merged.stage derived.stage, derived.isDev.getD merged.isDev⟩)
    ⟨base, false⟩

def resolve (base : S) (set : StageSet S) (name : String) :
    Except StageError (MergedStage S) := do
  return mergeChain base (← chain set name)

end StageSet
end ImageLock
