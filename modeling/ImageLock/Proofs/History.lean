/-
Histories of updates. Locks have an entry for every name that a stage had when
its part was looked up last, however often the definition has changed since.
-/
import ImageLock.Proofs.LockPlace
import ImageLock.Proofs.Parts

namespace ImageLock

open Act

/-! What was seen. -/

/-- The names that each part of each stage had when it was looked up last. -/
abbrev Seen := Part → String → List String

/-- What was seen after an update: the parts that it looked up anew, as it found
them. -/
def Seen.after (seen : Seen) (kind : Kind) (world : World) (request : Request)
    (refresh : Refresh) (d : Definition) (written : Fields) : Seen := fun part name =>
  if kind.looksUp refresh d.locks part name then
    kind.shown world request { d with locks := written } part name
  else seen part name

namespace Seen

variable {seen : Seen} {kind : Kind} {world : World} {request : Request} {refresh : Refresh}
  {d : Definition} {written : Fields} {first last : Trail}

end Seen
/-! Plans that were made. -/

theorem Build.plan_ok {registry : Registry Kind} {world : World} {request : Request}
    {d : Definition} {kind : Kind} {plan : BuildPlan} {first last : Trail}
    (run : (Build.plan registry world request).after first = (.ok plan, last))
    (plain : Text.after? webserverStageLead request.stage = none)
    (loads : Loads world.backend request d) (known : findKind registry d.kind = .ok kind) :
    ∃ middle, (kind.plan world request d).after middle = (.ok plan, last) := by
  obtain ⟨d', _, loaded, run⟩ := bind_ok.mp run
  obtain rfl : d' = d := (loadDefinition_ok loaded).unique loads
  obtain ⟨_, _, _, run⟩ := bind_ok.mp run
  simp only [plain] at run
  obtain ⟨kind', middle, found, run⟩ := bind_ok.mp run
  obtain rfl := Except.ok.inj (known.symm.trans (ofExcept_ok.mp found).1)
  exact ⟨middle, mapError_ok.mp run⟩

namespace Php

theorem plan_ok {world : World} {request : Request} {d : ImageLock.Definition} {php : Definition}
    {plan : BuildPlan} {first last : Trail} (known : Definition.ofDefinition d = .ok php)
    (run : (Php.plan world request d).after first = (.ok plan, last)) :
    ∃ required resolved stage before after,
      (platformRequirements world.backend (php.locks.source.getD request.context)).after before =
        (.ok required, after) ∧
      php.resolveStage request.stage required php.locks.os.family = .ok resolved ∧
      php.locks.stages.find? request.stage = some stage ∧
      plan.Tells php.locks.image (php.locks.source.getD request.context) resolved.toNode
        stage.toNode := by
  obtain ⟨⟨php', resolved⟩, _, resolve, run⟩ := bind_ok.mp run
  obtain ⟨php'', before, own, resolve⟩ := bind_ok.mp resolve
  have own_eq := (ofExcept_ok.mp own).1
  obtain rfl := Except.ok.inj (known.symm.trans own_eq)
  obtain ⟨required, after, asked, resolve⟩ := bind_ok.mp resolve
  obtain ⟨resolved', _, found, answer⟩ := bind_ok.mp resolve
  obtain ⟨answer, _⟩ := pure_ok.mp answer
  obtain ⟨rfl, rfl⟩ := Prod.mk.inj answer
  dsimp only at run
  split at run
  next => exact (fail_ok.mp run).elim
  next stage there =>
    refine ⟨required, resolved, stage, before, after, mapError_ok.mp asked,
      (ofExcept_ok.mp found).1, there, ?_⟩
    obtain ⟨plan', _, options, answer⟩ := bind_ok.mp run
    obtain ⟨rfl, _⟩ := pure_ok.mp answer
    have options_eq := (ofExcept_ok.mp options).1
    rcases plan_tells php' (php'.locks.source.getD request.context) resolved stage request.stage
      with ⟨plan, made, tells⟩ | fails
    · have same : withHealthcheck plan' resolved = plan := by
        have := made
        rw [planOf, options_eq] at this
        exact Except.ok.inj this
      rwa [same]
    · rw [planOf, options_eq] at fails
      cases fails

end Php

namespace NodeJs

theorem plan_ok {world : World} {request : Request} {d : ImageLock.Definition}
    {nodeJs : Definition} {plan : BuildPlan} {first last : Trail}
    (known : Definition.ofDefinition d = .ok nodeJs)
    (run : (NodeJs.plan world request d).after first = (.ok plan, last)) :
    ∃ resolved stage,
      nodeJs.resolveStage request.stage = .ok resolved ∧
      nodeJs.locks.stages.find? request.stage = some stage ∧
      plan.Tells nodeJs.locks.image (nodeJs.locks.source.getD request.context) resolved.toNode
        stage.toNode := by
  obtain ⟨nodeJs', _, own, run⟩ := bind_ok.mp run
  have own_eq := (ofExcept_ok.mp own).1
  obtain rfl := Except.ok.inj (known.symm.trans own_eq)
  obtain ⟨resolved, _, found, run⟩ := bind_ok.mp run
  split at run
  next => exact (fail_ok.mp run).elim
  next stage there =>
    obtain ⟨installer, _, _, answer⟩ := bind_ok.mp run
    obtain ⟨rfl, _⟩ := pure_ok.mp answer
    refine ⟨resolved, stage, (ofExcept_ok.mp found).1, there, ?_⟩
    show (planOf nodeJs (nodeJs.locks.source.getD request.context) resolved stage
      request.stage installer).Tells _ _ _ _
    exact planOf_tells

end NodeJs
/-! Histories. -/

namespace Machine

variable {m : Machine} {disk disk' : Disk} {request : Request} {refresh : Refresh}
  {d : Definition} {kind : Kind} {written : Fields} {seen : Seen}
  {file context stage : String}

/-- A project whose definition is in the place of definitions. -/
def nodeJs (definition : String) : Disk := project "zbuild.yml" definition

def git : VersionMap := VersionMap.ofList [("git", "1")]

/-- The disk after an update wrote these locks. -/
def locked (disk : Disk) (locks : Fields) : Disk :=
  disk.write "/src/./zbuild.lock" (Update.content locks)

end Machine
end ImageLock
