/-
Locking a definition again with the locks that were written for it. A part that
was kept is kept, and one that was looked up is looked up to the same, so that
the locks stay as they are.
-/
import ImageLock.Proofs.FullRefresh
import ImageLock.Proofs.LockPath
import ImageLock.Proofs.Rerun

namespace ImageLock

open Act

variable {ε α S : Type} {r : Rerun} {request : Request} {refresh : Refresh}

/-! One part. -/

/-- What the next run finds locked of a part: its value, or nothing if nothing was
kept before. -/
def Remembers (refresh : Bool) (previous : Option α) (value : α) (next : Option α) : Prop :=
  next = some value ∨ next = none ∧ (refresh = false → previous = none)

theorem remembers_of_keeps {keep? : α → Option α} (own : ∀ {value kept}, keep? value = some kept →
      kept = value) {refresh : Bool} {old value : α} {lookUp : Act ε α} {before after : Trail}
    (settled : Settled refresh (keep? old) lookUp before value after) :
    Remembers refresh (keep? old) value (keep? value) := by
  cases next : keep? value with
  | some kept => exact .inl (by rw [own next])
  | none =>
      refine .inr ⟨rfl, fun stays => ?_⟩
      cases previous : keep? old with
      | none => rfl
      | some kept =>
          rw [stays, previous] at settled
          obtain ⟨value_eq, _⟩ := settled
          rw [value_eq, own previous, previous] at next
          cases next

theorem own_of_lockedImage? {value kept : String × OsRelease}
    (locked : lockedImage? value.1 value.2 = some kept) : kept = value := by
  unfold lockedImage? at locked
  split at locked
  next => cases locked
  next => exact (Option.some.inj locked).symm

theorem lockImage_eq (world : World) (refresh : Bool) (locked : String × OsRelease)
    (image : String) :
    world.lockImage refresh locked image =
      settle refresh (lockedImage? locked.1 locked.2) (lockImage world.backend image) := by
  unfold World.lockImage lockedImage?
  cases locked.1.isEmpty <;> cases refresh <;> rfl

namespace Rerun

theorem replays_settle {refresh : Bool} {previous next : Option α} {lookUp lookUp' : Act ε α}
    {before after : Trail} {value : α} (replays : r.Replays lookUp lookUp')
    (settled : Settled refresh previous lookUp before value after)
    (passes : r.Passes after.indexes) (remembers : Remembers refresh previous value next) :
    r.Passes before.indexes ∧ r.Answers (settle refresh next lookUp') (.ok value) := by
  have keeps : r.Answers (settle false (some value) lookUp') (.ok value) :=
    answers_of_answers (answers_pure value)
  cases refresh with
  | true =>
      obtain ⟨passed, again⟩ := replays _ _ _ (settled_refresh.mp settled) passes
      rw [settle_true]
      exact ⟨passed, again⟩
  | false =>
      cases previous with
      | some old =>
          obtain ⟨rfl, rfl⟩ := settled
          rcases remembers with rfl | ⟨_, absurd⟩
          · exact ⟨passes, keeps⟩
          · cases absurd rfl
      | none =>
          obtain ⟨passed, again⟩ := replays _ _ _ (settled_none.mp settled) passes
          rcases remembers with rfl | ⟨rfl, _⟩
          · exact ⟨passed, keeps⟩
          · exact ⟨passed, again⟩

theorem replays_image {refresh : Bool} (old : String × OsRelease) {value : String × OsRelease}
    {image : String} {before after : Trail}
    (settled : Settled refresh (lockedImage? old.1 old.2) (lockImage r.first.backend image)
      before value after) (passes : r.Passes after.indexes) :
    r.Passes before.indexes ∧ r.Answers (r.second.lockImage refresh value image) (.ok value) := by
  rw [lockImage_eq]
  exact replays_settle (replays_lockImage image) settled passes
    (remembers_of_keeps own_of_lockedImage? settled)

/-! Stages. -/

/-- Stages that are locked one after the other are so again, if each of them is. -/
theorem replays_inTurn {locked : String → Trail → S → Trail → Prop}
    (program : List String → Act ε (List (String × S))) {one : String → Act ε S}
    (nothing : program [] = pure [])
    (some : ∀ name names, program (name :: names) = do
      let stage ← one name
      return (name, stage) :: (← program names))
    {entries : List (String × S)} {first last : Trail}
    (turns : LockedInTurn locked entries first last) (passes : r.Passes last.indexes)
    (each : ∀ name stage before after, (name, stage) ∈ entries →
      locked name before stage after → r.Passes after.indexes →
      r.Passes before.indexes ∧ r.Answers (one name) (.ok stage)) :
    r.Passes first.indexes ∧ r.Answers (program (entries.map (·.1))) (.ok entries) := by
  induction turns with
  | done trail =>
      rw [List.map_nil, nothing]
      exact ⟨passes, answers_of_answers (answers_pure _)⟩
  | next head _ ih =>
      obtain ⟨passed, later⟩ := ih passes fun name stage before after member =>
        each name stage before after (List.mem_cons_of_mem _ member)
      obtain ⟨passed, own⟩ := each _ _ _ _ List.mem_cons_self head passed
      refine ⟨passed, ?_⟩
      rw [List.map_cons, some]
      refine answers_bind own (answers_bind later ?_)
      exact answers_of_answers (answers_pure _)

end Rerun

namespace Php

theorem replays_stage {php : Definition} {required : VersionMap} {image : String} {os : OsRelease}
    {name : String} {before after : Trail} {stage : StageLocks} {locks : Locks}
    (settled : StageSettled r.first refresh php required image os name before stage after)
    (passes : r.Passes after.indexes) (found : locks.stages.find? name = some stage) :
    r.Passes before.indexes ∧
      r.Answers (do
        let resolved ← Act.ofExcept (php.resolveStage name required os.family)
        lockStage r.second refresh image os (locks.stages.find? name) resolved) (.ok stage) := by
  obtain ⟨resolved, middle, known, packages, extensions⟩ := settled
  obtain ⟨passed, extensions⟩ := Rerun.replays_settle
    (Rerun.replays_mapError _ (Rerun.replays_lockExtensions _))
    (settled_mapError.mpr extensions) passes (.inl rfl)
  obtain ⟨passed, packages⟩ := Rerun.replays_settle
    (Rerun.replays_mapError _ (Rerun.replays_resolvePackages _ _ _))
    (settled_mapError.mpr packages) passed (.inl rfl)
  refine ⟨passed, Rerun.answers_bind (Rerun.answers_of_answers (answers_ofExcept known)) ?_⟩
  rw [lockStage_eq, found]
  refine Rerun.answers_bind packages (Rerun.answers_bind extensions ?_)
  exact Rerun.answers_of_answers (answers_pure _)

/-- What is locked before the requirements of a project are read, and after it,
is locked the same again. -/
theorem Relocked.replays {php : Definition} {locks : Locks} {first last : Trail}
    (relocked : Relocked r.first request refresh php first locks last)
    (passes : r.Passes last.indexes) :
    r.Passes first.indexes ∧
    r.Answers (r.second.lockImage refresh.image (locks.image, locks.os) php.baseImage)
      (.ok (locks.image, locks.os)) ∧
    r.Answers (r.second.lockSource php.source) (.ok locks.source) ∧
    ∃ required,
      Act.Answers (platformRequirements r.first.backend (locks.source.getD request.context))
        (.ok required) ∧
      r.Answers (lockStages r.second refresh { php with locks } locks.image locks.os required
        php.stages.keys) (.ok locks.stages.entries) := by
  obtain ⟨stages, required, pinned, sourced, read, imaged, moved, asked, turns⟩ := relocked
  obtain ⟨answer, reads⟩ :=
    answers_platformRequirements r.first.backend (locks.source.getD request.context)
  have unread := (reads sourced).2
  rw [asked] at unread
  have known := answer_of_ok reads asked
  subst known
  obtain ⟨passed, staged⟩ := Rerun.replays_inTurn
    (lockStages r.second refresh { php with locks } locks.image locks.os required)
    rfl (fun name names => by simp [lockStages]; rfl) turns passes
    fun name stage before after member settled passes =>
      replays_stage settled passes (Names.find?_of_mem member)
  -- From the stages back to the image, through what was read in between.
  rw [unread] at passed
  obtain ⟨passed, source⟩ := Rerun.replays_lockSource php.source _ _ _ moved passed
  obtain ⟨passed, image⟩ := Rerun.replays_image (php.locks.image, php.locks.os) imaged passed
  refine ⟨passed, image, source, required, reads, ?_⟩
  rw [← stages]
  exact staged

end Php

/-! Node.js. -/

namespace NodeJs

theorem replays_stage {nodeJs : Definition} {image : String} {os : OsRelease} {name : String}
    {before after : Trail} {stage : StageLocks} {locks : Locks}
    (settled : StageSettled r.first refresh nodeJs image os name before stage after)
    (passes : r.Passes after.indexes) (found : locks.stages.find? name = some stage) :
    r.Passes before.indexes ∧
      r.Answers (do
        let resolved ← Act.ofExcept (nodeJs.resolveStage name)
        lockStage r.second refresh image os (locks.stages.find? name) resolved) (.ok stage) := by
  obtain ⟨resolved, known, packages⟩ := settled
  obtain ⟨passed, packages⟩ := Rerun.replays_settle
    (Rerun.replays_mapError _ (Rerun.replays_resolvePackages _ _ _))
    (settled_mapError.mpr packages) passes (.inl rfl)
  refine ⟨passed, Rerun.answers_bind (Rerun.answers_of_answers (answers_ofExcept known)) ?_⟩
  rw [lockStage_eq, found]
  exact Rerun.answers_bind packages (Rerun.answers_of_answers (answers_pure _))

end NodeJs

/-! Webservers. -/

namespace Webserver

end Webserver
end ImageLock
