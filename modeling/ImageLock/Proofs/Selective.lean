/-
What an update of locks does, part by part.

Each part of the locks stays as it was or is looked up again: the image, and the
packages and the extensions of each stage. The rule is one for all parts and
kinds. What stays is not asked for.
-/
import ImageLock.Kind
import ImageLock.Proofs.Act
import ImageLock.Proofs.Names

namespace ImageLock

variable {ε ε' α S : Type}

/-! One part. -/

/-- How a part comes to be locked, between two trails. What was locked before
stays and leaves the trail alone, unless it is to be looked up again. -/
def Settled (refresh : Bool) (previous : Option α) (lookUp : Act ε α)
    (before : Trail) (value : α) (after : Trail) : Prop :=
  match refresh, previous with
  | false, some old => value = old ∧ after = before
  | _, _ => lookUp.after before = (.ok value, after)

/-- Keeps a part, or looks it up. -/
def settle (refresh : Bool) (previous : Option α) (lookUp : Act ε α) : Act ε α :=
  match refresh, previous with
  | false, some old => pure old
  | _, _ => lookUp

theorem settle_ok {refresh : Bool} {previous : Option α} {lookUp : Act ε α}
    {before after : Trail} {value : α} :
    (settle refresh previous lookUp).after before = (.ok value, after) ↔
      Settled refresh previous lookUp before value after := by
  unfold settle Settled
  split
  · exact Act.pure_ok
  · rfl

theorem settled_refresh {previous : Option α} {lookUp : Act ε α} {before after : Trail}
    {value : α} :
    Settled true previous lookUp before value after ↔
      lookUp.after before = (.ok value, after) := by
  cases previous <;> rfl

theorem settled_none {refresh : Bool} {lookUp : Act ε α} {before after : Trail} {value : α} :
    Settled refresh none lookUp before value after ↔
      lookUp.after before = (.ok value, after) := by
  cases refresh <;> rfl

/-- What went wrong is told in other words, and what went right is the same. -/
theorem settled_mapError {change : ε → ε'} {refresh : Bool} {previous : Option α}
    {lookUp : Act ε α} {before after : Trail} {value : α} :
    Settled refresh previous (lookUp.mapError change) before value after ↔
      Settled refresh previous lookUp before value after := by
  unfold Settled
  split
  · rfl
  · exact Act.mapError_ok

/-- The image that locks name, if they name one. -/
def lockedImage? (image : String) (os : OsRelease) : Option (String × OsRelease) :=
  if image.isEmpty then none else some (image, os)

theorem lockImage_ok {world : World} {refresh : Bool} {locked value : String × OsRelease}
    {image : String} {first last : Trail} :
    (world.lockImage refresh locked image).after first = (.ok value, last) ↔
      Settled refresh (lockedImage? locked.1 locked.2) (lockImage world.backend image)
        first value last := by
  unfold World.lockImage lockedImage?
  by_cases absent : locked.1.isEmpty
  · simp [absent, settled_none]
  · cases refresh with
    | true => simp [settled_refresh]
    | false => simp [absent, Act.pure_ok, Settled]

/-! Stages, one after the other. -/

/-- Stages that are locked in their order, each from the trail that the one
before it leaves. -/
inductive LockedInTurn (locked : String → Trail → S → Trail → Prop) :
    List (String × S) → Trail → Trail → Prop
  | done (trail : Trail) : LockedInTurn locked [] trail trail
  | next {name : String} {stage : S} {rest : List (String × S)} {first middle last : Trail} :
      locked name first stage middle → LockedInTurn locked rest middle last →
      LockedInTurn locked ((name, stage) :: rest) first last

/-- Every stage is locked from some trail. -/
theorem LockedInTurn.of_mem {locked : String → Trail → S → Trail → Prop}
    {entries : List (String × S)} {first last : Trail}
    (turns : LockedInTurn locked entries first last) {name : String} {stage : S}
    (member : (name, stage) ∈ entries) : ∃ before after, locked name before stage after := by
  induction turns with
  | done trail => cases member
  | next head _ ih =>
      rcases List.mem_cons.mp member with same | later
      · cases same
        exact ⟨_, _, head⟩
      · exact ih later

/-- A program that locks one stage after the other. -/
theorem lockedInTurn_iff {locked : String → Trail → S → Trail → Prop}
    {program : List String → Act ε (List (String × S))} (one : String → Act ε S)
    (nothing : program [] = pure [])
    (some : ∀ name names, program (name :: names) = do
      let stage ← one name
      return (name, stage) :: (← program names))
    (step : ∀ name stage first last,
      (one name).after first = (.ok stage, last) ↔ locked name first stage last)
    (names : List String) {entries : List (String × S)} {first last : Trail} :
    (program names).after first = (.ok entries, last) ↔
      entries.map (·.1) = names ∧ LockedInTurn locked entries first last := by
  -- Each stage goes on from the trail that the one before it left.
  induction names generalizing entries first with
  | nil =>
      rw [nothing, Act.pure_ok]
      constructor
      · rintro ⟨rfl, rfl⟩
        exact ⟨rfl, .done _⟩
      · rintro ⟨empty, turns⟩
        cases turns with
        | done => exact ⟨rfl, rfl⟩
        | next => cases empty
  | cons name names ih =>
      rw [some, Act.bind_ok]
      constructor
      · rintro ⟨stage, middle, head, rest⟩
        obtain ⟨later, end', tail, answer⟩ := Act.bind_ok.mp rest
        obtain ⟨rfl, rfl⟩ := Act.pure_ok.mp answer
        obtain ⟨keys, turns⟩ := ih.mp tail
        exact ⟨by simp [keys], .next ((step name stage first middle).mp head) turns⟩
      · rintro ⟨keys, turns⟩
        cases turns with
        | done => cases keys
        | next head tail =>
            obtain ⟨rfl, rfl⟩ := List.cons.inj keys
            have later := ih.mpr ⟨rfl, tail⟩
            exact ⟨_, _, (step _ _ _ _).mpr head,
              Act.bind_ok.mpr ⟨_, _, later, Act.pure_ok.mpr ⟨rfl, rfl⟩⟩⟩

/-- The stages of new locks are the ones that were locked. -/
theorem ofList_of_keys {entries : List (String × S)} {m : Names α}
    (keys : entries.map (·.1) = m.keys) : (Names.ofList entries).entries = entries := by
  refine Names.entries_ofList (List.pairwise_map.mp ?_)
  rw [keys]
  exact List.pairwise_map.mpr m.sorted

namespace Php

/-- What an update locks for a stage: its packages, and then its extensions. -/
def StageSettled (world : World) (refresh : Refresh) (d : Definition) (required : VersionMap)
    (image : String) (os : OsRelease) (name : String) (before : Trail) (stage : StageLocks)
    (after : Trail) : Prop :=
  ∃ resolved middle,
    d.resolveStage name required os.family = .ok resolved ∧
    Settled refresh.packages ((d.locks.stages.find? name).map (·.systemPackages))
      (world.resolvePackages image os resolved.stage.systemPackages)
      before stage.systemPackages middle ∧
    Settled refresh.extensions ((d.locks.stages.find? name).map (·.extensions))
      (world.lockExtensions resolved.stage.extensions) middle stage.extensions after

theorem lockStage_eq (world : World) (refresh : Refresh) (image : String) (os : OsRelease)
    (previous : Option StageLocks) (resolved : Resolved) :
    lockStage world refresh image os previous resolved = do
      let systemPackages ← settle refresh.packages (previous.map (·.systemPackages))
        (Error.ofPackages (world.resolvePackages image os resolved.stage.systemPackages))
      let extensions ← settle refresh.extensions (previous.map (·.extensions))
        (Error.ofExtensions (world.lockExtensions resolved.stage.extensions))
      return ⟨systemPackages, extensions⟩ := by
  obtain ⟨_, packages, extensions⟩ := refresh
  cases previous <;> cases packages <;> cases extensions <;> rfl

theorem lockStage_ok {world : World} {refresh : Refresh} {image : String} {os : OsRelease}
    {previous : Option StageLocks} {resolved : Resolved} {stage : StageLocks}
    {first last : Trail} :
    (lockStage world refresh image os previous resolved).after first = (.ok stage, last) ↔
      ∃ middle,
        Settled refresh.packages (previous.map (·.systemPackages))
          (world.resolvePackages image os resolved.stage.systemPackages)
          first stage.systemPackages middle ∧
        Settled refresh.extensions (previous.map (·.extensions))
          (world.lockExtensions resolved.stage.extensions) middle stage.extensions last := by
  rw [lockStage_eq]
  simp only [Act.bind_ok, Act.pure_ok, settle_ok, Error.ofPackages, Error.ofExtensions,
    settled_mapError]
  constructor
  · rintro ⟨packages, middle, first, extensions, last, second, rfl, rfl⟩
    exact ⟨middle, first, second⟩
  · rintro ⟨middle, first, second⟩
    exact ⟨_, middle, first, _, last, second, rfl, rfl⟩

theorem lockStages_ok {world : World} {refresh : Refresh} {d : Definition} {image : String}
    {os : OsRelease} {required : VersionMap} {names : List String}
    {entries : List (String × StageLocks)} {first last : Trail} :
    (lockStages world refresh d image os required names).after first = (.ok entries, last) ↔
      entries.map (·.1) = names ∧
        LockedInTurn (StageSettled world refresh d required image os) entries first last := by
  refine lockedInTurn_iff (fun name => do
    let resolved ← Act.ofExcept (d.resolveStage name required os.family)
    lockStage world refresh image os (d.locks.stages.find? name) resolved) rfl ?_ ?_ names
  · intro name names
    simp [lockStages]
  · intro name stage first last
    simp only [Act.bind_ok, Act.ofExcept_ok, lockStage_ok, StageSettled]
    constructor
    · rintro ⟨resolved, _, ⟨known, rfl⟩, middle, packages, extensions⟩
      exact ⟨resolved, middle, known, packages, extensions⟩
    · rintro ⟨resolved, middle, known, packages, extensions⟩
      exact ⟨resolved, _, ⟨known, rfl⟩, middle, packages, extensions⟩

/-- A successful update of the locks of a definition. -/
structure Relocked (world : World) (request : Request) (refresh : Refresh) (d : Definition)
    (first : Trail) (locks : Locks) (last : Trail) : Prop where
  stages : locks.stages.keys = d.stages.keys
  settled : ∃ required pinned sourced read,
    Settled refresh.image (lockedImage? d.locks.image d.locks.os)
      (lockImage world.backend d.baseImage) first (locks.image, locks.os) pinned ∧
    (world.lockSource d.source).after pinned = (.ok locks.source, sourced) ∧
    (platformRequirements world.backend (locks.source.getD request.context)).after sourced =
      (.ok required, read) ∧
    LockedInTurn (StageSettled world refresh d required locks.image locks.os)
      locks.stages.entries read last

theorem lockDefinition_ok {world : World} {request : Request} {refresh : Refresh}
    {definition : ImageLock.Definition} {locks : Locks} {first last : Trail} :
    (lockDefinition world request refresh definition).after first = (.ok locks, last) ↔
      ∃ d, Definition.ofDefinition definition = .ok d ∧
        Relocked world request refresh d first locks last := by
  unfold lockDefinition requirements Error.ofAccess
  simp only [Act.bind_ok, Act.ofExcept_ok, Act.mapError_ok, Act.pure_ok, lockImage_ok,
    lockStages_ok]
  constructor
  · rintro ⟨d, _, ⟨known, rfl⟩, ⟨image, os⟩, pinned, imaged, source, sourced, moved, required,
      read, asked, entries, last, ⟨keys, turns⟩, rfl, rfl⟩
    -- The stages are stored in the order in which they were locked.
    have stored := ofList_of_keys keys
    refine ⟨d, known, ?_, required, pinned, sourced, read, imaged, moved, asked, ?_⟩
    · simpa [Names.keys, stored] using keys
    · simpa [stored] using turns
  · rintro ⟨d, known, stages, required, pinned, sourced, read, imaged, moved, asked, turns⟩
    exact ⟨d, _, ⟨known, rfl⟩, (locks.image, locks.os), pinned, imaged, locks.source, sourced,
      moved, required, read, asked, locks.stages.entries, last, ⟨stages, turns⟩,
      by rw [Names.ofList_entries], rfl⟩

end Php

namespace NodeJs

/-- What an update locks for a stage. -/
def StageSettled (world : World) (refresh : Refresh) (d : Definition) (image : String)
    (os : OsRelease) (name : String) (before : Trail) (stage : StageLocks) (after : Trail) :
    Prop :=
  ∃ resolved,
    d.resolveStage name = .ok resolved ∧
    Settled refresh.packages ((d.locks.stages.find? name).map (·.systemPackages))
      (world.resolvePackages image os resolved.stage.systemPackages)
      before stage.systemPackages after

theorem lockStage_eq (world : World) (refresh : Refresh) (image : String) (os : OsRelease)
    (previous : Option StageLocks) (resolved : Resolved) :
    lockStage world refresh image os previous resolved = do
      let systemPackages ← settle refresh.packages (previous.map (·.systemPackages))
        (Error.ofPackages (world.resolvePackages image os resolved.stage.systemPackages))
      return ⟨systemPackages⟩ := by
  obtain ⟨_, packages, _⟩ := refresh
  cases previous <;> cases packages <;> rfl

theorem lockStage_ok {world : World} {refresh : Refresh} {image : String} {os : OsRelease}
    {previous : Option StageLocks} {resolved : Resolved} {stage : StageLocks}
    {first last : Trail} :
    (lockStage world refresh image os previous resolved).after first = (.ok stage, last) ↔
      Settled refresh.packages (previous.map (·.systemPackages))
        (world.resolvePackages image os resolved.stage.systemPackages)
        first stage.systemPackages last := by
  rw [lockStage_eq]
  simp only [Act.bind_ok, Act.pure_ok, settle_ok, Error.ofPackages, settled_mapError]
  constructor
  · rintro ⟨packages, middle, settled, rfl, rfl⟩
    exact settled
  · intro settled
    exact ⟨_, last, settled, rfl, rfl⟩

theorem lockStages_ok {world : World} {refresh : Refresh} {d : Definition} {image : String}
    {os : OsRelease} {names : List String} {entries : List (String × StageLocks)}
    {first last : Trail} :
    (lockStages world refresh d image os names).after first = (.ok entries, last) ↔
      entries.map (·.1) = names ∧
        LockedInTurn (StageSettled world refresh d image os) entries first last := by
  refine lockedInTurn_iff (fun name => do
    let resolved ← Act.ofExcept (d.resolveStage name)
    lockStage world refresh image os (d.locks.stages.find? name) resolved) rfl ?_ ?_ names
  · intro name names
    simp [lockStages]
  · intro name stage first last
    simp only [Act.bind_ok, Act.ofExcept_ok, lockStage_ok, StageSettled]
    constructor
    · rintro ⟨resolved, _, ⟨known, rfl⟩, packages⟩
      exact ⟨resolved, known, packages⟩
    · rintro ⟨resolved, known, packages⟩
      exact ⟨resolved, _, ⟨known, rfl⟩, packages⟩

/-- A successful update of the locks of a definition. -/
structure Relocked (world : World) (refresh : Refresh) (d : Definition) (first : Trail)
    (locks : Locks) (last : Trail) : Prop where
  stages : locks.stages.keys = d.stages.keys
  settled : ∃ pinned sourced,
    Settled refresh.image (lockedImage? d.locks.image d.locks.os)
      (lockImage world.backend d.baseImage) first (locks.image, locks.os) pinned ∧
    (world.lockSource d.source).after pinned = (.ok locks.source, sourced) ∧
    LockedInTurn (StageSettled world refresh d locks.image locks.os)
      locks.stages.entries sourced last

theorem lockDefinition_ok {world : World} {refresh : Refresh}
    {definition : ImageLock.Definition} {locks : Locks} {first last : Trail} :
    (lockDefinition world refresh definition).after first = (.ok locks, last) ↔
      ∃ d, Definition.ofDefinition definition = .ok d ∧
        Relocked world refresh d first locks last := by
  unfold lockDefinition Error.ofAccess
  simp only [Act.bind_ok, Act.ofExcept_ok, Act.mapError_ok, Act.pure_ok, lockImage_ok,
    lockStages_ok]
  constructor
  · rintro ⟨d, _, ⟨known, rfl⟩, ⟨image, os⟩, pinned, imaged, source, sourced, moved, entries,
      last, ⟨keys, turns⟩, rfl, rfl⟩
    have stored := ofList_of_keys keys
    refine ⟨d, known, ?_, pinned, sourced, imaged, moved, ?_⟩
    · simpa [Names.keys, stored] using keys
    · simpa [stored] using turns
  · rintro ⟨d, known, stages, pinned, sourced, imaged, moved, turns⟩
    exact ⟨d, _, ⟨known, rfl⟩, (locks.image, locks.os), pinned, imaged, locks.source, sourced,
      moved, locks.stages.entries, last, ⟨stages, turns⟩, by rw [Names.ofList_entries], rfl⟩

end NodeJs

namespace Webserver

/-- The packages that locks hold, if there are any. -/
def lockedPackages? (packages : VersionMap) : Option VersionMap :=
  if packages.isEmpty then none else some packages

/-- A successful update of the locks of a webserver. -/
def Relocked (world : World) (refresh : Refresh) (d : Definition) (previous : Locks)
    (first : Trail) (locks : Locks) (last : Trail) : Prop :=
  ∃ pinned,
    Settled refresh.image (lockedImage? previous.image previous.os)
      (lockImage world.backend d.server.image) first (locks.image, locks.os) pinned ∧
    Settled refresh.packages (lockedPackages? previous.systemPackages)
      (world.resolvePackages locks.image locks.os d.systemPackages)
      pinned locks.systemPackages last

theorem lockPackages_ok {world : World} {refresh : Refresh} {image : String} {os : OsRelease}
    {previous wanted value : VersionMap} {first last : Trail} :
    (lockPackages world refresh image os previous wanted).after first = (.ok value, last) ↔
      Settled refresh.packages (lockedPackages? previous)
        (world.resolvePackages image os wanted) first value last := by
  unfold lockPackages lockedPackages?
  by_cases absent : previous.isEmpty
  · simp [absent, settled_none, Act.mapError_ok]
  · cases refresh.packages with
    | true => simp [settled_refresh, Act.mapError_ok]
    | false => simp [absent, Act.pure_ok, Settled]

theorem lockDefinition_ok {world : World} {refresh : Refresh}
    {definition : ImageLock.Definition} {locks : Locks} {first last : Trail} :
    (lockDefinition world refresh definition).after first = (.ok locks, last) ↔
      ∃ d previous, Definition.ofDefinition definition = .ok (d, previous) ∧
        Relocked world refresh d previous first locks last := by
  unfold lockDefinition
  simp only [Act.bind_ok, Act.ofExcept_ok, Act.mapError_ok, Act.pure_ok, lockImage_ok,
    lockPackages_ok]
  constructor
  · rintro ⟨⟨d, previous⟩, _, ⟨known, rfl⟩, ⟨image, os⟩, pinned, imaged, packages, last, settled,
      rfl, rfl⟩
    exact ⟨d, previous, known, pinned, imaged, settled⟩
  · rintro ⟨d, previous, known, pinned, imaged, settled⟩
    exact ⟨(d, previous), _, ⟨known, rfl⟩, (locks.image, locks.os), pinned, imaged, _, last,
      settled, rfl, rfl⟩

end Webserver

/-! The three kinds. -/

/-- The locks that an update of any kind can end with, and the trail that it
leaves, are those that come from the flags and the previous locks part by part. -/
theorem lockDefinition_selective (world : World) (request : Request) (refresh : Refresh)
    (definition : Definition) (first last : Trail) :
    (∀ locks,
      (Php.lockDefinition world request refresh definition).after first = (.ok locks, last) ↔
        ∃ d, Php.Definition.ofDefinition definition = .ok d ∧
          Php.Relocked world request refresh d first locks last) ∧
    (∀ locks,
      (NodeJs.lockDefinition world refresh definition).after first = (.ok locks, last) ↔
        ∃ d, NodeJs.Definition.ofDefinition definition = .ok d ∧
          NodeJs.Relocked world refresh d first locks last) ∧
    (∀ locks,
      (Webserver.lockDefinition world refresh definition).after first = (.ok locks, last) ↔
        ∃ d previous, Webserver.Definition.ofDefinition definition = .ok (d, previous) ∧
          Webserver.Relocked world refresh d previous first locks last) := by
  refine ⟨?php, ?nodeJs, ?webserver⟩
  case php => exact fun _ => Php.lockDefinition_ok
  case nodeJs => exact fun _ => NodeJs.lockDefinition_ok
  case webserver => exact fun _ => Webserver.lockDefinition_ok

end ImageLock
