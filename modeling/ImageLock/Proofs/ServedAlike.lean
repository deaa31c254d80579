/-
Locking from stores that serve the same index.

What is locked first may load the index of a depot, and what is locked next finds
it loaded. That is the index which it would have come to on its own, so neither of
the two can tell whether the other one ran.
-/
import ImageLock.Command.Run
import ImageLock.Proofs.FullRefresh
import ImageLock.Proofs.Rerun

namespace ImageLock

open Act

variable {ε ε' α β : Type}

/-! Stores. -/

/-- Packages of indexes all come from one depot. -/
def PackageSources.OneDepot (sources : PackageSources) : Prop :=
  ∀ manager manager' d d', sources.find? manager = some (.depot d) →
    sources.find? manager' = some (.depot d') → d = d'

theorem PackageSources.oneDepot_tools : tools.OneDepot := by
  intro manager _ d _ found
  cases manager <;> cases found

theorem PackageSources.oneDepot_withDepot (depot : Depot) :
    (tools.withDepot depot).OneDepot := by
  intro manager manager' d d' found found'
  cases manager <;> cases manager' <;> cases found
  · cases found'
    rfl
  · cases found'

/-- A command looks packages up in one depot, whatever repositories it is given. -/
theorem Command.oneDepot_packageSources (s : Surroundings) (repositories : List Repository)
    (ttl : Duration) (arch : Option Arch) :
    (packageSources s repositories ttl arch).OneDepot := by
  unfold packageSources
  split
  · exact PackageSources.oneDepot_tools
  · exact PackageSources.oneDepot_withDepot _

namespace Depot

variable {d : Depot} {isCancelled : Bool} {index index' : Names String}

theorem serves_of_index {first last : Trail}
    (run : (d.index isCancelled).after first = (.ok index, last)) :
    d.Serves isCancelled first.indexes index := by
  intro trail stored
  obtain ⟨last', again, _⟩ := (agree_index d isCancelled).ok stored.symm run
  exact ⟨last', again⟩

theorem Serves.unique {store : IndexStore} (one : d.Serves isCancelled store index)
    (other : d.Serves isCancelled store index') : index = index' := by
  obtain ⟨_, run⟩ := one (Trail.start store) rfl
  obtain ⟨_, run'⟩ := other (Trail.start store) rfl
  exact Except.ok.inj (Prod.mk.inj (run.symm.trans run')).1

end Depot

namespace World

variable {w : World}

/-- Two stores from which each depot of a world comes to the same index. -/
def ServeAlike (w : World) (store store' : IndexStore) : Prop :=
  ∀ manager d, w.packages.find? manager = some (.depot d) →
    ∀ index, d.Serves w.isCancelled store index ↔ d.Serves w.isCancelled store' index

theorem ServeAlike.refl (store : IndexStore) : w.ServeAlike store store :=
  fun _ _ _ _ => Iff.rfl

theorem ServeAlike.symm {store store' : IndexStore} (alike : w.ServeAlike store store') :
    w.ServeAlike store' store :=
  fun manager d found index => (alike manager d found index).symm

theorem ServeAlike.trans {store between store' : IndexStore}
    (early : w.ServeAlike store between) (late : w.ServeAlike between store') :
    w.ServeAlike store store' :=
  fun manager d found index => (early manager d found index).trans (late manager d found index)

/-- An index that was loaded is the one that was served before. -/
theorem serveAlike_of_index (one : w.packages.OneDepot) {manager : PackageManager} {d : Depot}
    (found : w.packages.find? manager = some (.depot d)) {index : Names String}
    {first last : Trail} (run : (d.index w.isCancelled).after first = (.ok index, last)) :
    w.ServeAlike first.indexes last.indexes := by
  intro manager' d' found' index'
  rw [← one manager manager' d d' found found']
  have before := Depot.serves_of_index run
  have after : d.Serves w.isCancelled last.indexes index :=
    Depot.serves_loaded (Depot.loaded_of_index run)
  constructor
  · intro served
    rwa [served.unique before]
  · intro served
    rwa [served.unique after]

/-- A program and its counterpart: what the first one answers with, the other one
answers with from every store that serves alike. Both leave what is served. -/
def Matches (w : World) (act act' : Act ε α) : Prop :=
  ∀ first first' value last, w.ServeAlike first.indexes first'.indexes →
    act.after first = (.ok value, last) → w.ServeAlike first.indexes last.indexes ∧
      ∃ last', act'.after first' = (.ok value, last') ∧
        w.ServeAlike last.indexes last'.indexes

/-! One rule for each way to build a program. -/

theorem matches_of_reads {act act' : Act ε α} (reads : Reads act) (agree : Agree act act') :
    w.Matches act act' := by
  obtain ⟨answer, known⟩ := reads
  intro first first' value last alike run
  have unchanged := (known first).2
  rw [run] at unchanged
  obtain ⟨answered, unchanged'⟩ := agree.answers known first'
  rw [answer_of_ok known run] at answered
  rw [unchanged]
  exact ⟨.refl _, _, Prod.ext answered rfl, by rwa [unchanged']⟩

theorem matches_pure (value : α) : w.Matches (pure value : Act ε α) (pure value) :=
  matches_of_reads (reads_pure value) (agree_pure value)

theorem matches_ofExcept {result result' : Except ε α}
    (same : ∀ value, result = .ok value → result' = .ok value) :
    w.Matches (Act.ofExcept result) (Act.ofExcept result') := by
  intro first first' value last alike run
  obtain ⟨known, rfl⟩ := ofExcept_ok.mp run
  exact ⟨.refl _, first', ofExcept_ok.mpr ⟨same value known, rfl⟩, alike⟩

theorem matches_mapError {act act' : Act ε α} (change : ε → ε') (first : w.Matches act act') :
    w.Matches (mapError change act) (mapError change act') := by
  intro before before' value after alike run
  obtain ⟨kept, after', run', alike'⟩ := first _ _ _ _ alike (mapError_ok.mp run)
  exact ⟨kept, after', mapError_ok.mpr run', alike'⟩

/-- What is done next has to match on values that the first program can answer with. -/
theorem matches_bind_ok {act act' : Act ε α} {next next' : α → Act ε β}
    (first : w.Matches act act')
    (rest : ∀ value before after, act.after before = (.ok value, after) →
      w.Matches (next value) (next' value)) :
    w.Matches (act >>= next) (act' >>= next') := by
  intro before before' result last alike run
  obtain ⟨value, middle, step, run⟩ := bind_ok.mp run
  obtain ⟨kept, middle', step', alike⟩ := first _ _ _ _ alike step
  obtain ⟨later, last', run', alike⟩ := rest value _ _ step _ _ _ _ alike run
  exact ⟨kept.trans later, last', bind_ok.mpr ⟨value, middle', step', run'⟩, alike⟩

theorem matches_bind {act act' : Act ε α} {next next' : α → Act ε β}
    (first : w.Matches act act') (rest : ∀ value, w.Matches (next value) (next' value)) :
    w.Matches (act >>= next) (act' >>= next') :=
  matches_bind_ok first fun value _ _ _ => rest value

theorem matches_settle {refresh : Bool} {previous : Option α} {lookUp lookUp' : Act ε α}
    (looked : w.Matches lookUp lookUp') :
    w.Matches (settle refresh previous lookUp) (settle refresh previous lookUp') := by
  unfold settle
  split
  · exact matches_pure _
  · exact looked

/-! Packages and extensions, images and sources. -/

theorem matches_index (one : w.packages.OneDepot) {manager : PackageManager} {d : Depot}
    (found : w.packages.find? manager = some (.depot d)) :
    w.Matches (d.index w.isCancelled) (d.index w.isCancelled) := by
  intro first first' index last alike run
  have kept := serveAlike_of_index one found run
  obtain ⟨last', run'⟩ :=
    (alike manager d found index).mp (Depot.serves_of_index run) first' rfl
  exact ⟨kept, last', run', kept.symm.trans (alike.trans (serveAlike_of_index one found run'))⟩

theorem matches_resolve (one : w.packages.OneDepot) {manager : PackageManager} {d : Depot}
    (found : w.packages.find? manager = some (.depot d)) (packages : VersionMap) :
    w.Matches (d.resolve w.isCancelled packages) (d.resolve w.isCancelled packages) := by
  unfold Depot.resolve
  simp only
  split
  · exact matches_pure _
  · refine matches_bind (matches_index one found) fun index => ?_
    exact matches_bind (matches_ofExcept fun _ => id) fun _ => matches_pure _

end World

namespace SameAnswers

variable {a b : World}

theorem symm (same : SameAnswers a b) : SameAnswers b a where
  isCancelled := same.isCancelled.symm
  packages := same.packages.symm
  extensions := same.extensions.symm
  run image commands := (same.run image commands).symm
  pin image := (same.pin image).symm
  images path image := (same.images path image).symm
  repositories path context isGit := (same.repositories path context isGit).symm

theorem serveAlike_iff (same : SameAnswers a b) {store store' : IndexStore} :
    a.ServeAlike store store' ↔ b.ServeAlike store store' := by
  rw [World.ServeAlike, same.packages, same.isCancelled, ← World.ServeAlike]

theorem matches_resolvePackages (same : SameAnswers a b) (one : a.packages.OneDepot)
    (image : String) (os : OsRelease) (packages : VersionMap) :
    a.Matches (a.resolvePackages image os packages) (b.resolvePackages image os packages) := by
  have agree := same.agree_resolvePackages image os packages
  intro first first' value last alike run
  obtain ⟨source, _, chosen, resolved⟩ := bind_ok.mp run
  obtain ⟨selected, rfl⟩ := ofExcept_ok.mp chosen
  -- The tools of an image only read; a depot has to serve the same index.
  cases source with
  | apt =>
      refine World.matches_of_reads ?_ agree _ _ _ _ alike run
      unfold World.resolvePackages
      rw [selected, ofExcept_ok_bind]
      exact Apt.reads_resolve _ _ _
  | apk =>
      refine World.matches_of_reads ?_ agree _ _ _ _ alike run
      unfold World.resolvePackages
      rw [selected, ofExcept_ok_bind]
      exact Apk.reads_resolve _ _ _
  | depot d =>
      obtain ⟨manager, found⟩ := PackageSources.exists_find?_of_select selected
      obtain ⟨kept, last', resolved', alike'⟩ :=
        World.matches_resolve one found packages _ _ _ _ alike resolved
      refine ⟨kept, last', ?_, alike'⟩
      unfold World.resolvePackages
      rw [← same.packages, ← same.isCancelled, selected, ofExcept_ok_bind]
      exact resolved'

theorem matches_lockExtensions (same : SameAnswers a b) (extensions : VersionMap) :
    a.Matches (a.lockExtensions extensions) (b.lockExtensions extensions) :=
  World.matches_of_reads (Extensions.reads_lock _ _ _) (same.agree_lockExtensions extensions)

theorem matches_lockImage (same : SameAnswers a b) (refresh : Bool)
    (locked : String × OsRelease) (image : String) :
    a.Matches (a.lockImage refresh locked image) (b.lockImage refresh locked image) := by
  unfold World.lockImage
  split
  · exact World.matches_of_reads (reads_lockImage _ _) (same.agree_lockImage image)
  · exact World.matches_pure _

theorem matches_lockSource (same : SameAnswers a b) (source : Option Context) :
    a.Matches (a.lockSource source) (b.lockSource source) :=
  World.matches_of_reads (a.reads_lockSource source) (same.agree_lockSource source)

/-- The requirements of a project, wherever its source was locked to. -/
theorem matches_requirements (same : SameAnswers a b) {source locked : Option Context}
    {outer : Context}
    (read : (a.backend.read Php.lockFile (.buildContext (source.getD outer))).1 =
      (b.backend.read Php.lockFile (.buildContext (source.getD outer))).1)
    {first last : Trail} (run : (a.lockSource source).after first = (.ok locked, last)) :
    a.Matches (Php.requirements a (locked.getD outer))
      (Php.requirements b (locked.getD outer)) :=
  World.matches_of_reads (reads_mapError _ (Php.answers_platformRequirements _ _))
    (same.agree_requirements read run)

end SameAnswers

/-! The three kinds. -/

variable {a b : World} {request : Request}

namespace Php

theorem matches_lockStage (same : SameAnswers a b) (one : a.packages.OneDepot)
    (refresh : Refresh) (image : String) (os : OsRelease) (previous : Option StageLocks)
    (resolved : Resolved) :
    a.Matches (lockStage a refresh image os previous resolved)
      (lockStage b refresh image os previous resolved) := by
  rw [lockStage_eq, lockStage_eq]
  refine World.matches_bind (World.matches_settle (World.matches_mapError _
    (same.matches_resolvePackages one _ _ _))) fun packages => ?_
  exact World.matches_bind (World.matches_settle (World.matches_mapError _
    (same.matches_lockExtensions _))) fun _ => World.matches_pure _

theorem matches_lockStages (same : SameAnswers a b) (one : a.packages.OneDepot)
    (refresh : Refresh) (d : Definition) (image : String) (os : OsRelease)
    (required : VersionMap) (names : List String) :
    a.Matches (lockStages a refresh d image os required names)
      (lockStages b refresh d image os required names) := by
  induction names with
  | nil => exact World.matches_pure _
  | cons name names ih =>
      refine World.matches_bind (World.matches_ofExcept fun _ => id) fun resolved => ?_
      refine World.matches_bind (matches_lockStage same one _ _ _ _ _) fun stage => ?_
      exact World.matches_bind ih fun _ => World.matches_pure _

theorem matches_lockDefinition (same : SameAnswers a b) (one : a.packages.OneDepot)
    (refresh : Refresh) {d d' : ImageLock.Definition}
    (known : ∀ php, Definition.ofDefinition d = .ok php → Definition.ofDefinition d' = .ok php)
    (requirements : Kind.SameRequirements a b request d) :
    a.Matches (lockDefinition a request refresh d) (lockDefinition b request refresh d') := by
  refine World.matches_bind_ok (World.matches_ofExcept known) fun php _ _ read => ?_
  have asked := requirements php (ofExcept_ok.mp read).1
  refine World.matches_bind (World.matches_mapError _ (same.matches_lockImage _ _ _))
    fun pinned => ?_
  refine World.matches_bind_ok (World.matches_mapError _ (same.matches_lockSource _))
    fun source _ _ locked => ?_
  refine World.matches_bind (same.matches_requirements asked (mapError_ok.mp locked))
    fun required => ?_
  exact World.matches_bind (matches_lockStages same one _ _ _ _ _ _) fun _ =>
    World.matches_pure _

end Php

namespace NodeJs

theorem matches_lockStage (same : SameAnswers a b) (one : a.packages.OneDepot)
    (refresh : Refresh) (image : String) (os : OsRelease) (previous : Option StageLocks)
    (resolved : Resolved) :
    a.Matches (lockStage a refresh image os previous resolved)
      (lockStage b refresh image os previous resolved) := by
  rw [lockStage_eq, lockStage_eq]
  exact World.matches_bind (World.matches_settle (World.matches_mapError _
    (same.matches_resolvePackages one _ _ _))) fun _ => World.matches_pure _

theorem matches_lockStages (same : SameAnswers a b) (one : a.packages.OneDepot)
    (refresh : Refresh) (d : Definition) (image : String) (os : OsRelease)
    (names : List String) :
    a.Matches (lockStages a refresh d image os names)
      (lockStages b refresh d image os names) := by
  induction names with
  | nil => exact World.matches_pure _
  | cons name names ih =>
      refine World.matches_bind (World.matches_ofExcept fun _ => id) fun resolved => ?_
      refine World.matches_bind (matches_lockStage same one _ _ _ _ _) fun stage => ?_
      exact World.matches_bind ih fun _ => World.matches_pure _

theorem matches_lockDefinition (same : SameAnswers a b) (one : a.packages.OneDepot)
    (refresh : Refresh) {d d' : ImageLock.Definition}
    (known : ∀ nodeJs, Definition.ofDefinition d = .ok nodeJs →
      Definition.ofDefinition d' = .ok nodeJs) :
    a.Matches (lockDefinition a refresh d) (lockDefinition b refresh d') := by
  refine World.matches_bind (World.matches_ofExcept known) fun nodeJs => ?_
  refine World.matches_bind (World.matches_mapError _ (same.matches_lockImage _ _ _))
    fun pinned => ?_
  refine World.matches_bind (World.matches_mapError _ (same.matches_lockSource _))
    fun source => ?_
  exact World.matches_bind (matches_lockStages same one _ _ _ _ _) fun _ =>
    World.matches_pure _

end NodeJs

theorem Webserver.matches_lockDefinition (same : SameAnswers a b) (one : a.packages.OneDepot)
    (refresh : Refresh) {d d' : ImageLock.Definition}
    (known : ∀ read, Definition.ofDefinition d = .ok read →
      Definition.ofDefinition d' = .ok read) :
    a.Matches (lockDefinition a refresh d) (lockDefinition b refresh d') := by
  refine World.matches_bind (World.matches_ofExcept known) fun read => ?_
  refine World.matches_bind (World.matches_mapError _ (same.matches_lockImage _ _ _))
    fun pinned => ?_
  refine World.matches_bind ?_ fun _ => World.matches_pure _
  unfold lockPackages
  split
  · exact World.matches_mapError _ (same.matches_resolvePackages one _ _ _)
  · exact World.matches_pure _

namespace Kind

/-- Whether a kind reads one definition with its locks as the other one. -/
def ReadsAs (kind : Kind) (d d' : Definition) : Prop :=
  match kind with
  | .php => ∀ php, Php.Definition.ofDefinition d = .ok php →
      Php.Definition.ofDefinition d' = .ok php
  | .nodeJs => ∀ nodeJs, NodeJs.Definition.ofDefinition d = .ok nodeJs →
      NodeJs.Definition.ofDefinition d' = .ok nodeJs
  | .webserver => ∀ read, Webserver.Definition.ofDefinition d = .ok read →
      Webserver.Definition.ofDefinition d' = .ok read

theorem matches_lock {kind : Kind} (same : SameAnswers a b) (one : a.packages.OneDepot)
    (refresh : Refresh) {d d' : Definition} (reads : kind.ReadsAs d d')
    (requirements : kind = .php → SameRequirements a b request d) :
    a.Matches (kind.lock a request refresh d) (kind.lock b request refresh d') := by
  cases kind with
  | php =>
      refine World.matches_bind (World.matches_mapError _ ?_) fun _ => World.matches_pure _
      exact Php.matches_lockDefinition same one refresh reads (requirements rfl)
  | nodeJs =>
      refine World.matches_bind (World.matches_mapError _ ?_) fun _ => World.matches_pure _
      exact NodeJs.matches_lockDefinition same one refresh reads
  | webserver =>
      refine World.matches_bind (World.matches_mapError _ ?_) fun _ => World.matches_pure _
      exact Webserver.matches_lockDefinition same one refresh reads

end Kind
end ImageLock
