/-
Programs that are run twice, the second time with the package indexes that the
first run left.

A program that only reads answers the same again. One that looks an index up
answers the same if it is served the index that the first run loaded, which stays
loaded to its end.
-/
import ImageLock.Proofs.Agreement
import ImageLock.Proofs.IndexFiles

namespace ImageLock

variable {ε ε' α β : Type}

open Act

theorem Apt.reads_resolve (backend : Backend) (image : String) (packages : VersionMap) :
    Reads (Apt.resolve backend image packages) := by
  unfold Apt.resolve
  simp only
  split
  · exact reads_pure _
  · refine reads_bind (reads_mapError _ (reads_ofReply _)) fun out => ?_
    exact reads_bind (reads_ofExcept _) fun _ => reads_pure _

theorem Apk.reads_resolve (backend : Backend) (image : String) (packages : VersionMap) :
    Reads (Apk.resolve backend image packages) := by
  unfold Apk.resolve
  simp only
  split
  · exact reads_pure _
  · refine reads_bind (reads_attempt (reads_ofReply _)) fun result => ?_
    refine reads_bind (reads_ofExcept _) fun out => ?_
    exact reads_bind (reads_ofExcept _) fun _ => reads_pure _

theorem Extensions.reads_lock (index : ExtensionIndex) (isCancelled : Bool)
    (extensions : VersionMap) : Reads (Extensions.lock index isCancelled extensions) := by
  have one (name constraint : String) : Reads (lockOne index isCancelled name constraint) := by
    unfold lockOne
    split
    · exact reads_pure _
    · refine reads_bind (reads_ofExcept _) fun parts => ?_
      obtain ⟨constraint, stability⟩ := parts
      dsimp only
      split
      · exact reads_pure _
      · refine reads_bind (reads_mapError _ (reads_ofReply _)) fun releases => ?_
        split
        · exact reads_fail _
        · exact reads_fail _
        · exact reads_pure _
  have all (entries : List (String × String)) : Reads (lockEntries index isCancelled entries) := by
    induction entries with
    | nil => exact reads_pure _
    | cons entry rest ih =>
        exact reads_bind (one entry.1 entry.2) fun version => reads_bind ih fun _ => reads_pure _
  exact reads_bind (all extensions.entries) fun _ => reads_pure _

theorem reads_lockImage (backend : Backend) (image : String) :
    Reads (lockImage backend image) := by
  refine reads_bind (reads_ofReply _) fun pinned => ?_
  refine reads_bind ?_ fun os => reads_pure _
  refine reads_bind (reads_attempt (reads_ofReply _)) fun answer => ?_
  split
  · split
    · exact reads_fail _
    · exact reads_fail _
  · split
    · exact reads_pure _
    · exact reads_fail _

theorem World.reads_lockSource (world : World) (source : Option Context) :
    Reads (world.lockSource source) := by
  cases source with
  | none => exact reads_pure _
  | some context =>
      refine reads_bind ?_ fun locked => reads_pure _
      unfold GitContext.lock
      split
      · exact reads_pure _
      · exact reads_bind (reads_ofReply _) fun out => reads_pure _

/-! Two runs. -/

theorem PackageSources.exists_find?_of_select {sources : PackageSources} {os : OsRelease}
    {source : PackageSource} (selected : sources.select os = .ok source) :
    ∃ manager, sources.find? manager = some source := by
  simp only [PackageSources.select, bind, Except.bind] at selected
  split at selected
  next => cases selected
  next manager _ =>
    split at selected
    next own found => exact ⟨manager, by rw [found, Except.ok.inj selected]⟩
    next => cases selected

/-- What a run leaves of the indexes that it starts with: the same, or the index
of a depot loaded, which the files that are stored then serve again. -/
def IndexStore.LeadsTo (sources : PackageSources) (isCancelled : Bool)
    (first last : IndexStore) : Prop :=
  last = first ∨ first.loaded = none ∧ ∃ manager d index,
    sources.find? manager = some (.depot d) ∧ last.loaded = some index ∧
    d.Serves isCancelled last.restarted index

/-- Where a later run starts: with the indexes that an earlier one left, or anew
with the files that are stored, if the earlier one started so and all packages of
indexes come from one depot. -/
def IndexStore.Continues (sources : PackageSources) (first last again : IndexStore) : Prop :=
  again = last ∨ again = last.restarted ∧ first.loaded = none ∧
    ∀ manager manager' d d', sources.find? manager = some (.depot d) →
      sources.find? manager' = some (.depot d') → d = d'

theorem IndexStore.LeadsTo.serves {sources : PackageSources} {isCancelled : Bool}
    {first last again : IndexStore} (leads : first.LeadsTo sources isCancelled last)
    (continues : IndexStore.Continues sources first last again) {manager : PackageManager}
    {d : Depot} {index : Names String} (found : sources.find? manager = some (.depot d))
    (loaded : last.loaded = some index) : d.Serves isCancelled again index := by
  rcases continues with rfl | ⟨rfl, unloaded, one⟩
  · exact Depot.serves_loaded loaded
  · rcases leads with rfl | ⟨_, manager', d', index', found', loaded', serves⟩
    · rw [unloaded] at loaded
      cases loaded
    · rw [one manager manager' d d' found found', Option.some.inj (loaded.symm.trans loaded')]
      exact serves

/-- Two runs in worlds that answer alike, with the indexes that the first one
leaves. Those that the second one starts with serve the same. -/
structure Rerun where
  first : World
  second : World
  same : SameAnswers first second
  left : IndexStore
  start : IndexStore
  serves : ∀ manager d index, first.packages.find? manager = some (.depot d) →
    left.loaded = some index → d.Serves first.isCancelled start index

namespace Rerun

variable {r : Rerun}

/-- The first run can have been there before it came to its end. -/
def Passes (r : Rerun) (store : IndexStore) : Prop :=
  store.LeadsTo r.first.packages r.first.isCancelled r.left

/-- The second run can have come there: nothing was loaded, or the index that the
first run left. -/
def Ready (r : Rerun) (store : IndexStore) : Prop :=
  store = r.start ∨ ∃ index, r.left.loaded = some index ∧ store.loaded = some index

/-- What a program answers during the second run. -/
def Answers (r : Rerun) (act : Act ε α) (answer : Except ε α) : Prop :=
  ∀ trail, r.Ready trail.indexes →
    (act.after trail).1 = answer ∧ r.Ready (act.after trail).2.indexes

/-- What succeeds during the first run has its counterpart answer the same during
the second. -/
def Replays (r : Rerun) (act act' : Act ε α) : Prop :=
  ∀ before value after, act.after before = (.ok value, after) → r.Passes after.indexes →
    r.Passes before.indexes ∧ r.Answers act' (.ok value)

theorem answers_of_answers {act : Act ε α} {answer : Except ε α}
    (known : Act.Answers act answer) : r.Answers act answer := by
  intro trail ready
  obtain ⟨answered, unchanged⟩ := known trail
  exact ⟨answered, by rwa [unchanged]⟩

theorem answers_mapError {act : Act ε α} {answer : Except ε α} (change : ε → ε')
    (known : r.Answers act answer) :
    r.Answers (mapError change act) (answer.mapError change) := by
  intro trail ready
  obtain ⟨answered, still⟩ := known trail ready
  rw [after_mapError, answered]
  exact ⟨rfl, still⟩

theorem answers_bind {act : Act ε α} {next : α → Act ε β} {value : α} {answer : Except ε β}
    (early : r.Answers act (.ok value)) (late : r.Answers (next value) answer) :
    r.Answers (act >>= next) answer := by
  intro trail ready
  rw [after_bind]
  obtain ⟨answered, still⟩ := early trail ready
  cases outcome : act.after trail with
  | mk result middle =>
      rw [outcome] at answered still
      subst answered
      exact late middle still

theorem answers_bind_error {act : Act ε α} {next : α → Act ε β} {error : ε}
    (early : r.Answers act (.error error)) : r.Answers (act >>= next) (.error error) := by
  intro trail ready
  rw [after_bind]
  obtain ⟨answered, still⟩ := early trail ready
  cases outcome : act.after trail with
  | mk result middle =>
      rw [outcome] at answered still
      subst answered
      exact ⟨rfl, still⟩

/-- The second run comes to its answer from the indexes that it starts with. -/
theorem Answers.ok {act : Act ε α} {value : α} (known : r.Answers act (.ok value)) :
    ∃ trail, act.runFrom r.start = (.ok value, trail) :=
  ⟨_, Prod.ext (known (Trail.start r.start) (.inl rfl)).1 rfl⟩

theorem replays_of_reads {act act' : Act ε α} (reads : Reads act) (agree : Agree act act') :
    r.Replays act act' := by
  intro before value after run passes
  obtain ⟨answer, known⟩ := reads
  have unchanged := (known before).2
  rw [run] at unchanged
  rw [← unchanged, ← answer_of_ok known run]
  exact ⟨passes, answers_of_answers (agree.answers known)⟩

theorem replays_mapError {act act' : Act ε α} (change : ε → ε') (replays : r.Replays act act') :
    r.Replays (mapError change act) (mapError change act') := by
  intro before value after run passes
  obtain ⟨passed, again⟩ := replays before value after (mapError_ok.mp run) passes
  exact ⟨passed, answers_mapError change again⟩

/-! Packages and extensions, images and sources. -/

theorem replays_index {manager : PackageManager} {d : Depot}
    (found : r.first.packages.find? manager = some (.depot d)) :
    r.Replays (d.index r.first.isCancelled) (d.index r.first.isCancelled) := by
  intro before value after run passes
  have loaded := Depot.loaded_of_index run
  have left_eq : r.left = after.indexes := by
    rcases passes with same | ⟨unloaded, _⟩
    · exact same
    · rw [loaded] at unloaded
      cases unloaded
  have left : r.left.loaded = some value := by rw [left_eq, loaded]
  constructor
  · rcases Depot.index_ok.mp run with ⟨_, rfl⟩ | ⟨unloaded, _⟩
    · exact .inl left_eq
    · refine .inr ⟨unloaded, manager, d, value, found, left, ?_⟩
      rw [left_eq]
      exact Depot.serves_restarted unloaded run
  · intro trail ready
    rcases ready with start | ⟨index, left', there⟩
    · obtain ⟨last, again⟩ := r.serves manager d value found left trail start
      rw [again]
      exact ⟨rfl, .inr ⟨value, left, Depot.loaded_of_index again⟩⟩
    · have index_eq : index = value := Option.some.inj (left'.symm.trans left)
      rw [index_eq] at there
      rw [Depot.index_ok.mpr (.inl ⟨there, rfl⟩)]
      exact ⟨rfl, .inr ⟨value, left, there⟩⟩

theorem replays_resolve {manager : PackageManager} {d : Depot}
    (found : r.first.packages.find? manager = some (.depot d)) (packages : VersionMap) :
    r.Replays (d.resolve r.first.isCancelled packages)
      (d.resolve r.first.isCancelled packages) := by
  intro before value after run passes
  unfold Depot.resolve at run ⊢
  simp only at run ⊢
  split
  next none =>
    rw [if_pos none] at run
    obtain ⟨rfl, rfl⟩ := pure_ok.mp run
    exact ⟨passes, answers_of_answers (answers_pure _)⟩
  next some =>
    rw [if_neg some] at run
    obtain ⟨index, middle, indexed, rest⟩ := bind_ok.mp run
    obtain ⟨_, _, checked, answer⟩ := bind_ok.mp rest
    obtain ⟨rfl, rfl⟩ := pure_ok.mp answer
    obtain ⟨complete, rfl⟩ := ofExcept_ok.mp checked
    obtain ⟨passed, again⟩ := replays_index found _ _ _ indexed passes
    refine ⟨passed, answers_bind again (answers_of_answers ?_)⟩
    exact Act.answers_bind (answers_ofExcept complete) (answers_pure _)

theorem replays_resolvePackages (image : String) (os : OsRelease) (packages : VersionMap) :
    r.Replays (r.first.resolvePackages image os packages)
      (r.second.resolvePackages image os packages) := by
  have agree := r.same.agree_resolvePackages image os packages
  intro before value after run passes
  obtain ⟨source, middle, chosen, resolved⟩ := bind_ok.mp run
  obtain ⟨selected, middle_eq⟩ := ofExcept_ok.mp chosen
  rw [middle_eq] at resolved
  -- The tools of an image only read; a depot has to serve its index again.
  cases source with
  | apt =>
      refine replays_of_reads ?_ agree before value after run passes
      unfold World.resolvePackages
      rw [selected, ofExcept_ok_bind]
      exact Apt.reads_resolve _ _ _
  | apk =>
      refine replays_of_reads ?_ agree before value after run passes
      unfold World.resolvePackages
      rw [selected, ofExcept_ok_bind]
      exact Apk.reads_resolve _ _ _
  | depot d =>
      obtain ⟨manager, found⟩ := PackageSources.exists_find?_of_select selected
      obtain ⟨passed, again⟩ := replays_resolve found packages before value after resolved passes
      refine ⟨passed, ?_⟩
      unfold World.resolvePackages
      rw [← r.same.packages, ← r.same.isCancelled, selected, ofExcept_ok_bind]
      exact again

theorem replays_lockExtensions (extensions : VersionMap) :
    r.Replays (r.first.lockExtensions extensions) (r.second.lockExtensions extensions) :=
  replays_of_reads (Extensions.reads_lock _ _ _) (r.same.agree_lockExtensions extensions)

theorem replays_lockImage (image : String) :
    r.Replays (lockImage r.first.backend image) (lockImage r.second.backend image) :=
  replays_of_reads (reads_lockImage _ _) (r.same.agree_lockImage image)

theorem replays_lockSource (source : Option Context) :
    r.Replays (r.first.lockSource source) (r.second.lockSource source) :=
  replays_of_reads (r.first.reads_lockSource source) (r.same.agree_lockSource source)

end Rerun
end ImageLock
