/-
Worlds that answer alike. What a program makes of such worlds is alike, up to
the questions that it asks.
-/
import ImageLock.Php.Lock
import ImageLock.NodeJs.Lock
import ImageLock.Webserver.Lock
import ImageLock.Proofs.Act

namespace ImageLock

open Act

/-- Two worlds in which images, packages and extensions are the same, and so are
repositories. What their local contexts hold is left open. -/
structure SameAnswers (a b : World) : Prop where
  isCancelled : a.isCancelled = b.isCancelled
  packages : a.packages = b.packages
  extensions : a.extensions = b.extensions
  run : ∀ image commands, (a.backend.run image commands).1 = (b.backend.run image commands).1
  pin : ∀ image, (a.backend.pin image).1 = (b.backend.pin image).1
  images : ∀ path image,
    (a.backend.read path (.image image)).1 = (b.backend.read path (.image image)).1
  repositories : ∀ path context, context.isGit = true →
    (a.backend.read path (.buildContext context)).1 =
      (b.backend.read path (.buildContext context)).1

/-! Packages and extensions. -/

namespace Depot

theorem agree_fetch (d : Depot) (isCancelled : Bool) (url : String) :
    Agree (d.fetch isCancelled url) (d.fetch isCancelled url) := by
  refine agree_bind agree_getIndexes fun store => ?_
  dsimp only
  cases (store.files.find? (fileName url)).filter (isFresh d.ttl store.now) with
  | some file => exact agree_pure _
  | none =>
      dsimp only
      split
      · exact agree_fail _
      · refine agree_bind ?_ fun content => ?_
        · refine agree_bind (agree_mapError _ (agree_ofReply rfl)) fun response => ?_
          split
          · exact agree_pure _
          · exact agree_fail _
        · refine agree_bind agree_getIndexes fun store => ?_
          exact agree_bind (agree_setIndexes _) fun _ => agree_pure _

theorem agree_index (d : Depot) (isCancelled : Bool) :
    Agree (d.index isCancelled) (d.index isCancelled) := by
  refine agree_bind agree_getIndexes fun store => ?_
  split
  · exact agree_pure _
  · refine agree_bind (agree_foldlM (fun index repository => ?_) _ _) fun index => ?_
    · refine agree_bind (agree_fetch d isCancelled _) fun content => ?_
      exact agree_bind (agree_ofExcept _) fun _ => agree_pure _
    · refine agree_bind agree_getIndexes fun store => ?_
      exact agree_bind (agree_setIndexes _) fun _ => agree_pure _

theorem agree_resolve (d : Depot) (isCancelled : Bool) (packages : VersionMap) :
    Agree (d.resolve isCancelled packages) (d.resolve isCancelled packages) := by
  unfold resolve
  simp only
  split
  · exact agree_pure _
  · refine agree_bind (agree_index d isCancelled) fun index => ?_
    exact agree_bind (agree_ofExcept _) fun _ => agree_pure _

end Depot

theorem Extensions.agree_lock (index : ExtensionIndex) (isCancelled : Bool)
    (extensions : VersionMap) :
    Agree (Extensions.lock index isCancelled extensions)
      (Extensions.lock index isCancelled extensions) := by
  have one (name constraint : String) : Agree (lockOne index isCancelled name constraint)
      (lockOne index isCancelled name constraint) := by
    unfold lockOne
    split
    · exact agree_pure _
    · refine agree_bind (agree_ofExcept _) fun parts => ?_
      obtain ⟨constraint, stability⟩ := parts
      dsimp only
      split
      · exact agree_pure _
      · refine agree_bind (agree_mapError _ (agree_ofReply rfl)) fun releases => ?_
        split
        · exact agree_fail _
        · exact agree_fail _
        · exact agree_pure _
  have all (entries : List (String × String)) : Agree (lockEntries index isCancelled entries)
      (lockEntries index isCancelled entries) := by
    induction entries with
    | nil => exact agree_pure _
    | cons entry rest ih =>
        exact agree_bind (one entry.1 entry.2) fun version => agree_bind ih fun _ => agree_pure _
  exact agree_bind (all extensions.entries) fun _ => agree_pure _

namespace SameAnswers

variable {a b : World}

theorem agree_resolvePackages (same : SameAnswers a b) (image : String) (os : OsRelease)
    (packages : VersionMap) :
    Agree (a.resolvePackages image os packages) (b.resolvePackages image os packages) := by
  unfold World.resolvePackages
  rw [same.packages, same.isCancelled]
  refine agree_bind (agree_ofExcept _) fun source => ?_
  unfold PackageSource.resolve
  -- Packages come from one of two tools, which run in the image, or from a depot.
  split
  case h_1 =>
    unfold Apt.resolve
    simp only
    split
    · exact agree_pure _
    · refine agree_bind (agree_mapError _ (agree_ofReply (same.run _ _))) fun out => ?_
      exact agree_bind (agree_ofExcept _) fun _ => agree_pure _
  case h_2 =>
    unfold Apk.resolve
    simp only
    split
    · exact agree_pure _
    · refine agree_bind (agree_attempt _ (agree_ofReply (same.run _ _))) fun result => ?_
      refine agree_bind (agree_ofExcept _) fun out => ?_
      exact agree_bind (agree_ofExcept _) fun _ => agree_pure _
  case h_3 => exact Depot.agree_resolve _ _ _

theorem agree_lockExtensions (same : SameAnswers a b) (extensions : VersionMap) :
    Agree (a.lockExtensions extensions) (b.lockExtensions extensions) := by
  unfold World.lockExtensions
  rw [same.extensions, same.isCancelled]
  exact Extensions.agree_lock _ _ _

/-! Images and sources. -/

theorem agree_lockImage (same : SameAnswers a b) (image : String) :
    Agree (lockImage a.backend image) (lockImage b.backend image) := by
  refine agree_bind (agree_ofReply (same.pin image)) fun pinned => ?_
  refine agree_bind ?_ fun os => agree_pure _
  refine agree_bind (agree_attempt _ (agree_ofReply (same.images _ _))) fun answer => ?_
  split
  · split
    · exact agree_fail _
    · exact agree_fail _
  · split
    · exact agree_pure _
    · exact agree_fail _

theorem agree_lockSource (same : SameAnswers a b) (source : Option Context) :
    Agree (a.lockSource source) (b.lockSource source) := by
  cases source with
  | none => exact agree_pure _
  | some context =>
      refine agree_bind ?_ fun locked => agree_pure _
      unfold GitContext.lock
      split
      · exact agree_pure _
      · exact agree_bind (agree_ofReply (same.run _ _)) fun out => agree_pure _

/-! Requirements. -/

theorem agree_platformRequirements {context : Context}
    (read : (a.backend.read Php.lockFile (.buildContext context)).1 =
      (b.backend.read Php.lockFile (.buildContext context)).1) :
    Agree (Php.platformRequirements a.backend context)
      (Php.platformRequirements b.backend context) := by
  refine agree_bind (agree_attempt _ (agree_ofReply read)) fun answer => ?_
  split
  · split
    · exact agree_pure _
    · exact agree_fail _
  · split
    · exact agree_pure _
    · exact agree_fail _

/-- A source that is locked is what it was, or a repository. -/
theorem isGit_or_of_lockSource {source locked : Option Context} {first last : Trail}
    (run : (a.lockSource source).after first = (.ok locked, last)) (outer : Context) :
    (locked.getD outer).isGit = true ∨ locked.getD outer = source.getD outer := by
  cases source with
  | none =>
      obtain ⟨rfl, _⟩ := pure_ok.mp run
      exact .inr rfl
  | some context =>
      obtain ⟨value, _, step, rest⟩ := bind_ok.mp run
      obtain ⟨rfl, _⟩ := pure_ok.mp rest
      unfold GitContext.lock at step
      split at step
      · obtain ⟨rfl, _⟩ := pure_ok.mp step
        exact .inr rfl
      next isGit =>
        obtain ⟨out, _, _, step⟩ := bind_ok.mp step
        obtain ⟨rfl, _⟩ := pure_ok.mp step
        exact .inl (by simpa [Context.isGit] using isGit)

/-- The requirements of a project, wherever its source was locked to. -/
theorem agree_requirements (same : SameAnswers a b) {source locked : Option Context}
    {outer : Context}
    (read : (a.backend.read Php.lockFile (.buildContext (source.getD outer))).1 =
      (b.backend.read Php.lockFile (.buildContext (source.getD outer))).1)
    {first last : Trail} (run : (a.lockSource source).after first = (.ok locked, last)) :
    Agree (Php.requirements a (locked.getD outer)) (Php.requirements b (locked.getD outer)) := by
  refine agree_mapError _ (agree_platformRequirements ?_)
  -- A source that moved is a repository, which is the same in both worlds.
  rcases isGit_or_of_lockSource run outer with isGit | unchanged
  · exact same.repositories _ _ isGit
  · rw [unchanged, read]

end SameAnswers
end ImageLock
