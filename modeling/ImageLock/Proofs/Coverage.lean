/-
Looking versions up. What answers has a version for every name that was asked
for, whatever answers.
-/
import ImageLock.Proofs.Act
import ImageLock.Proofs.VersionMaps
import ImageLock.World

namespace ImageLock

open Act

namespace VersionMap

/-- A map has every name of another. -/
def Covers (locked wanted : VersionMap) : Prop :=
  ∀ name, wanted.has name = true → locked.has name = true

end VersionMap

/-! Packages. -/

namespace Packages

theorem covers_of_checkComplete {wanted locked : VersionMap}
    (complete : checkComplete wanted locked = .ok ()) : locked.Covers wanted := by
  intro name there
  unfold checkComplete at complete
  simp only at complete
  split at complete
  next nothing =>
    have missing := List.filter_eq_nil_iff.mp (List.isEmpty_iff.mp nothing) name
      (VersionMap.mem_names.mpr there)
    simpa using missing
  next => cases complete

/-- Nothing is missing where every package is pinned. -/
theorem pinned_covers {wanted : VersionMap} (closed : (openNames wanted).isEmpty = true) :
    (pinned wanted).Covers wanted := by
  intro name there
  obtain ⟨version, member⟩ := VersionMap.exists_entry there
  -- What is wanted is pinned as it is, if no version is left open.
  have notOpen : isOpen version = false := by
    have none := List.map_eq_nil_iff.mp (List.isEmpty_iff.mp closed)
    simpa using List.filter_eq_nil_iff.mp none _ member
  refine VersionMap.has_ofList.mpr (List.mem_map.mpr ⟨(name, version), ?_, rfl⟩)
  exact List.mem_filter.mpr ⟨member, by simp [notOpen]⟩

/-- Every source checks that nothing is missing before it answers. -/
theorem covers_of_checked {wanted resolved locked : VersionMap} {first last : Trail}
    (run : (do
      Act.ofExcept (checkComplete wanted resolved)
      return resolved : Act PackageError VersionMap).after first = (.ok locked, last)) :
    locked.Covers wanted := by
  obtain ⟨_, _, complete, run⟩ := bind_ok.mp run
  obtain ⟨rfl, _⟩ := pure_ok.mp run
  exact covers_of_checkComplete (ofExcept_ok.mp complete).1

end Packages

theorem PackageSource.resolve_covers {source : PackageSource} {backend : Backend}
    {isCancelled : Bool} {image : String} {wanted locked : VersionMap} {first last : Trail}
    (run : (source.resolve backend isCancelled image wanted).after first = (.ok locked, last)) :
    locked.Covers wanted := by
  cases source with
  | apt =>
      simp only [resolve, Apt.resolve] at run
      split at run
      next closed =>
        obtain ⟨rfl, _⟩ := pure_ok.mp run
        exact Packages.pinned_covers closed
      next =>
        obtain ⟨_, _, _, run⟩ := bind_ok.mp run
        exact Packages.covers_of_checked run
  | apk =>
      simp only [resolve, Apk.resolve] at run
      split at run
      next closed =>
        obtain ⟨rfl, _⟩ := pure_ok.mp run
        exact Packages.pinned_covers closed
      next =>
        obtain ⟨_, _, _, run⟩ := bind_ok.mp run
        obtain ⟨_, _, _, run⟩ := bind_ok.mp run
        exact Packages.covers_of_checked run
  | depot d =>
      simp only [resolve, Depot.resolve] at run
      split at run
      next closed =>
        obtain ⟨rfl, _⟩ := pure_ok.mp run
        exact Packages.pinned_covers closed
      next =>
        obtain ⟨_, _, _, run⟩ := bind_ok.mp run
        exact Packages.covers_of_checked run

namespace World

variable {world : World} {wanted locked : VersionMap} {first last : Trail}

theorem resolvePackages_covers {image : String} {os : OsRelease}
    (run : (world.resolvePackages image os wanted).after first = (.ok locked, last)) :
    locked.Covers wanted := by
  obtain ⟨source, _, _, run⟩ := bind_ok.mp run
  exact PackageSource.resolve_covers run

/-! Extensions. -/

end World
end ImageLock
