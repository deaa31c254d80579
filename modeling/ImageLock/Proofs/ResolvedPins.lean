/-
What a resolved map holds: pins of the packages that were asked for.

The tool of Alpine and an index are only believed about open packages, and a
version that the tool of Alpine gives begins with a digit. The tool of Debian is
believed about every package that is not pinned, so that a line about another
one enters the map; and the version that it or an index gives can be none. These
are all the ways in which a map does not hold what it should.
-/
import ImageLock.Access.Table
import ImageLock.Proofs.PackageVersions

namespace ImageLock

open Act

namespace Packages

variable {packages resolved : VersionMap}

/-- Pins of the packages that were asked for, and of no others. -/
structure Pins (packages resolved : VersionMap) : Prop where
  names : ∀ name, resolved.has name = true ↔ packages.has name = true
  concrete : ∀ e ∈ resolved.entries, isOpen e.2 = false

theorem openNames_of_concrete (concrete : ∀ e ∈ resolved.entries, isOpen e.2 = false) :
    openNames resolved = [] := by
  refine List.map_eq_nil_iff.mpr (List.filter_eq_nil_iff.mpr fun e member => ?_)
  simp [concrete e member]

/-- Where nothing is open, what is pinned is what was asked for. -/
theorem pins_of_closed (closed : openNames packages = []) :
    Pins packages (.ofNames packages.toNames) where
  names name := Iff.rfl
  concrete e member := by
    have none := List.filter_eq_nil_iff.mp (List.map_eq_nil_iff.mp closed) e member
    simpa using none

/-- A version begins with a digit, so it is one. -/
theorem not_isOpen_of_digit {version : String}
    (digit : version.toList.head?.any Text.isDecimalDigit = true) : isOpen version = false := by
  have filled : version ≠ "" := by
    rintro rfl
    simp at digit
  have named : version ≠ "*" := by
    rintro rfl
    revert digit
    decide
  simp [isOpen, filled, named]

end Packages

namespace PackageSource

variable {source : PackageSource} {backend : Backend} {isCancelled : Bool} {image : String}
  {packages resolved : VersionMap} {gives : String → String → Prop} {first last : Trail}

/-- An answer keeps to the packages that were asked for, and gives versions of
the open ones. -/
def KeepsTo (source : PackageSource) (packages : VersionMap) (gives : String → String → Prop) :
    Prop :=
  match source with
  | .apt => ∀ name version, gives name version → packages.has name = true ∧
      (name ∈ Packages.openNames packages → Packages.isOpen version = false)
  | .apk => True
  | .depot _ => ∀ name ∈ Packages.openNames packages, ∀ version, gives name version →
      Packages.isOpen version = false

/-- What is believed is asked for, and is a version. -/
def Sound (source : PackageSource) (packages : VersionMap) (gives : String → String → Prop) :
    Prop :=
  ∀ name version, source.Takes packages name → gives name version →
    packages.has name = true ∧ Packages.isOpen version = false

theorem pins_iff_sound (holds : source.Holds packages gives resolved)
    (complete : Packages.checkComplete packages resolved = .ok ()) :
    Packages.Pins packages resolved ↔ source.Sound packages gives := by
  constructor
  · intro pins name version takes gave
    have told := (holds.get? name version).mpr (.inr ⟨takes, gave⟩)
    exact ⟨(pins.names name).mp (VersionMap.has_of_get? told),
      pins.concrete _ (VersionMap.get?_eq_some.mp told)⟩
  · intro sound
    have each {name version : String} (told : resolved.get? name = some version) :
        packages.has name = true ∧ Packages.isOpen version = false := by
      rcases (holds.get? name version).mp told with pinned | ⟨takes, gave⟩
      · obtain ⟨found, closed⟩ := Packages.get?_pinned.mp pinned
        exact ⟨VersionMap.has_of_get? found, closed⟩
      · exact sound name version takes gave
    refine ⟨fun name => ⟨fun there => ?_, Packages.covers_of_checkComplete complete name⟩,
      fun e member => (each (VersionMap.get?_eq_some.mpr member)).2⟩
    obtain ⟨version, told⟩ := Option.isSome_iff_exists.mp
      ((VersionMap.isSome_get? name).trans there)
    exact (each told).1

theorem sound_iff_keepsTo
    (tells : source.Tells backend isCancelled image (Packages.openNames packages) first gives
      last) :
    source.Sound packages gives ↔ source.KeepsTo packages gives := by
  have asked {name : String} (member : name ∈ Packages.openNames packages) :
      packages.has name = true := Packages.has_iff.mpr (.inr member)
  cases source with
  | apt =>
      constructor
      · intro sound name version gave
        by_cases pinned : (Packages.pinned packages).get? name = none
        · exact ⟨(sound name version pinned gave).1, fun _ => (sound name version pinned gave).2⟩
        -- What is said of a pinned package is passed over.
        · obtain ⟨constraint, found⟩ := Option.ne_none_iff_exists'.mp pinned
          refine ⟨VersionMap.has_of_get? (Packages.get?_pinned.mp found).1, fun member => ?_⟩
          exact absurd (Packages.get?_pinned_of_open member) pinned
      · intro keeps name version takes gave
        obtain ⟨has, concrete⟩ := keeps name version gave
        refine ⟨has, concrete ((Packages.has_iff.mp has).resolve_left fun pinned => ?_)⟩
        rw [← VersionMap.isSome_get?, takes] at pinned
        cases pinned
  | apk =>
      obtain ⟨_, out, _, _, _, rfl, _⟩ := tells
      refine iff_of_true (fun name version takes gave => ⟨asked takes, ?_⟩) trivial
      obtain ⟨early, late, scans, _⟩ := gave
      exact Packages.not_isOpen_of_digit
        (scans.of_mem (List.mem_append_right _ List.mem_cons_self)).2
  | depot d =>
      exact ⟨fun sound name member version gave => (sound name version member gave).2,
        fun keeps name version takes gave => ⟨asked takes, keeps name takes version gave⟩⟩

/-- A source that is asked once tells one thing. -/
theorem tells_unique {gives' : String → String → Prop} {names : List String} {last' : Trail}
    (one : source.Tells backend isCancelled image names first gives last)
    (other : source.Tells backend isCancelled image names first gives' last') : gives = gives' := by
  cases source with
  | apt =>
      obtain ⟨out, events, replied, rfl, _⟩ := one
      obtain ⟨out', events', replied', rfl, _⟩ := other
      obtain ⟨⟨rfl⟩, _⟩ := Prod.mk.inj (replied.symm.trans replied')
      rfl
  | apk =>
      obtain ⟨result, out, events, replied, counts, rfl, _⟩ := one
      obtain ⟨result', out', events', replied', counts', rfl, _⟩ := other
      obtain ⟨rfl, _⟩ := Prod.mk.inj (replied.symm.trans replied')
      rcases counts with rfl | ⟨_, _, _, rfl⟩ <;> rcases counts' with same | ⟨_, _, _, same⟩ <;>
        cases same <;> rfl
  | depot d =>
      obtain ⟨index, loaded, rfl⟩ := one
      obtain ⟨index', loaded', rfl⟩ := other
      obtain ⟨⟨rfl⟩, _⟩ := Prod.mk.inj (loaded.symm.trans loaded')
      rfl

/-- Where nothing is open, a map is resolved to itself and nothing is asked. -/
theorem resolve_pinned (there : resolved.content.isSome = true)
    (closed : Packages.openNames resolved = []) (source : PackageSource) (backend : Backend)
    (isCancelled : Bool) (image : String) (trail : Trail) :
    (source.resolve backend isCancelled image resolved).after trail = (.ok resolved, trail) := by
  rw [resolve_closed source backend isCancelled image trail closed,
    VersionMap.ofNames_toNames there]

/-- A map of versions holds pins of what was asked for and of nothing else just
if the answer kept to that; what was asked for is there in any case. Pins are
resolved to themselves, whatever the source, and nothing is asked for them. -/
theorem resolve_pins
    (run : (source.resolve backend isCancelled image packages).after first =
      (.ok resolved, last)) :
    (Packages.Pins packages resolved ↔
      (Packages.openNames packages ≠ [] → ∃ gives, source.Tells backend isCancelled image
        (Packages.openNames packages) first gives last ∧ source.KeepsTo packages gives)) ∧
    resolved.Covers packages ∧
    ((∀ e ∈ resolved.entries, Packages.isOpen e.2 = false) →
      ∀ (source : PackageSource) (backend : Backend) (isCancelled : Bool) (image : String)
        (trail : Trail),
        (source.resolve backend isCancelled image resolved).after trail =
          (.ok resolved, trail)) := by
  by_cases closed : Packages.openNames packages = []
  · have known := resolve_closed source backend isCancelled image first closed
    rw [run] at known
    obtain ⟨⟨rfl⟩, rfl⟩ := Prod.mk.inj known
    exact ⟨iff_of_true (Packages.pins_of_closed closed) fun opened => absurd closed opened,
      fun name there => there,
      fun concrete => resolve_pinned rfl (Packages.openNames_of_concrete concrete)⟩
  · rcases resolve_cases source backend isCancelled image first closed with
      ⟨error, own, _, known⟩ | ⟨gives, own, held, tells, holds, known⟩
    · rw [run] at known
      cases known
    · rw [run] at known
      cases complete : Packages.checkComplete packages held with
      | error error => rw [complete] at known; cases known
      | ok done =>
          rw [complete] at known
          obtain ⟨⟨rfl⟩, rfl⟩ := Prod.mk.inj known
          have keeps := (pins_iff_sound holds complete).trans (sound_iff_keepsTo tells)
          refine ⟨⟨fun pins _ => ⟨gives, tells, keeps.mp pins⟩, fun answer => ?_⟩,
            Packages.covers_of_checkComplete complete,
            fun concrete => resolve_pinned holds.there (Packages.openNames_of_concrete concrete)⟩
          obtain ⟨_, told, kept⟩ := answer closed
          exact keeps.mpr (tells_unique told tells ▸ kept)

/-- An image whose tool lists this when it is asked for `curl`. -/
def listing (out : String) : Backend :=
  AnswerTable.backend
    ⟨[], [], [⟨"debian", Text.join "; " (Apt.commands ["curl"]), out, 0, ""⟩], Names.empty⟩ false

def anyCurl : VersionMap := .ofList [("curl", "*")]

theorem resolve_pins_curl :
    ∃ resolved last,
      (apt.resolve (listing "curl | 7.64 | main\n") false "debian" anyCurl).after
        (Trail.start .empty) = (.ok resolved, last) ∧
      resolved.entries = [("curl", "7.64")] ∧
      ∀ (source : PackageSource) (backend : Backend) (isCancelled : Bool) (image : String)
        (trail : Trail),
        (source.resolve backend isCancelled image resolved).after trail =
          (.ok resolved, trail) := by
  have passes : ((apt.resolve (listing "curl | 7.64 | main\n") false "debian" anyCurl).after
      (Trail.start .empty)).1.toOption.any
        (fun resolved => resolved.entries == [("curl", "7.64")]) = true := by
    decide +kernel
  obtain ⟨resolved, run, entries⟩ := exists_of_any passes
  have entries := beq_iff_eq.mp entries
  refine ⟨resolved, _, run, entries, (resolve_pins run).2.2 fun e member => ?_⟩
  rw [entries] at member
  obtain rfl := List.mem_singleton.mp member
  decide

/-- A line about another package enters the map, and so does a blank version. -/
theorem resolve_strays :
    ∃ resolved last,
      (apt.resolve (listing "curl |  | main\nlibcurl4 | 7.64 | main\n") false "debian"
        anyCurl).after (Trail.start .empty) = (.ok resolved, last) ∧
      resolved.entries = [("curl", ""), ("libcurl4", "7.64")] ∧
      ¬ Packages.Pins anyCurl resolved := by
  have passes : ((apt.resolve (listing "curl |  | main\nlibcurl4 | 7.64 | main\n") false "debian"
      anyCurl).after (Trail.start .empty)).1.toOption.any
        (fun resolved => resolved.entries == [("curl", ""), ("libcurl4", "7.64")]) = true := by
    decide +kernel
  obtain ⟨resolved, run, entries⟩ := exists_of_any passes
  have entries := beq_iff_eq.mp entries
  refine ⟨resolved, _, run, entries, fun pins => ?_⟩
  have blank := pins.concrete ("curl", "") (by simp [entries])
  exact absurd blank (by decide)

end PackageSource
end ImageLock
