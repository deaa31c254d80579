/-
Versions of packages, whatever gives them.

What is pinned stays as it is, and everything else has the version that the
source gives. Either all that was asked for is there, or the names that are
missing are told.
-/
import ImageLock.Packages.Resolve
import ImageLock.Proofs.Coverage
import ImageLock.Proofs.ToolOutput

namespace ImageLock

open Act

/-! What is pinned, and what is missing. -/

namespace Packages

variable {packages resolved : VersionMap} {name constraint : String}

theorem entries_pinned (packages : VersionMap) :
    (pinned packages).entries = packages.entries.filter fun e => !isOpen e.2 :=
  Names.entries_ofList (packages.toNames.sorted.filter _)

theorem get?_pinned :
    (pinned packages).get? name = some constraint ↔
      packages.get? name = some constraint ∧ isOpen constraint = false := by
  simp [VersionMap.get?_eq_some, entries_pinned]

theorem mem_openNames :
    name ∈ openNames packages ↔
      ∃ constraint, packages.get? name = some constraint ∧ isOpen constraint = true := by
  simp [openNames, VersionMap.get?_eq_some]

theorem openNames_sorted (packages : VersionMap) : (openNames packages).Pairwise (· < ·) :=
  List.pairwise_map.mpr (packages.toNames.sorted.filter _)

/-- Where all is pinned, what is pinned is all. -/
theorem pinned_eq (closed : openNames packages = []) :
    pinned packages = .ofNames packages.toNames := by
  have all : packages.entries.filter (fun e => !isOpen e.2) = packages.entries := by
    refine List.filter_eq_self.mpr fun e member => ?_
    have none := List.map_eq_nil_iff.mp closed
    simpa using List.filter_eq_nil_iff.mp none e member
  unfold pinned
  rw [all]
  exact congrArg VersionMap.ofNames (Names.ofList_entries packages.toNames)

theorem get?_pinned_of_open {name : String} (member : name ∈ openNames packages) :
    (Packages.pinned packages).get? name = none := by
  obtain ⟨constraint, found, opened⟩ := mem_openNames.mp member
  refine Option.eq_none_iff_forall_ne_some.mpr fun own pinned => ?_
  obtain ⟨found', closed⟩ := get?_pinned.mp pinned
  rw [Option.some.inj (found.symm.trans found'), closed] at opened
  cases opened

/-- A package that was asked for is pinned or open. -/
theorem has_iff {name : String} :
    packages.has name = true ↔
      (pinned packages).has name = true ∨ name ∈ openNames packages := by
  constructor
  · intro asked
    obtain ⟨constraint, found⟩ := Option.isSome_iff_exists.mp
      ((VersionMap.isSome_get? name).trans asked)
    cases opened : isOpen constraint with
    | false => exact .inl (VersionMap.has_of_get? (get?_pinned.mpr ⟨found, opened⟩))
    | true => exact .inr (mem_openNames.mpr ⟨constraint, found, opened⟩)
  · rintro (pinned | member)
    · obtain ⟨constraint, found⟩ := Option.isSome_iff_exists.mp
        ((VersionMap.isSome_get? name).trans pinned)
      exact VersionMap.has_of_get? (get?_pinned.mp found).1
    · obtain ⟨constraint, found, _⟩ := mem_openNames.mp member
      exact VersionMap.has_of_get? found

end Packages

/-! The sources. -/

theorem Apk.addDescribed_eq (resolved : VersionMap) (names : List String) (out : String) :
    addDescribed resolved names out =
      (headed names out).foldl (fun m (e : String × String) => m.overwrite e.1 e.2) resolved := rfl

/-- A tool that ended otherwise than with exit code 1 did not answer. -/
theorem Apk.described_error {image : String} {cause : AccessError}
    (others : ∀ image command out err, cause ≠ .exitStatus image command (some 1) out err) :
    described image (.error cause) = .error (.access image cause) := by
  unfold described
  split
  next same => cases same
  next same => exact absurd (Except.error.inj same) (others _ _ _ _)
  next same => rw [Except.error.inj same]

namespace Depot

/-- What an index has of some names. -/
def indexed (index : Names String) (names : List String) : List (String × String) :=
  names.filterMap fun name => (index.find? name).map fun version => (name, version)

theorem addIndexed_eq (resolved : VersionMap) (index : Names String) (names : List String) :
    addIndexed resolved index names =
      (indexed index names).foldl (fun m (e : String × String) => m.overwrite e.1 e.2)
        resolved := by
  induction names generalizing resolved with
  | nil => rfl
  | cons name rest ih =>
      simp only [addIndexed, List.foldl_cons] at ih ⊢
      cases found : index.find? name with
      | none => rw [ih, indexed, indexed, List.filterMap_cons_none (by rw [found]; rfl)]
      | some version =>
          rw [ih, indexed, indexed, List.filterMap_cons_some (by rw [found]; rfl), List.foldl_cons]

theorem mem_indexed {index : Names String} {names : List String} {name version : String} :
    (name, version) ∈ indexed index names ↔ name ∈ names ∧ index.find? name = some version := by
  simp only [indexed, List.mem_filterMap, Option.map_eq_some_iff, Prod.mk.injEq]
  constructor
  · rintro ⟨_, member, _, found, rfl, rfl⟩
    exact ⟨member, found⟩
  · rintro ⟨member, found⟩
    exact ⟨name, member, version, found, rfl, rfl⟩

theorem lookup_indexed {index : Names String} {names : List String} {name : String}
    (member : name ∈ names) : (indexed index names).reverse.lookup name = index.find? name := by
  cases found : (indexed index names).reverse.lookup name with
  | some version =>
      exact (mem_indexed.mp (List.mem_reverse.mp (mem_of_lookup found))).2.symm
  | none =>
      refine (Option.eq_none_iff_forall_ne_some.mpr fun version known => ?_).symm
      have there : name ∈ (indexed index names).reverse.map (·.1) :=
        List.mem_map.mpr ⟨(name, version), by simpa using mem_indexed.mpr ⟨member, known⟩, rfl⟩
      rw [← isSome_lookup, found] at there
      cases there

end Depot

/-! What a source comes to. -/

/-- A trail on which more was asked. -/
def Trail.asking (trail : Trail) (events : List Event) : Trail :=
  { trail with events := trail.events ++ events }

namespace Packages

/-- All that was asked for is there, pinned as it was or with the version that is
given; or the names that nothing is given for are told, in order. -/
def Completed (packages : VersionMap) (gives : String → String → Prop)
    (result : Except PackageError VersionMap) : Prop :=
  match result with
  | .ok resolved => ∀ name constraint, packages.get? name = some constraint →
      if isOpen constraint then ∃ version, gives name version ∧ resolved.get? name = some version
      else resolved.get? name = some constraint
  | .error error => ∃ missing, error = .missing missing ∧ missing ≠ [] ∧
      missing.Pairwise (· < ·) ∧ ∀ name, name ∈ missing ↔
        (∃ constraint, packages.get? name = some constraint ∧ isOpen constraint = true) ∧
          ∀ version, ¬ gives name version

theorem after_checked (packages resolved : VersionMap) (trail : Trail) :
    (do
      Act.ofExcept (checkComplete packages resolved)
      return resolved : Act PackageError VersionMap).after trail =
      ((checkComplete packages resolved).map fun _ => resolved, trail) := by
  rw [after_bind, after_ofExcept]
  cases checkComplete packages resolved <;> rfl

end Packages

namespace PackageSource

variable {backend : Backend} {isCancelled : Bool} {image : String} {packages : VersionMap}
  {first : Trail}

/-- A source is asked for the versions of some names, and gives them. The tool of
Alpine answers also if it ends with exit code 1. -/
def Tells (source : PackageSource) (backend : Backend) (isCancelled : Bool) (image : String)
    (names : List String) (first : Trail) (gives : String → String → Prop) (last : Trail) : Prop :=
  match source with
  | .apt => ∃ out events, backend.run image (Apt.commands names) = (.ok out, events) ∧
      gives = Apt.Gives out ∧ last = first.asking events
  | .apk => ∃ result out events, backend.run image (Apk.commands names) = (result, events) ∧
      (result = .ok out ∨ ∃ image command err,
        result = .error (.exitStatus image command (some 1) out err)) ∧
      gives = Apk.Gives names out ∧ last = first.asking events
  | .depot d => ∃ index, (d.index isCancelled).after first = (.ok index, last) ∧
      gives = fun name version => index.find? name = some version

/-- A source cannot be asked. -/
def Refuses (source : PackageSource) (backend : Backend) (isCancelled : Bool) (image : String)
    (names : List String) (first : Trail) (error : PackageError) (last : Trail) : Prop :=
  match source with
  | .apt => ∃ cause events, backend.run image (Apt.commands names) = (.error cause, events) ∧
      error = .access image cause ∧ last = first.asking events
  | .apk => ∃ cause events, backend.run image (Apk.commands names) = (.error cause, events) ∧
      (∀ image command out err, cause ≠ .exitStatus image command (some 1) out err) ∧
      error = .access image cause ∧ last = first.asking events
  | .depot d => (d.index isCancelled).after first = (.error error, last)

/-- What a source comes to once it was asked. -/
def Concludes (source : PackageSource) (backend : Backend) (isCancelled : Bool) (image : String)
    (packages : VersionMap) (first : Trail) (outcome : Except PackageError VersionMap × Trail) :
    Prop :=
  (∃ error last, source.Refuses backend isCancelled image (Packages.openNames packages) first
      error last ∧ outcome = (.error error, last)) ∨
    ∃ gives last, source.Tells backend isCancelled image (Packages.openNames packages) first
      gives last ∧ outcome.2 = last ∧ Packages.Completed packages gives outcome.1

/-- The packages that the answer of a source is believed about. -/
def Takes (source : PackageSource) (packages : VersionMap) (name : String) : Prop :=
  match source with
  | .apt => (Packages.pinned packages).get? name = none
  | .apk | .depot _ => name ∈ Packages.openNames packages

theorem takes_of_open {source : PackageSource} {name : String}
    (member : name ∈ Packages.openNames packages) : source.Takes packages name := by
  cases source with
  | apt => exact Packages.get?_pinned_of_open member
  | apk => exact member
  | depot d => exact member

/-- What is pinned, and what the source gives beside it. -/
structure Holds (source : PackageSource) (packages : VersionMap)
    (gives : String → String → Prop) (resolved : VersionMap) : Prop where
  there : resolved.content.isSome = true
  get? : ∀ name version, resolved.get? name = some version ↔
    (Packages.pinned packages).get? name = some version ∨
      source.Takes packages name ∧ gives name version

variable {source : PackageSource} {gives : String → String → Prop} {resolved : VersionMap}

/-- What is pinned is not written over, and the first entry of everything else
counts. -/
theorem holds_add {entries : List (String × String)}
    (same : ∀ name version, entries.lookup name = some version ↔ gives name version) :
    Holds .apt packages gives
      (entries.foldl (fun m (e : String × String) => m.add e.1 e.2)
        (Packages.pinned packages)) where
  there := VersionMap.isSome_foldl entries _ fun m e => by simp [VersionMap.add]
  get? name version := by
    rw [VersionMap.get?_foldl_add _ rfl, Option.or_eq_some_iff, same]
    exact Iff.rfl

/-- Entries of open packages touch nothing else, and the last of each counts. -/
theorem holds_overwrite (narrow : source.Takes packages = (· ∈ Packages.openNames packages))
    {entries : List (String × String)}
    (only : ∀ e ∈ entries, e.1 ∈ Packages.openNames packages)
    (same : ∀ name ∈ Packages.openNames packages, ∀ version,
      entries.reverse.lookup name = some version ↔ gives name version) :
    source.Holds packages gives
      (entries.foldl (fun m (e : String × String) => m.overwrite e.1 e.2)
        (Packages.pinned packages)) where
  there := VersionMap.isSome_foldl entries _ fun m e => by simp [VersionMap.overwrite]
  get? name version := by
    rw [VersionMap.get?_foldl_overwrite _ rfl, narrow]
    by_cases member : name ∈ Packages.openNames packages
    · rw [Packages.get?_pinned_of_open member, Option.or_none, same name member]
      simp [member]
    · have untold : entries.reverse.lookup name = none := by
        refine Option.eq_none_iff_forall_ne_some.mpr fun own told => member ?_
        exact only _ (List.mem_reverse.mp (mem_of_lookup told))
      rw [untold, Option.none_or]
      simp [member]

theorem holds_indexed (d : Depot) (packages : VersionMap) (index : Names String) :
    Holds (.depot d) packages (fun name version => index.find? name = some version)
      (Depot.addIndexed (Packages.pinned packages) index (Packages.openNames packages)) := by
  rw [Depot.addIndexed_eq]
  exact holds_overwrite rfl (fun e member => (Depot.mem_indexed.mp member).1)
    fun name member version => by rw [Depot.lookup_indexed member]

theorem completed_of_holds (holds : source.Holds packages gives resolved) :
    Packages.Completed packages gives
      ((Packages.checkComplete packages resolved).map fun _ => resolved) := by
  have given {name : String} (member : name ∈ Packages.openNames packages) (version : String) :
      resolved.get? name = some version ↔ gives name version := by
    rw [holds.get?, Packages.get?_pinned_of_open member]
    simp [takes_of_open member]
  have absent {name : String} : resolved.has name = false ↔ ∀ version,
      resolved.get? name ≠ some version := by
    rw [← VersionMap.isSome_get?, Option.isSome_eq_false_iff, Option.isNone_iff_eq_none,
      Option.eq_none_iff_forall_ne_some]
  unfold Packages.checkComplete
  simp only
  split
  next complete =>
    intro name constraint found
    split
    next opened =>
      have member := Packages.mem_openNames.mpr ⟨constraint, found, opened⟩
      have has : resolved.has name = true := by
        simpa using List.filter_eq_nil_iff.mp (List.isEmpty_iff.mp complete) name
          (VersionMap.mem_names.mpr (Packages.has_iff.mpr (.inr member)))
      obtain ⟨version, told⟩ := Option.isSome_iff_exists.mp
        ((VersionMap.isSome_get? name).trans has)
      exact ⟨version, (given member version).mp told, told⟩
    next closed =>
      exact (holds.get? name constraint).mpr
        (.inl (Packages.get?_pinned.mpr ⟨found, by simpa using closed⟩))
  next incomplete =>
    refine ⟨_, rfl, by simpa using incomplete,
      (List.pairwise_map.mpr packages.toNames.sorted).filter _, fun name => ?_⟩
    rw [List.mem_filter, VersionMap.mem_names, ← Packages.mem_openNames, Packages.has_iff,
      Bool.not_eq_true', absent]
    constructor
    · rintro ⟨pinned | member, none⟩
      -- A pinned package is there, so it is not missing.
      · obtain ⟨constraint, found⟩ := Option.isSome_iff_exists.mp
          ((VersionMap.isSome_get? name).trans pinned)
        exact absurd ((holds.get? name constraint).mpr (.inl found)) (none constraint)
      · exact ⟨member, fun version gave => none version ((given member version).mpr gave)⟩
    · rintro ⟨member, none⟩
      exact ⟨.inr member, fun version told => none version ((given member version).mp told)⟩

/-- What a source comes to that has something to look up: it refuses, or what it
gives is checked. -/
theorem resolve_cases (source : PackageSource) (backend : Backend) (isCancelled : Bool)
    (image : String) (first : Trail) (opened : Packages.openNames packages ≠ []) :
    (∃ error last, source.Refuses backend isCancelled image (Packages.openNames packages) first
        error last ∧
      (source.resolve backend isCancelled image packages).after first = (.error error, last)) ∨
    ∃ gives last resolved, source.Tells backend isCancelled image (Packages.openNames packages)
        first gives last ∧ source.Holds packages gives resolved ∧
      (source.resolve backend isCancelled image packages).after first =
        ((Packages.checkComplete packages resolved).map fun _ => resolved, last) := by
  have asked : (Packages.openNames packages).isEmpty = false := by simpa using opened
  cases source with
  | apt =>
      simp only [resolve, Apt.resolve, asked, Bool.false_eq_true, if_false]
      rw [after_bind, after_mapError, after_ofReply]
      cases reply : backend.run image (Apt.commands (Packages.openNames packages)) with
      | mk result events =>
          cases result with
          | error cause => exact .inl ⟨_, _, ⟨cause, events, reply, rfl, rfl⟩, rfl⟩
          | ok out =>
              exact .inr ⟨_, _, Apt.addListed (Packages.pinned packages) out,
                ⟨out, events, reply, rfl, rfl⟩, holds_add fun name version => Apt.lookup_listed,
                Packages.after_checked ..⟩
  | apk =>
      simp only [resolve, Apk.resolve, asked, Bool.false_eq_true, if_false]
      rw [after_bind, after_attempt, after_ofReply]
      cases reply : backend.run image (Apk.commands (Packages.openNames packages)) with
      | mk result events =>
          simp only
          rw [after_bind, after_ofExcept]
          have holds (out : String) : Holds .apk packages
              (Apk.Gives (Packages.openNames packages) out)
              (Apk.addDescribed (Packages.pinned packages) (Packages.openNames packages) out) := by
            rw [Apk.addDescribed_eq]
            exact holds_overwrite rfl
              (fun e member => ((Apk.scans_headers _ true _).of_mem member).1)
              fun name _ version => Apk.lookup_headed
          cases result with
          | ok out =>
              exact .inr ⟨_, _, _, ⟨_, out, events, reply, .inl rfl, rfl, rfl⟩, holds out,
                Packages.after_checked ..⟩
          | error cause =>
              by_cases unknown : ∃ image command out err,
                  cause = .exitStatus image command (some 1) out err
              · obtain ⟨own, command, out, err, rfl⟩ := unknown
                exact .inr ⟨_, _, _,
                  ⟨_, out, events, reply, .inr ⟨own, command, err, rfl⟩, rfl, rfl⟩,
                  holds out, Packages.after_checked ..⟩
              · have others : ∀ image command out err,
                    cause ≠ .exitStatus image command (some 1) out err :=
                  fun image command out err same => unknown ⟨image, command, out, err, same⟩
                rw [Apk.described_error others]
                exact .inl ⟨_, _, ⟨cause, events, reply, others, rfl, rfl⟩, rfl⟩
  | depot d =>
      simp only [resolve, Depot.resolve, asked, Bool.false_eq_true, if_false]
      rw [after_bind]
      cases loaded : (d.index isCancelled).after first with
      | mk result last =>
          cases result with
          | error error => exact .inl ⟨error, last, loaded, rfl⟩
          | ok index =>
              exact .inr ⟨_, last, _, ⟨index, loaded, rfl⟩, holds_indexed d packages index,
                Packages.after_checked ..⟩

/-- Where all is pinned, nothing is asked. -/
theorem resolve_closed (source : PackageSource) (backend : Backend) (isCancelled : Bool)
    (image : String) (first : Trail) (closed : Packages.openNames packages = []) :
    (source.resolve backend isCancelled image packages).after first =
      (.ok (.ofNames packages.toNames), first) := by
  have pinned := Packages.pinned_eq closed
  cases source <;>
    simp [resolve, Apt.resolve, Apk.resolve, Depot.resolve, closed, pinned, after_pure]

/-- Every source keeps what is pinned, and answers for all that is asked for or
tells what is missing. Where all is pinned, nothing is asked. -/
theorem resolve_completes (source : PackageSource) (backend : Backend) (isCancelled : Bool)
    (image : String) (packages : VersionMap) (first : Trail) :
    if Packages.openNames packages = [] then
      (source.resolve backend isCancelled image packages).after first =
        (.ok (.ofNames packages.toNames), first)
    else
      source.Concludes backend isCancelled image packages first
        ((source.resolve backend isCancelled image packages).after first) := by
  split
  next closed => exact resolve_closed source backend isCancelled image first closed
  next opened =>
    rcases resolve_cases source backend isCancelled image first opened with
      ⟨error, last, refuses, run⟩ | ⟨gives, last, resolved, tells, holds, run⟩
    · exact .inl ⟨error, last, refuses, run⟩
    · rw [run]
      exact .inr ⟨gives, last, tells, rfl, completed_of_holds holds⟩

end PackageSource
end ImageLock
