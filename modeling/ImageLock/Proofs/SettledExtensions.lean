/-
Extensions that are locked already. A release that reads as a version has nothing in its text
that marks a range or stands in front of a stability, so that what is selected of counted
releases stands for itself. Locked extensions are locked again to what they are, and no index
is asked.
-/
import ImageLock.Proofs.BestRelease
import ImageLock.Proofs.LockedExtensions

namespace ImageLock

/-! Texts of versions. -/

namespace Version

/-- A character of versions. -/
def IsVersionChar (c : Char) : Prop :=
  c = '.' ∨ c = '-' ∨ c = '+' ∨ Text.isDigit c = true ∨ Text.isLetter c = true

theorem chars_of_core? {text : List Char} {core : Core}
    (read : Version.core? text = some core) : ∀ c ∈ text, IsVersionChar c := by
  have pieces : ∀ piece ∈ Text.splitWhere (· == '.') text, ∃ n,
      Version.number? piece = some n := by
    unfold Version.core? at read
    split at read
    · obtain ⟨a, readA, -⟩ := Option.bind_eq_some_iff.mp read
      simp_all
    · obtain ⟨a, readA, read⟩ := Option.bind_eq_some_iff.mp read
      obtain ⟨b, readB, -⟩ := Option.bind_eq_some_iff.mp read
      simp_all
    · obtain ⟨a, readA, read⟩ := Option.bind_eq_some_iff.mp read
      obtain ⟨b, readB, read⟩ := Option.bind_eq_some_iff.mp read
      obtain ⟨c, readC, -⟩ := Option.bind_eq_some_iff.mp read
      simp_all
    · cases read
  intro c member
  rcases Text.mem_splitWhere (p := (· == '.')) member with dot | ⟨piece, listed, within⟩
  · exact .inl (eq_of_beq dot)
  · obtain ⟨n, reads⟩ := pieces piece listed
    rcases Constraint.chars_of_number? reads c within with sign | digit
    · exact .inr (.inr (.inl sign))
    · exact .inr (.inr (.inr (.inl digit)))

theorem chars_of_prerelease? {text : List Char} {prerelease : Prerelease}
    (read : Prerelease.parse? text = some prerelease) : ∀ c ∈ text, IsVersionChar c := by
  simp only [Prerelease.parse?] at read
  split at read
  · next valid =>
      intro c member
      rcases Text.mem_splitWhere (p := (· == '.')) member with dot | ⟨piece, listed, within⟩
      · exact .inl (eq_of_beq dot)
      · have identifier := List.all_eq_true.mp valid piece listed
        simp only [Prerelease.isIdentifier, Bool.and_eq_true, List.all_eq_true] at identifier
        have known := identifier.1.2 c within
        simp only [Prerelease.isIdentifierChar, Bool.or_eq_true, beq_iff_eq] at known
        rcases known with (letter | digit) | dash
        · exact .inr (.inr (.inr (.inr letter)))
        · exact .inr (.inr (.inr (.inl digit)))
        · exact .inr (.inl dash)
  · cases read

/-- A release that reads as a version has nothing in its text that marks a range or stands in
front of a stability. -/
theorem chars_of_ofRelease? {text : String} {v : Version}
    (read : Version.ofRelease? text = some v) : ∀ c ∈ text.toList, IsVersionChar c := by
  simp only [Version.ofRelease?] at read
  obtain ⟨core, readCore, read⟩ := Option.bind_eq_some_iff.mp read
  have rest : ∀ c ∈ text.toList.drop (text.toList.takeWhile fun c => !Text.isLetter c).length,
      IsVersionChar c := by
    split at read
    · next none => simp [List.isEmpty_iff.mp none]
    · obtain ⟨prerelease, readRest, -⟩ := Option.bind_eq_some_iff.mp read
      exact chars_of_prerelease? readRest
  have whole := List.prefix_iff_eq_append.mp
    (List.takeWhile_prefix (fun c => !Text.isLetter c) (l := text.toList))
  intro c member
  rw [← whole, List.mem_append] at member
  rcases member with inNumbers | behind
  · rcases Text.mem_dropEndWhile (p := fun c => c == '.' || c == '-') inNumbers with ends | inCore
    · simp only [Bool.or_eq_true, beq_iff_eq] at ends
      rcases ends with dot | dash
      · exact .inl dot
      · exact .inr (.inl dash)
    · exact chars_of_core? readCore c inCore
  · exact rest c behind

end Version

/-- A release as extensions are numbered: its version begins with a digit, and does not end as
a wildcard does. -/
def Release.IsCounted (r : Release) : Prop :=
  r.version.toList.head?.any Text.isDigit = true ∧ ¬['.', 'x'] <:+ r.version.toList

namespace Extensions

open Act

variable {index : ExtensionIndex} {isCancelled : Bool} {name constraint version : String}

/-- A version that stands for itself, with no stability behind it. -/
def IsPin (version : String) : Prop :=
  Constraint.isExact version = true ∧ '@' ∉ version.toList

theorem isPin_of_ofRelease? {r : Release} {v : Version} (counted : r.IsCounted)
    (read : Version.ofRelease? r.version = some v) : IsPin r.version := by
  have known := Version.chars_of_ofRelease? read
  have unmarked (mark : Char) (other : ¬Version.IsVersionChar mark) : mark ∉ r.version.toList :=
    fun member => other (known mark member)
  constructor
  · have plain : (r.version.toList.any fun c => c == '*' || c == ' ' || c == ',' || c == '|') =
        false := by
      rw [List.any_eq_false]
      intro c member marked
      have version := known c member
      simp only [Bool.or_eq_true, beq_iff_eq, or_assoc] at marked
      rcases marked with rfl | rfl | rfl | rfl
      all_goals
        revert version
        unfold Version.IsVersionChar
        decide
    have fixed : ¬".x".toList.reverse.isPrefixOf r.version.toList.reverse = true := by
      rw [List.isPrefixOf_iff_prefix, List.reverse_prefix]
      exact counted.2
    simp only [Constraint.isExact, counted.1, plain, Bool.eq_false_iff.mpr fixed]
    rfl
  · apply unmarked
    unfold Version.IsVersionChar
    decide

theorem isPin_of_select {releases : List Release} {text version : String} {least : Stability}
    (counted : ∀ r ∈ releases, r.IsCounted)
    (picked : Release.select releases text least = some (some version)) : IsPin version := by
  obtain ⟨r, listed, rfl, v, qualifies, -⟩ := (Release.isBest_of_select picked).highest _ rfl
  exact isPin_of_ofRelease? (counted r listed) qualifies.version

/-- An extension of the runtime, or a pin. -/
def IsSettled (name version : String) : Prop := isCore name = true ∨ IsPin version

theorem Goes.isSettled (goes : Goes index isCancelled name constraint (.ok version))
    (counted : ∀ releases, (index isCancelled name).1 = .ok releases →
      ∀ r ∈ releases, r.IsCounted) : IsSettled name version := by
  cases goes with
  | core isCore => exact .inl isCore
  | exact _ asks exact =>
      cases asks with
      | bare whole => exact .inr ⟨exact, whole⟩
      | marked _ first => exact .inr ⟨exact, first⟩
  | selected _ _ _ answer picked => exact .inr (isPin_of_select (counted _ answer) picked)

theorem isSettled_of_goes {entries locked : List (String × String)}
    (each : List.Forall₂ (fun e l => l.1 = e.1 ∧ Goes index isCancelled e.1 e.2 (.ok l.2))
      entries locked)
    (counted : ∀ name releases, (index isCancelled name).1 = .ok releases →
      ∀ r ∈ releases, r.IsCounted) : ∀ l ∈ locked, IsSettled l.1 l.2 := by
  induction each with
  | nil => nofun
  | cons goes _ ih =>
      refine List.forall_mem_cons.mpr ⟨?_, ih⟩
      rw [goes.1]
      exact goes.2.isSettled (counted _)

theorem IsSettled.goes (settled : IsSettled name version) :
    Goes index isCancelled name version (.ok version) := by
  cases runtime : isCore name with
  | true => exact .core runtime
  | false =>
      rcases settled with isCore | ⟨exact, whole⟩
      · rw [runtime] at isCore
        cases isCore
      · exact .exact runtime (.bare whole) exact

theorem IsSettled.not_isLookedUp (settled : IsSettled name version) :
    ¬IsLookedUp name version := by
  rintro ⟨community, text, least, asks, range⟩
  rcases settled with isCore | ⟨exact, whole⟩
  · rw [isCore] at community
    cases community
  · rw [← ((Asks.bare whole).unique asks).1, exact] at range
    cases range

theorem lockOne_settled (settled : IsSettled name version) (trail : Trail) :
    (lockOne index isCancelled name version).after trail = (.ok version, trail) := by
  obtain ⟨outcome, asked, run, goes, asks⟩ := lockOne_goes index isCancelled name version trail
  have none : asked = [] :=
    (asks.resolve_left fun looked => settled.not_isLookedUp looked.2).1
  rw [run, goes.unique settled.goes, none, asking_nil]

theorem lockEntries_settled {locked : List (String × String)}
    (settled : ∀ l ∈ locked, IsSettled l.1 l.2) (trail : Trail) :
    (lockEntries index isCancelled locked).after trail = (.ok locked, trail) := by
  induction locked with
  | nil => rfl
  | cons first rest ih =>
      obtain ⟨here, later⟩ := List.forall_mem_cons.mp settled
      rw [lockEntries, after_bind, lockOne_settled here]
      dsimp only
      rw [after_bind, ih later]
      rfl

/-- What is selected of counted releases is a pin, and locked extensions are locked again to
what they are, by any index and without a question to it. -/
theorem locked_again :
    (∀ (releases : List Release) (text : String) (least : Stability) (version : String),
      (∀ r ∈ releases, r.IsCounted) →
      Release.select releases text least = some (some version) → IsPin version) ∧
    ∀ (index : ExtensionIndex) (isCancelled : Bool),
      (∀ name releases, (index isCancelled name).1 = .ok releases →
        ∀ r ∈ releases, r.IsCounted) →
      ∀ (extensions locked : VersionMap) (first last : Trail),
        (lock index isCancelled extensions).after first = (.ok locked, last) →
        ∀ (index' : ExtensionIndex) (isCancelled' : Bool) (trail : Trail),
          (lock index' isCancelled' locked).after trail = (.ok locked, trail) := by
  refine ⟨fun releases text least version => isPin_of_select, ?_⟩
  intro index isCancelled counted extensions locked first last run index' isCancelled' trail
  obtain ⟨given, each⟩ := lock_ok_iff.mp (congrArg Prod.fst run)
  rw [lock_after, lockEntries_settled (isSettled_of_goes each counted)]
  exact Prod.ext (congrArg Except.ok (ofList_entries_of_ne_nil given)) rfl

/-- Extensions of which one is pinned, one looked up and one of the runtime. -/
theorem locked_again_redis :
    let index := ExtensionIndex.ofList
      [("redis", [⟨"6.0.0RC1", .beta⟩, ⟨"5.1.1", .stable⟩, ⟨"5.1.0", .stable⟩])]
    let locked := VersionMap.ofList [("apcu", "5.1.17"), ("redis", "5.1.1"), ("zip", "*@any")]
    IsPin "6.0.0RC1" ∧
      (∀ name releases, (index false name).1 = .ok releases → ∀ r ∈ releases, r.IsCounted) ∧
      ∀ (index' : ExtensionIndex) (isCancelled' : Bool) (trail : Trail),
        (lock index' isCancelled' locked).after trail = (.ok locked, trail) := by
  intro index locked
  have listed : ∀ r ∈ [⟨"6.0.0RC1", .beta⟩, ⟨"5.1.1", .stable⟩, ⟨"5.1.0", .stable⟩],
      Release.IsCounted r := by
    simp only [List.forall_mem_cons, Release.IsCounted]
    decide
  have counted : ∀ name releases, (index false name).1 = .ok releases →
      ∀ r ∈ releases, r.IsCounted := by
    intro name releases answered
    obtain rfl := Except.ok.inj answered
    by_cases redis : name = "redis"
    · rw [redis, List.lookup_cons_self]
      exact listed
    · have unlisted : (name == "redis") = false := beq_eq_false_iff_ne.mpr redis
      rw [List.lookup_cons, unlisted, List.lookup_nil]
      exact List.forall_mem_nil _
  have run : ((lock index false (.ofList [("apcu", "5.1.17@beta"), ("redis", "~5.0"),
      ("zip", "*@any")])).after (Trail.start .empty)).1 = .ok locked :=
    eq_ok_of_toOption (by decide +kernel)
  exact ⟨locked_again.1 _ "^6.0" .beta "6.0.0RC1" listed (by decide +kernel), counted,
    locked_again.2 index false counted _ locked _ _ (Prod.ext run rfl)⟩

end Extensions
end ImageLock
