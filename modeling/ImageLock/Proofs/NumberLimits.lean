/-
Numbers of 64 bits.

A number that is read is refused at the first digit with which it would be too high. The only
number that is computed from others is the bound above a tilde in front of two numbers. It is one
more than the first of them, and begins again at zero behind the highest number there is: such a
constraint is not refused, but none of its versions are left.
-/
import ImageLock.Proofs.BestRelease
import ImageLock.Proofs.Words

namespace ImageLock

/-! Reading digit by digit. -/

namespace Version

/-- A number that is not too high. -/
def fits? (n : Nat) : Option Nat := if n < numberBound then some n else none

theorem fits?_of_lt {n : Nat} (small : n < numberBound) : fits? n = some n := if_pos small

theorem fits?_of_le {n : Nat} (high : numberBound ≤ n) : fits? n = none :=
  if_neg (Nat.not_lt.mpr high)

/-- One more digit. Neither ten times the number nor the sum may be too high. -/
def addDigit? (n : Nat) (c : Char) : Option Nat := do
  let tens ← fits? (n * 10)
  fits? (tens + (c.toNat - 0x30))

/-- A number, perhaps after a plus sign, where each step is checked. -/
def checkedNumber? (text : List Char) : Option Nat :=
  let digits := match text with
    | '+' :: rest => rest
    | rest => rest
  if digits.isEmpty || !digits.all Text.isDigit then none else digits.foldlM addDigit? 0

theorem addDigit?_eq (n : Nat) (c : Char) :
    addDigit? n c = fits? (n * 10 + (c.toNat - 0x30)) := by
  by_cases small : n * 10 < numberBound
  · rw [addDigit?, fits?_of_lt small]
    rfl
  · have high := Nat.not_lt.mp small
    rw [addDigit?, fits?_of_le high, fits?_of_le (high.trans (Nat.le_add_right _ _))]
    rfl

theorem le_foldl_digits (digits : List Char) (n : Nat) :
    n ≤ digits.foldl (fun n d => n * 10 + (d.toNat - 0x30)) n := by
  induction digits generalizing n with
  | nil => exact Nat.le_refl n
  | cons d digits ih =>
      exact Nat.le_trans (by dsimp only; omega) (ih _)

/-- Digits never make a number lower, so that a step is refused exactly if the whole is. -/
theorem foldlM_addDigit? (digits : List Char) {n : Nat} (small : n < numberBound) :
    digits.foldlM addDigit? n =
      fits? (digits.foldl (fun n d => n * 10 + (d.toNat - 0x30)) n) := by
  induction digits generalizing n with
  | nil => exact (fits?_of_lt small).symm
  | cons d digits ih =>
      rw [List.foldlM_cons, List.foldl_cons, addDigit?_eq]
      by_cases next : n * 10 + (d.toNat - 0x30) < numberBound
      · rw [fits?_of_lt next]
        exact ih next
      · have high := Nat.not_lt.mp next
        rw [fits?_of_le high, fits?_of_le (high.trans (le_foldl_digits digits _))]
        rfl

theorem number?_eq_checkedNumber? : number? = checkedNumber? := by
  funext text
  simp only [number?, checkedNumber?, foldlM_addDigit? _ (show 0 < numberBound by decide)]
  rfl

theorem lt_of_number? {text : List Char} {n : Nat} (read : number? text = some n) :
    n < numberBound := by
  simp only [number?, Option.ite_none_left_eq_some, Option.ite_none_right_eq_some] at read
  obtain ⟨-, small, same⟩ := read
  exact Option.some.inj same ▸ small

end Version

/-! Numbers of versions and of comparators. -/

namespace Core

def Fits (v : Core) : Prop := ∀ n ∈ [v.major, v.minor, v.patch], n < Version.numberBound

end Core

namespace Version

theorem fits_of_core? {text : List Char} {v : Core} (read : core? text = some v) : v.Fits := by
  have zero : 0 < numberBound := by decide
  unfold core? at read
  split at read
  · obtain ⟨a, readA, same⟩ := Option.bind_eq_some_iff.mp read
    cases same
    simp [Core.Fits, lt_of_number? readA, zero]
  · obtain ⟨a, readA, read⟩ := Option.bind_eq_some_iff.mp read
    obtain ⟨b, readB, same⟩ := Option.bind_eq_some_iff.mp read
    cases same
    simp [Core.Fits, lt_of_number? readA, lt_of_number? readB, zero]
  · obtain ⟨a, readA, read⟩ := Option.bind_eq_some_iff.mp read
    obtain ⟨b, readB, read⟩ := Option.bind_eq_some_iff.mp read
    obtain ⟨c, readC, same⟩ := Option.bind_eq_some_iff.mp read
    cases same
    simp [Core.Fits, lt_of_number? readA, lt_of_number? readB, lt_of_number? readC]
  · cases read

theorem fits_of_ofRelease? {text : String} {v : Version} (read : ofRelease? text = some v) :
    v.core.Fits := by
  simp only [ofRelease?] at read
  obtain ⟨core, readCore, read⟩ := Option.bind_eq_some_iff.mp read
  suffices same : v.core = core from same ▸ fits_of_core? readCore
  split at read
  · cases read
    rfl
  · obtain ⟨prerelease, -, same⟩ := Option.bind_eq_some_iff.mp read
    cases same
    rfl

end Version

namespace Comparator

variable {text rest : List Char} {α β : Type}

def Fits (c : Comparator) : Prop :=
  ∀ n ∈ c.major :: (c.minor.toList ++ c.patch.toList), n < Version.numberBound

/-- What a reader gives, if it gives anything. -/
def Gives (holds : α → Prop) (read : Option (α × List Char)) : Prop :=
  ∀ a rest, read = some (a, rest) → holds a

theorem gives_none {holds : α → Prop} : Gives holds (none : Option (α × List Char)) := nofun

theorem gives_any (read : Option (α × List Char)) : Gives (fun _ => True) read :=
  fun _ _ _ => trivial

theorem gives_some {holds : α → Prop} {a : α} (known : holds a) (rest : List Char) :
    Gives holds (some (a, rest)) := by
  intro b behind same
  cases same
  exact known

theorem Gives.bind {first : α → Prop} {holds : β → Prop} {read : Option (α × List Char)}
    {next : α × List Char → Option (β × List Char)} (gives : Gives first read)
    (later : ∀ a rest, first a → Gives holds (next (a, rest))) : Gives holds (read.bind next) := by
  intro b behind done
  obtain ⟨⟨a, rest⟩, reads, goesOn⟩ := Option.bind_eq_some_iff.mp done
  exact later a rest (gives a rest reads) b behind goesOn

theorem gives_takeNumber (text : List Char) :
    Gives (· < Version.numberBound) (takeNumber text) := by
  intro n rest read
  simp only [takeNumber] at read
  split at read
  · cases read
  · obtain ⟨m, reads, same⟩ := Option.map_eq_some_iff.mp read
    cases same
    exact Version.lt_of_number? reads

def Part.Fits (part : Part) : Prop := ∀ n, part.number? = some n → n < Version.numberBound

theorem gives_takePart (text : List Char) : Gives Part.Fits (takePart text) := by
  unfold takePart
  split
  · split
    · exact gives_some nofun _
    · rw [Option.map_eq_bind]
      refine (gives_takeNumber _).bind fun n rest small => gives_some ?_ rest
      intro m same
      cases same
      exact small
  · exact gives_some nofun _

theorem gives_takeBuild {holds : Comparator → Prop} (isFull : Bool) {comparator : Comparator}
    (known : holds comparator) (text : List Char) :
    Gives holds (takeBuild isFull comparator text) := by
  unfold takeBuild
  split
  · exact (gives_any _).bind fun _ _ _ => gives_some known _
  · exact gives_some known _

theorem gives_takeEnds {holds : Comparator → Prop} (isFull : Bool)
    {finish : Prerelease → Comparator} (known : ∀ prerelease, holds (finish prerelease))
    (text : List Char) : Gives holds (takeEnds isFull finish text) := by
  unfold takeEnds
  split
  · exact (gives_any _).bind fun prerelease rest _ => gives_takeBuild _ (known prerelease) rest
  · exact gives_takeBuild _ (known []) _

theorem fits_of_numbers (operator : Operator) (prerelease : Prerelease) {major : Nat}
    {minor patch : Part} (first : major < Version.numberBound) (second : minor.Fits)
    (third : patch.Fits) : Fits ⟨operator, major, minor.number?, patch.number?, prerelease⟩ := by
  intro n member
  rcases List.mem_cons.mp member with rfl | member
  · exact first
  · rcases List.mem_append.mp member with inMinor | inPatch
    · exact second n (Option.mem_toList.mp inMinor)
    · exact third n (Option.mem_toList.mp inPatch)

theorem gives_take (text : List Char) : Gives Fits (take text) := by
  unfold take
  generalize takeOperator text = taken
  obtain ⟨operator, behind⟩ := taken
  dsimp only
  refine (gives_takeNumber _).bind fun major rest first => (gives_takePart rest).bind
    fun minor rest second => (gives_takePart rest).bind fun patch rest third => ?_
  have known (operator : Operator) (prerelease : Prerelease) :=
    fits_of_numbers operator prerelease first second third
  dsimp only
  generalize patch.number?.isSome = isFull
  split
  · exact gives_none
  · exact gives_takeEnds _ (known _) _
  · exact gives_takeEnds _ (known _) _
  · exact gives_takeEnds _ (known _) _

theorem fits_of_ofWord? {word : List Char} {comparator : Comparator}
    (read : ofWord? word = some comparator) : comparator.Fits := by
  unfold ofWord? at read
  split at read
  · next taken =>
      cases read
      exact gives_take word _ _ taken
  · cases read

end Comparator

namespace Constraint

open Comparator Requirement

variable {word alternative : List Char} {text : String}

theorem fits_of_requirement? {requirement : Requirement}
    (read : requirement? alternative = some requirement) :
    ∀ comparator ∈ requirement, comparator.Fits := by
  rcases requirement?_iff.mp read with ⟨-, rfl⟩ | ⟨-, -, reads⟩
  · nofun
  · refine (forall_of_mapM reads Comparator.Fits).mpr fun part member => ?_
    obtain ⟨comparator, reads⟩ := exists_of_mapM reads part member
    exact ⟨comparator, reads, fits_of_ofWord? reads⟩

theorem fits_of_parse? {c : Constraint} (read : parse? text = some c) :
    ∀ requirement ∈ c, ∀ comparator ∈ requirement, comparator.Fits := by
  refine (forall_of_mapM read _).mpr fun alternative member => ?_
  obtain ⟨requirement, reads⟩ := exists_of_mapM read alternative member
  exact ⟨requirement, reads, fits_of_requirement? reads⟩

/-! The bound above a tilde. -/

/-- A tilde in front of two numbers, refused if the bound above it is too high. -/
def checkedTilde? (word : List Char) : Option (List Char) :=
  match tildePair? word with
  | some (major, minor) => do
      let next ← Version.fits? (major + 1)
      return joinWords [atLeast major minor, '<' :: Number.natDigits next ++ ".0.0".toList]
  | none => some word

/-- The requirement of an alternative, refused with any bound that is too high. -/
def checkedRequirement? (alternative : List Char) : Option Requirement := do
  Requirement.parse? (joinWords (← (words alternative).mapM checkedTilde?))

def checkedParse? (text : String) : Option Constraint :=
  (alternatives text).mapM checkedRequirement?

/-- There is no number above the one behind the tilde. -/
def IsTopTilde (word : List Char) : Prop :=
  (tildePair? word).map Prod.fst = some (Version.numberBound - 1)

instance : DecidablePred IsTopTilde := fun word =>
  inferInstanceAs (Decidable ((tildePair? word).map Prod.fst = some (Version.numberBound - 1)))

def HasTopTilde (alternative : List Char) : Prop := ∃ word ∈ words alternative, IsTopTilde word

instance : DecidablePred HasTopTilde := fun alternative =>
  inferInstanceAs (Decidable (∃ word ∈ words alternative, IsTopTilde word))

theorem isTopTilde_iff : IsTopTilde word ↔
    ∃ minor, tildePair? word = some (Version.numberBound - 1, minor) := by
  simp [IsTopTilde]

theorem lt_of_tildePair? {major : Nat} {minor : List Char}
    (pair : tildePair? word = some (major, minor)) : major < Version.numberBound := by
  obtain ⟨first, -, read⟩ := eq_of_tildePair? pair
  exact Version.lt_of_number? read

theorem checkedTilde?_of_not (proper : ¬IsTopTilde word) :
    checkedTilde? word = some (expandTilde word) := by
  rw [expandTilde_eq]
  unfold checkedTilde? spelledOut
  cases pair : tildePair? word with
  | none => rfl
  | some numbers =>
      obtain ⟨major, minor⟩ := numbers
      have small : major + 1 < Version.numberBound := by
        have below := lt_of_tildePair? pair
        have other : major ≠ Version.numberBound - 1 := by
          rintro rfl
          exact proper (isTopTilde_iff.mpr ⟨minor, pair⟩)
        omega
      simp only [Version.fits?_of_lt small, belowNext, Nat.mod_eq_of_lt small]
      rfl

theorem checkedTilde?_of_top (top : IsTopTilde word) : checkedTilde? word = none := by
  obtain ⟨minor, pair⟩ := isTopTilde_iff.mp top
  simp only [checkedTilde?, pair]
  rfl

theorem mapM_congr {α β : Type} {read read' : α → Option β} {as : List α}
    (same : ∀ a ∈ as, read a = read' a) : as.mapM read = as.mapM read' := by
  induction as with
  | nil => rfl
  | cons a as ih =>
      obtain ⟨first, later⟩ := List.forall_mem_cons.mp same
      rw [List.mapM_cons, List.mapM_cons, first, ih later]

theorem mapM_eq_none {α β : Type} {read : α → Option β} {as : List α} {a : α} (member : a ∈ as)
    (refused : read a = none) : as.mapM read = none := by
  refine Option.eq_none_iff_forall_ne_some.mpr fun bs reads => ?_
  obtain ⟨b, known⟩ := exists_of_mapM reads a member
  rw [refused] at known
  cases known

theorem checkedRequirement?_of_not (proper : ¬HasTopTilde alternative) :
    checkedRequirement? alternative = requirement? alternative := by
  have each : (words alternative).mapM checkedTilde? =
      some ((words alternative).map expandTilde) := by
    apply mapM_eq_some.mpr
    rw [List.forall₂_map_right_iff, List.forall₂_same]
    exact fun word member => checkedTilde?_of_not fun top => proper ⟨word, member, top⟩
  rw [checkedRequirement?, each]
  rfl

theorem checkedRequirement?_of_top (top : HasTopTilde alternative) :
    checkedRequirement? alternative = none := by
  obtain ⟨word, member, top⟩ := top
  rw [checkedRequirement?, mapM_eq_none member (checkedTilde?_of_top top)]
  rfl

/-- An alternative of the text has a tilde that has no bound above it. -/
def Overflows (text : String) : Prop := ∃ alternative ∈ alternatives text, HasTopTilde alternative

instance : DecidablePred Overflows := fun text =>
  inferInstanceAs (Decidable (∃ alternative ∈ alternatives text, HasTopTilde alternative))

theorem checkedParse?_of_not (proper : ¬Overflows text) : checkedParse? text = parse? text := by
  rw [parse?_eq_mapM]
  refine mapM_congr fun alternative member => ?_
  exact checkedRequirement?_of_not fun top => proper ⟨alternative, member, top⟩

theorem checkedParse?_of_overflows (overflows : Overflows text) : checkedParse? text = none := by
  obtain ⟨alternative, member, top⟩ := overflows
  exact mapM_eq_none member (checkedRequirement?_of_top top)

/-- The bound begins again at zero, and no version is below that. -/
theorem not_meetsWord_of_top (top : IsTopTilde word) (v : Core) : ¬MeetsWord word v := by
  obtain ⟨minor, pair⟩ := isTopTilde_iff.mp top
  intro meets
  have bound : belowNext (Version.numberBound - 1) = "<0.0.0".toList := by decide +kernel
  have zero : ofWord? "<0.0.0".toList = some ⟨.less, 0, some 0, some 0, []⟩ := by decide +kernel
  obtain ⟨comparator, read, admits⟩ := meets (belowNext (Version.numberBound - 1))
    (by simp [spelledOut, pair])
  rw [bound, zero] at read
  cases read
  simp [Comparator.admits, matchesLess] at admits

theorem admits_of_top {requirement : Requirement} (top : HasTopTilde alternative)
    (read : requirement? alternative = some requirement) (v : Core) :
    requirement.admits v = false := by
  obtain ⟨word, member, isTop⟩ := top
  refine Bool.eq_false_iff.mpr fun admits => ?_
  rcases requirement?_iff.mp read with ⟨⟨part, alone, -⟩, -⟩ | ⟨-, -, reads⟩
  · -- A tilde with two bounds is no wildcard.
    obtain ⟨only, same⟩ := exists_of_flatMap_spelledOut alone
    rw [same, List.mem_singleton] at member
    subst member
    obtain ⟨minor, pair⟩ := isTopTilde_iff.mp isTop
    rw [same, List.flatMap_singleton, spelledOut, pair] at alone
    cases alone
  · exact not_meetsWord_of_top isTop v ((admits_iff_meetsWord reads v).mp admits word member)

end Constraint

/-! Picking a release. -/

namespace Release

def constraintBy (parse? : String → Option Constraint) (text : String) :
    Option (Option Constraint) :=
  if text.isEmpty || text == "*" then some none else (parse? text).map some

/-- The version of the best release under a constraint that is read by `parse?`. -/
def selectBy (parse? : String → Option Constraint) (releases : List Release) (text : String)
    (least : Stability) : Option (Option String) := do
  let constraint ← constraintBy parse? text
  return (highest (releases.filterMap (qualified? constraint least))).map fun best =>
    best.2.version

theorem select_eq (releases : List Release) (text : String) (least : Stability) :
    select releases text least = selectBy Constraint.parse? releases text least := rfl

theorem stated_of_overflows {text : String} (overflows : Constraint.Overflows text) :
    (text.isEmpty || text == "*") = false := by
  refine Bool.eq_false_iff.mpr fun opened => ?_
  have bare : text = "" ∨ text = "*" := by simpa using opened
  rcases bare with rfl | rfl
  · exact absurd overflows (by decide)
  · exact absurd overflows (by decide)

theorem selectBy_eq_none {parse? : String → Option Constraint} {text : String}
    (stated : (text.isEmpty || text == "*") = false) (releases : List Release)
    (least : Stability) : selectBy parse? releases text least = none ↔ parse? text = none := by
  have reads : constraintBy parse? text = (parse? text).map some := by
    rw [constraintBy, stated]
    rfl
  rw [selectBy, reads]
  cases parse? text with
  | none => exact iff_of_true rfl rfl
  | some c => exact iff_of_false nofun nofun

theorem selectBy_congr {parse? parse?' : String → Option Constraint} {text : String}
    (same : parse? text = parse?' text) (releases : List Release) (least : Stability) :
    selectBy parse? releases text least = selectBy parse?' releases text least := by
  simp only [selectBy, constraintBy, same]

/-- Numbers are checked digit by digit, and all that are read of releases and of constraints have
64 bits. So does the bound above a tilde unless the number behind the tilde is the highest there
is. With such a tilde the constraint should be refused: it is only refused if something else in
it is not read, and otherwise the alternative of the tilde admits no version. -/
theorem select_representable (releases : List Release) (text : String) (least : Stability) :
    Version.number? = Version.checkedNumber? ∧
    (∀ release v, Version.ofRelease? release = some v → v.core.Fits) ∧
    (∀ c, Constraint.parse? text = some c →
      ∀ requirement ∈ c, ∀ comparator ∈ requirement, comparator.Fits) ∧
    (select releases text least = selectBy Constraint.checkedParse? releases text least ↔
      (Constraint.Overflows text → Constraint.parse? text = none)) ∧
    (Constraint.Overflows text →
      selectBy Constraint.checkedParse? releases text least = none ∧
      ∀ alternative ∈ Constraint.alternatives text, Constraint.HasTopTilde alternative →
        ∀ requirement, Constraint.requirement? alternative = some requirement →
          ∀ v, requirement.admits v = false) := by
  have refused (overflows : Constraint.Overflows text) :
      selectBy Constraint.checkedParse? releases text least = none :=
    (selectBy_eq_none (stated_of_overflows overflows) releases least).mpr
      (Constraint.checkedParse?_of_overflows overflows)
  refine ⟨Version.number?_eq_checkedNumber?, fun release v => Version.fits_of_ofRelease?,
    fun c => Constraint.fits_of_parse?, ?_, fun overflows => ⟨refused overflows,
      fun alternative _ top requirement => Constraint.admits_of_top top⟩⟩
  by_cases overflows : Constraint.Overflows text
  · rw [refused overflows, select_eq, selectBy_eq_none (stated_of_overflows overflows)]
    exact (imp_iff_right overflows).symm
  · rw [select_eq, selectBy_congr (Constraint.checkedParse?_of_not overflows).symm]
    exact iff_of_true rfl fun impossible => absurd impossible overflows

/-- Below the highest number a tilde has its bound, and the constraint is read as it should be. -/
theorem select_representable_redis :
    let releases := [⟨"18446744073709551614.2.0", .stable⟩, ⟨"5.3.1", .stable⟩]
    let text := "^4.0 || ~18446744073709551614.1"
    ¬Constraint.Overflows text ∧
      select releases text .stable = some (some "18446744073709551614.2.0") ∧
      select releases text .stable = selectBy Constraint.checkedParse? releases text .stable := by
  intro releases text
  have proper : ¬Constraint.Overflows text := by decide +kernel
  refine ⟨proper, by decide +kernel, ?_⟩
  exact (select_representable releases text .stable).2.2.2.1.mpr fun overflows =>
    absurd overflows proper

/-- Above the highest number the bound begins again at zero: no release is left, though the
constraint is none that has its bounds. -/
theorem select_begins_again :
    let releases := [⟨"18446744073709551615.2.0", .stable⟩, ⟨"5.3.1", .stable⟩]
    let text := "~18446744073709551615.1"
    Constraint.Overflows text ∧ select releases text .stable = some none ∧
      selectBy Constraint.checkedParse? releases text .stable = none := by
  decide +kernel

end Release
end ImageLock
