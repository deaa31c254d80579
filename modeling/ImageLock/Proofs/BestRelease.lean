/-
The best release. What is picked qualifies and nothing that qualifies is higher, which fixes
how high the pick is: no order of the releases matters to it, more of them or a weaker
stability can only raise it, and of two alternatives it is the pick of the better one.
-/
import ImageLock.Proofs.Alternatives
import ImageLock.Proofs.Precedence
import ImageLock.Extensions.Release
import Mathlib.Order.MinMax

namespace ImageLock.Release

open Constraint

/-! What qualifies. -/

/-- A release of version `v` may be picked for a constraint. -/
structure Qualifies (text : String) (least : Stability) (r : Release) (v : Version) : Prop where
  stable : r.stability.rank ≤ least.rank
  version : Version.ofRelease? r.version = some v
  admitted : text ≠ "" → text ≠ "*" → ∃ alternative ∈ alternatives text, ∃ requirement,
    requirement? alternative = some requirement ∧ ∀ c ∈ requirement, c.admits v.core = true

/-- What is picked of releases for a constraint. -/
structure IsBest (releases : List Release) (text : String) (least : Stability)
    (best : Option String) : Prop where
  none_iff : best = none ↔ ∀ r ∈ releases, ∀ v, ¬Qualifies text least r v
  highest : ∀ version, best = some version → ∃ r ∈ releases, r.version = version ∧
    ∃ v, Qualifies text least r v ∧
      ∀ other ∈ releases, ∀ w, Qualifies text least other w → w.compare v ≠ .gt

variable {text : String} {least : Stability} {releases : List Release}

theorem constraint?_of_open (isOpen : text = "" ∨ text = "*") : constraint? text = some none := by
  rcases isOpen with rfl | rfl <;> rfl

theorem constraint?_of_stated (notEmpty : text ≠ "") (notStar : text ≠ "*") :
    constraint? text = (parse? text).map some := by
  simp [constraint?, notEmpty, notStar]

/-- The releases that remain are those that qualify. -/
theorem qualified?_iff {constraint : Option Constraint}
    (states : constraint? text = some constraint) {r : Release} {picked : Version × Release} :
    qualified? constraint least r = some picked ↔
      Qualifies text least r picked.1 ∧ picked.2 = r := by
  have admits (v : Version) : (constraint.all fun c => c.admits v.core) = true ↔
      (text ≠ "" → text ≠ "*" → ∃ alternative ∈ alternatives text, ∃ requirement,
        requirement? alternative = some requirement ∧
          ∀ c ∈ requirement, c.admits v.core = true) := by
    by_cases isOpen : text = "" ∨ text = "*"
    · cases (constraint?_of_open isOpen).symm.trans states
      simp only [Option.all_none, true_iff]
      exact fun notEmpty notStar => (isOpen.elim notEmpty notStar).elim
    · obtain ⟨notEmpty, notStar⟩ := not_or.mp isOpen
      rw [constraint?_of_stated notEmpty notStar] at states
      obtain ⟨c, read, rfl⟩ := Option.map_eq_some_iff.mp states
      simp [admits_iff read, notEmpty, notStar]
  have remains : qualified? constraint least r = some picked ↔ r.stability.rank ≤ least.rank ∧
      ∃ v, Version.ofRelease? r.version = some v ∧
        (constraint.all fun c => c.admits v.core) = true ∧ (v, r) = picked := by
    simp [qualified?, Stability.meets, Option.bind_eq_some_iff]
  rw [remains]
  constructor
  · rintro ⟨stable, v, version, admitted, rfl⟩
    exact ⟨⟨stable, version, (admits v).mp admitted⟩, rfl⟩
  · rintro ⟨qualifies, rfl⟩
    exact ⟨qualifies.stable, picked.1, qualifies.version, (admits _).mpr qualifies.admitted, rfl⟩

/-! The highest of versions. -/

theorem highest_eq_none {picked : List (Version × Release)} :
    highest picked = none ↔ picked = [] := by
  cases picked <;> simp [highest]

/-- Of two candidates one remains, and it is as high as both. -/
theorem higher_spec (best next : Version × Release) :
    let kept := if next.1.compare best.1 = .lt then best else next
    (kept = best ∨ kept = next) ∧ best.1 ≤ kept.1 ∧ next.1 ≤ kept.1 := by
  dsimp only
  split
  · next below => exact ⟨.inl rfl, le_rfl, le_of_lt (show next.1 < best.1 from below)⟩
  · next below => exact ⟨.inr rfl, not_lt.mp below, le_rfl⟩

theorem highest_spec {picked : List (Version × Release)} {best : Version × Release}
    (found : highest picked = some best) : best ∈ picked ∧ ∀ next ∈ picked, next.1 ≤ best.1 := by
  cases picked with
  | nil => cases found
  | cons first rest =>
      obtain rfl := Option.some.inj found
      clear found
      -- What is kept of the first two takes the place of the first.
      induction rest generalizing first with
      | nil => simp
      | cons second others ih =>
          rw [List.foldl_cons]
          obtain ⟨either, aboveFirst, aboveSecond⟩ := higher_spec first second
          obtain ⟨member, above⟩ := ih (if second.1.compare first.1 = .lt then first else second)
          have top := above _ List.mem_cons_self
          constructor
          · rcases List.mem_cons.mp member with same | inside
            · rw [same]
              rcases either with kept | kept <;> rw [kept] <;> simp
            · simp [inside]
          · refine List.forall_mem_cons.mpr ⟨aboveFirst.trans top, List.forall_mem_cons.mpr
              ⟨aboveSecond.trans top, fun next inside => ?_⟩⟩
            exact above next (List.mem_cons_of_mem _ inside)

theorem isSome_select (releases : List Release) (text : String) (least : Stability) :
    (select releases text least).isSome = (constraint? text).isSome := by
  rw [select]
  cases constraint? text <;> rfl

theorem isBest_of_select {best : Option String}
    (selected : select releases text least = some best) : IsBest releases text least best := by
  obtain ⟨constraint, states, same⟩ := Option.bind_eq_some_iff.mp selected
  cases same
  have remains (picked : Version × Release) :
      picked ∈ releases.filterMap (qualified? constraint least) ↔
        picked.2 ∈ releases ∧ Qualifies text least picked.2 picked.1 := by
    simp only [List.mem_filterMap, qualified?_iff states]
    exact ⟨fun ⟨r, member, qualifies, same⟩ => same ▸ ⟨member, qualifies⟩,
      fun ⟨member, qualifies⟩ => ⟨_, member, qualifies, rfl⟩⟩
  constructor
  · rw [Option.map_eq_none_iff, highest_eq_none, List.eq_nil_iff_forall_not_mem]
    simp only [remains, Prod.forall]
    exact ⟨fun none r member v qualifies => none v r ⟨member, qualifies⟩,
      fun none v r kept => none r kept.1 v kept.2⟩
  · intro version found
    obtain ⟨best, top, rfl⟩ := Option.map_eq_some_iff.mp found
    obtain ⟨member, above⟩ := highest_spec top
    obtain ⟨listed, qualifies⟩ := (remains best).mp member
    exact ⟨best.2, listed, rfl, best.1, qualifies, fun other listed w qualifies =>
      Version.le_iff.mp (above (w, other) ((remains _).mpr ⟨listed, qualifies⟩))⟩

/-! How high a pick is. -/

/-- The version that is picked; nothing is below all versions. -/
def height (best : Option String) : WithBot Version := best.bind Version.ofRelease?

/-- What is picked is as high as the highest of the releases that qualify. -/
theorem IsBest.height_le_iff {best : Option String} (isBest : IsBest releases text least best)
    {bound : WithBot Version} :
    height best ≤ bound ↔
      ∀ r ∈ releases, ∀ v, Qualifies text least r v → (v : WithBot Version) ≤ bound := by
  cases picked : best with
  | none =>
      have nothing := isBest.none_iff.mp picked
      exact ⟨fun _ r member v qualifies => absurd qualifies (nothing r member v), fun _ => bot_le⟩
  | some version =>
      obtain ⟨r, member, rfl, v, qualifies, above⟩ := isBest.highest version picked
      have here : height (some r.version) = (v : WithBot Version) := qualifies.version
      rw [here]
      refine ⟨fun below other listed w qualified => ?_, fun below => below r member v qualifies⟩
      have notAbove : w ≤ v := Version.le_iff.mpr (above other listed w qualified)
      exact (WithBot.coe_le_coe.mpr notAbove).trans below

theorem height_mono {others : List Release} {weaker : Stability} {best better : Option String}
    (more : releases ⊆ others) (weak : least.rank ≤ weaker.rank)
    (isBest : IsBest releases text least best) (isBetter : IsBest others text weaker better) :
    height best ≤ height better := by
  refine isBest.height_le_iff.mpr fun r member v qualifies => ?_
  refine isBetter.height_le_iff.mp le_rfl r (more member) v ?_
  exact { qualifies with stable := qualifies.stable.trans weak }

/-! Alternatives. -/

theorem parse?_empty : parse? "" = none := by decide +kernel

theorem parse?_star : parse? "*" = some [[]] := by decide +kernel

/-- Of the constraints only the empty one has no alternatives. -/
theorem isSome_parse?_iff (reads : (constraint? text).isSome = true) :
    (parse? text).isSome = true ↔ text ≠ "" := by
  by_cases empty : text = ""
  · simp [empty, parse?_empty]
  · by_cases star : text = "*"
    · simp [star, parse?_star]
    · rw [constraint?_of_stated empty star, Option.isSome_map] at reads
      exact iff_of_true reads empty

theorem barsBetween_of_constraint? (reads : (constraint? text).isSome = true) :
    BarsBetween text := by
  by_cases empty : text = ""
  · subst empty
    have only : alternatives "" = [[]] := by decide +kernel
    simp [BarsBetween, only]
  · obtain ⟨c, read⟩ := Option.isSome_iff_exists.mp ((isSome_parse?_iff reads).mpr empty)
    exact barsBetween_of_parse? read

/-- A constraint that is not empty is met as its alternatives are, an open one too. -/
theorem qualifies_iff_of_parse? {c : Constraint} (read : parse? text = some c) {r : Release}
    {v : Version} :
    Qualifies text least r v ↔ r.stability.rank ≤ least.rank ∧
      Version.ofRelease? r.version = some v ∧ c.admits v.core = true := by
  have notEmpty : text ≠ "" := by
    rintro rfl
    cases parse?_empty.symm.trans read
  have admitted : (text ≠ "" → text ≠ "*" → c.admits v.core = true) ↔ c.admits v.core = true := by
    refine ⟨fun admitted => ?_, fun admitted _ _ => admitted⟩
    by_cases star : text = "*"
    · subst star
      cases parse?_star.symm.trans read
      rfl
    · exact admitted notEmpty star
  rw [← admitted, admits_iff read]
  exact ⟨fun q => ⟨q.stable, q.version, q.admitted⟩, fun q => ⟨q.1, q.2.1, q.2.2⟩⟩

variable {first second bar : String}

/-- Constraints with bars between them are a constraint but for an empty one. -/
theorem constraint?_either (isBar : bar = "||" ∨ bar = " || ")
    (readsFirst : (constraint? first).isSome = true)
    (readsSecond : (constraint? second).isSome = true) :
    (constraint? (first ++ bar ++ second)).isSome = true ↔ first ≠ "" ∧ second ≠ "" := by
  have marked : '|' ∈ (first ++ bar ++ second).toList := by
    rcases isBar with rfl | rfl <;> simp
  have notEmpty : first ++ bar ++ second ≠ "" := fun same => by simp [same] at marked
  have notStar : first ++ bar ++ second ≠ "*" := fun same => by simp [same] at marked
  rw [constraint?_of_stated notEmpty notStar, Option.isSome_map,
    parse?_either (barsBetween_of_constraint? readsFirst) isBar, ← isSome_parse?_iff readsFirst,
    ← isSome_parse?_iff readsSecond]
  cases parse? first <;> cases parse? second <;> simp

/-- What qualifies for one of two constraints qualifies for them with bars between. -/
theorem qualifies_either (isBar : bar = "||" ∨ bar = " || ")
    (readsFirst : (constraint? first).isSome = true)
    (readsSecond : (constraint? second).isSome = true)
    (reads : (constraint? (first ++ bar ++ second)).isSome = true) {r : Release} {v : Version} :
    Qualifies (first ++ bar ++ second) least r v ↔
      Qualifies first least r v ∨ Qualifies second least r v := by
  obtain ⟨stated, stated'⟩ := (constraint?_either isBar readsFirst readsSecond).mp reads
  obtain ⟨left, readLeft⟩ :=
    Option.isSome_iff_exists.mp ((isSome_parse?_iff readsFirst).mpr stated)
  obtain ⟨right, readRight⟩ :=
    Option.isSome_iff_exists.mp ((isSome_parse?_iff readsSecond).mpr stated')
  have read : parse? (first ++ bar ++ second) = some (left ++ right) := by
    rw [parse?_either (barsBetween_of_constraint? readsFirst) isBar, readLeft, readRight]
    rfl
  rw [qualifies_iff_of_parse? read, qualifies_iff_of_parse? readLeft,
    qualifies_iff_of_parse? readRight]
  simp only [admits, List.any_append, Bool.or_eq_true, and_or_left]

theorem height_either (isBar : bar = "||" ∨ bar = " || ") {best other either : Option String}
    (selected : select releases first least = some best)
    (selectedOther : select releases second least = some other)
    (selectedEither : select releases (first ++ bar ++ second) least = some either) :
    height either = max (height best) (height other) := by
  have reads {text : String} {best : Option String}
      (selected : select releases text least = some best) : (constraint? text).isSome = true := by
    rw [← isSome_select releases text least, selected]
    rfl
  -- Both sides have the same bounds, those of all that qualifies for either constraint.
  refine eq_of_forall_ge_iff fun bound => ?_
  rw [max_le_iff, (isBest_of_select selectedEither).height_le_iff,
    (isBest_of_select selected).height_le_iff, (isBest_of_select selectedOther).height_le_iff]
  simp only [qualifies_either isBar (reads selected) (reads selectedOther) (reads selectedEither),
    or_imp, forall_and]

/-! The pick. -/

/-- What is picked is the best release, and nothing but how good the releases are matters to
how high it is. -/
theorem select_best {text : String} (reads : (constraint? text).isSome = true)
    (releases : List Release) (least : Stability) :
    (∃ best, select releases text least = some best ∧ IsBest releases text least best) ∧
    (∀ others, releases.Perm others →
      (select others text least).map height = (select releases text least).map height) ∧
    (∀ others weaker best better, releases ⊆ others → least.rank ≤ weaker.rank →
      select releases text least = some best → select others text weaker = some better →
      height best ≤ height better) ∧
    ∀ bar, bar = "||" ∨ bar = " || " → ∀ second, (constraint? second).isSome = true →
      ((constraint? (text ++ bar ++ second)).isSome = true ↔ text ≠ "" ∧ second ≠ "") ∧
      ∀ best other either, select releases text least = some best →
        select releases second least = some other →
        select releases (text ++ bar ++ second) least = some either →
        height either = max (height best) (height other) := by
  have selects (releases : List Release) : ∃ best, select releases text least = some best := by
    rw [← isSome_select releases text least] at reads
    exact Option.isSome_iff_exists.mp reads
  have raises {releases others : List Release} {weaker : Stability} {best better : Option String}
      (more : releases ⊆ others) (weak : least.rank ≤ weaker.rank)
      (selected : select releases text least = some best)
      (selectedBetter : select others text weaker = some better) : height best ≤ height better :=
    height_mono more weak (isBest_of_select selected) (isBest_of_select selectedBetter)
  refine ⟨?_, fun others permuted => ?_,
    fun others weaker best better more weak => raises more weak,
    fun bar isBar second readsSecond => ⟨constraint?_either isBar reads readsSecond,
      fun best other either => height_either isBar⟩⟩
  · obtain ⟨best, selected⟩ := selects releases
    exact ⟨best, selected, isBest_of_select selected⟩
  · obtain ⟨best, selected⟩ := selects releases
    obtain ⟨better, selectedBetter⟩ := selects others
    rw [selected, selectedBetter]
    exact congrArg some (le_antisymm (raises permuted.symm.subset le_rfl selectedBetter selected)
      (raises permuted.subset le_rfl selected selectedBetter))

/-- Releases of redis, of which two lines are asked for. -/
theorem select_best_redis :
    let releases : List Release := [⟨"6.0.0RC1", .beta⟩, ⟨"5.1.0RC2", .beta⟩, ⟨"5.1.1", .stable⟩,
      ⟨"4.3.0", .stable⟩, ⟨"4.3.0.1", .stable⟩]
    (constraint? "^4.0").isSome = true ∧ IsBest releases "^4.0" .beta (some "4.3.0") ∧
      height (some "5.1.1") = max (height (some "4.3.0")) (height (some "5.1.1")) := by
  intro releases
  have reads : (constraint? "^4.0").isSome = true := by decide +kernel
  have reads' : (constraint? "~5.1.0").isSome = true := by decide +kernel
  have selected : select releases "^4.0" .beta = some (some "4.3.0") := by decide +kernel
  obtain ⟨⟨best, picked, isBest⟩, -, -, bars⟩ := select_best reads releases .beta
  cases selected.symm.trans picked
  exact ⟨reads, isBest, (bars " || " (.inr rfl) "~5.1.0" reads').2 _ _ _ selected
    (by decide +kernel) (by decide +kernel)⟩

end ImageLock.Release
