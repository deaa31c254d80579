/-
What is picked for ranges. Of final releases it is the highest one among the versions that are
read, and those are the ones a package manager means where no range is misread.
-/
import ImageLock.Proofs.RangeTexts

namespace ImageLock

/-! Final releases. -/

namespace Numbered

/-- The numbers of a release have no more than 64 bits. -/
def Counts (n : Numbered) : Prop := ∀ d ∈ [n.major, n.minor, n.patch], d.value < Version.numberBound

theorem core?_numbers (n : Numbered) : Version.core? n.numbers = some n.core ↔ n.Counts := by
  simp only [Version.core?, splitWhere_numbers, Digits.number?_chars, Counts]
  by_cases major : n.major.value < Version.numberBound
  · by_cases minor : n.minor.value < Version.numberBound
    · by_cases patch : n.patch.value < Version.numberBound
      · simp [major, minor, patch, core]
      · simp [major, minor, patch]
    · simp [major, minor]
  · simp [major]

/-- A final release counts as the version of its numbers. -/
theorem ofRelease?_final {n : Numbered} (final : n.milestone = none) {v : Version} :
    Version.ofRelease? n.text = some v ↔ n.Counts ∧ v = ⟨n.core, []⟩ := by
  have nothing : n.suffix.isEmpty = true := by simp [suffix, final]
  simp only [ofRelease?_text, nothing, if_true, ← core?_numbers]
  cases read : Version.core? n.numbers with
  | none => simp
  | some core =>
      rw [eq_core_of_core? read]
      simp [eq_comm]

end Numbered

namespace Range

/-- The versions that rows are read as. -/
def Read (rows : List (List Range)) (w : Core) : Prop := ∃ row ∈ rows, ∀ range ∈ row, range.Reads w

/-- The versions that a package manager means by rows. -/
def Denoted (rows : List (List Range)) (w : Core) : Prop :=
  ∃ row ∈ rows, ∀ range ∈ row, range.Denotes w

theorem read_iff_denoted {rows : List (List Range)}
    (proper : ∀ row ∈ rows, ∀ range ∈ row, ¬range.Misread) (w : Core) :
    Read rows w ↔ Denoted rows w := by
  refine exists_congr fun row => and_congr_right fun member => ?_
  exact forall₂_congr fun range inside =>
    (reads_iff_denotes range).mpr (proper row member range inside) w

end Range

/-- The highest release of a set. -/
structure IsHighest (releases : List Numbered) (among : Core → Prop) (best : Option String) :
    Prop where
  none_iff : best = none ↔ ∀ n ∈ releases, n.Counts → ¬among n.core
  highest : ∀ version, best = some version → ∃ n ∈ releases, n.text = version ∧ n.Counts ∧
    among n.core ∧ ∀ other ∈ releases, other.Counts → among other.core → other.core ≤ n.core

namespace Range

open Constraint

variable {rows : List (List Range)} {text : String}

theorem exists_forall₂_iff {α β : Type} {related : α → β → Prop} {holds : α → Prop}
    {holds' : β → Prop} {as : List α} {bs : List β} (each : List.Forall₂ related as bs)
    (same : ∀ a ∈ as, ∀ b, related a b → (holds a ↔ holds' b)) :
    (∃ a ∈ as, holds a) ↔ ∃ b ∈ bs, holds' b := by
  induction each with
  | nil => simp
  | cons first _ ih =>
      obtain ⟨sameFirst, sameOthers⟩ := List.forall_mem_cons.mp same
      simp [sameFirst _ first, ih sameOthers]

/-- A text can be read if all its rows can. -/
theorem parse?_eq_none_iff (writes : WritesAll rows text.toList) :
    parse? text = none ↔ ∃ row ∈ rows, ¬IsReadableRow row := by
  have unread : parse? text = none ↔ ∃ piece ∈ alternatives text, requirement? piece = none := by
    constructor
    · intro none
      by_contra all
      push Not at all
      obtain ⟨constraint, reads⟩ := mapM_of_exists fun piece member =>
        Option.ne_none_iff_exists'.mp (all piece member)
      cases none.symm.trans reads
    · rintro ⟨piece, member, none⟩
      by_contra some
      obtain ⟨constraint, reads⟩ := Option.ne_none_iff_exists'.mp some
      obtain ⟨requirement, read⟩ := exists_of_mapM reads piece member
      cases none.symm.trans read
  rw [unread]
  exact (exists_forall₂_iff (forall₂_pieces writes) fun row _ piece writes =>
    (requirement?_eq_none_iff writes).symm).symm

/-- No text of ranges is open. -/
theorem stated_of_writesAll (writes : WritesAll rows text.toList) : text ≠ "" ∧ text ≠ "*" := by
  have each := forall₂_pieces writes
  constructor
  · rintro rfl
    have nothing : Text.piecesBetween "||".toList "".toList = [[]] := rfl
    rw [nothing] at each
    cases each with
    | cons first _ =>
        have words := words_of_row first
        exact first.ne_nil (List.map_eq_nil_iff.mp words.symm)
  · rintro rfl
    have star : Text.piecesBetween "||".toList "*".toList = [['*']] := rfl
    rw [star] at each
    cases each with
    | @cons row _ _ _ first _ =>
        have words := words_of_row first
        exact not_isWildcard row (words ▸ ⟨['*'], rfl, rfl⟩)

theorem qualifies_iff (writes : WritesAll rows text.toList)
    (readable : ∀ row ∈ rows, IsReadableRow row) (least : Stability) {n : Numbered}
    (final : n.milestone = none) {v : Version} :
    Release.Qualifies text least (Release.ofNumbered (n, .stable)) v ↔
      n.Counts ∧ v = ⟨n.core, []⟩ ∧ Read rows n.core := by
  have admits (w : Core) : Read rows w ↔ ∃ alternative ∈ alternatives text, ∃ requirement,
      requirement? alternative = some requirement ∧ ∀ c ∈ requirement, c.admits w = true :=
    exists_forall₂_iff (forall₂_pieces writes) fun row member piece writes =>
      requirement?_admits_iff writes (readable row member) w
  constructor
  · rintro ⟨-, version, admitted⟩
    obtain ⟨counts, rfl⟩ := (Numbered.ofRelease?_final final).mp version
    obtain ⟨notEmpty, notStar⟩ := stated_of_writesAll writes
    exact ⟨counts, rfl, (admits n.core).mpr (admitted notEmpty notStar)⟩
  · rintro ⟨counts, rfl, read⟩
    exact ⟨Nat.zero_le _, (Numbered.ofRelease?_final final).mpr ⟨counts, rfl⟩,
      fun _ _ => (admits n.core).mp read⟩

end Range

open Constraint Range

theorem Version.final_le_iff {a b : Core} :
    Version.compare ⟨a, []⟩ ⟨b, []⟩ ≠ .gt ↔ a ≤ b := by
  change (a.compare b).then .eq ≠ .gt ↔ a.compare b ≠ .gt
  rw [Ordering.then_eq]

namespace Release

variable {rows : List (List Range)} {text : String} {least : Stability} {finals : List Numbered}

theorem isHighest_of_isBest (writes : WritesAll rows text.toList)
    (readable : ∀ row ∈ rows, IsReadableRow row) (final : ∀ n ∈ finals, n.milestone = none)
    {best : Option String}
    (isBest : IsBest (finals.map fun n => ofNumbered (n, .stable)) text least best) :
    IsHighest finals (Read rows) best := by
  have qualifies {n : Numbered} (member : n ∈ finals) {v : Version} :=
    qualifies_iff writes readable least (final n member) (v := v)
  constructor
  · rw [isBest.none_iff, List.forall_mem_map]
    refine forall₂_congr fun n member => ?_
    simp [qualifies member]
  · intro version found
    obtain ⟨r, listed, same, v, qualified, above⟩ := isBest.highest version found
    obtain ⟨n, member, rfl⟩ := List.mem_map.mp listed
    obtain ⟨counts, rfl, read⟩ := (qualifies member).mp qualified
    refine ⟨n, member, same, counts, read, fun other inside counted among => ?_⟩
    exact Version.final_le_iff.mp (above _ (List.mem_map_of_mem inside) _
      ((qualifies inside).mpr ⟨counted, rfl, among⟩))

/-- Of final releases the highest one that is read is picked, for any ranges that can be read,
and it is the highest one that a package manager means unless a range is misread. -/
theorem select_ranges (writes : WritesAll rows text.toList)
    (final : ∀ n ∈ finals, n.milestone = none) :
    let picked := select (finals.map fun n => ofNumbered (n, .stable)) text least
    (picked = none ↔ ∃ row ∈ rows, ¬IsReadableRow row) ∧
      (∀ best, picked = some best → IsHighest finals (Read rows) best ∧
        ((∀ row ∈ rows, ∀ range ∈ row, ¬range.Misread) → IsHighest finals (Denoted rows) best)) ∧
      ∀ range : Range, (∀ w, range.Reads w ↔ range.Denotes w) ↔ ¬range.Misread := by
  intro picked
  obtain ⟨notEmpty, notStar⟩ := stated_of_writesAll writes
  have unread : picked = none ↔ ∃ row ∈ rows, ¬IsReadableRow row := by
    rw [← Option.isNone_iff_eq_none, ← Option.not_isSome, isSome_select,
      constraint?_of_stated notEmpty notStar, Option.isSome_map, Option.not_isSome,
      Option.isNone_iff_eq_none]
    exact parse?_eq_none_iff writes
  refine ⟨unread, fun best selected => ?_, reads_iff_denotes⟩
  have readable : ∀ row ∈ rows, IsReadableRow row := by
    by_contra not
    push Not at not
    cases (unread.mpr not).symm.trans selected
  have highest := isHighest_of_isBest writes readable final (isBest_of_select selected)
  refine ⟨highest, fun proper => ?_⟩
  have same : Read rows = Denoted rows := funext fun w => propext (read_iff_denoted proper w)
  exact same ▸ highest

/-- Releases of two lines of versions, of which the one between the bounds is picked. -/
theorem select_ranges_redis :
    let whole (major minor patch : Nat) : Dotted :=
      .three (.ofNat major) (.ofNat minor) (.ofNat patch)
    let final (major minor patch : Nat) : Numbered :=
      ⟨.ofNat major, .ofNat minor, .ofNat patch, none⟩
    let rows : List (List Range) := [[.signed .caret (.two (.ofNat 4) (.ofNat 0))],
      [.signed .greaterEq (.one (.ofNat 5)), .signed .less (whole 5 3 1)]]
    let finals := [final 5 3 1, final 5 1 1, final 5 1 0, final 4 3 0]
    let text := "^4.0 || >= 5,<5.3.1"
    let picked := select (finals.map fun n => ofNumbered (n, .stable)) text .stable
    WritesAll rows text.toList ∧ (∀ n ∈ finals, n.milestone = none) ∧
      picked = some (some "5.1.1") ∧ IsHighest finals (Read rows) (some "5.1.1") ∧
      IsHighest finals (Denoted rows) (some "5.1.1") := by
  intro whole final rows finals text picked
  have bare : ∀ c ∈ [], isSeparator c = true := List.forall_mem_nil _
  have blank : ∀ c ∈ [' '], isSeparator c = true := List.all_eq_true.mp rfl
  have writes : WritesAll rows text.toList := by
    have first := Row.last [] bare
      (Writes.signed .caret [] (List.forall_mem_nil _) (.two (.ofNat 4) (.ofNat 0))) [' '] blank
    have lower := Writes.signed .greaterEq [' '] (List.forall_mem_singleton.mpr rfl)
      (.one (.ofNat 5))
    have upper := Writes.signed .less [] (List.forall_mem_nil _) (whole 5 3 1)
    have second := Row.cons [' '] blank lower [','] (List.cons_ne_nil _ _)
      (List.forall_mem_singleton.mpr rfl) (.last [] bare upper [] bare)
    refine cast (congrArg (WritesAll rows) ?_) (WritesAll.cons first (.last second))
    decide +kernel
  have selected : picked = some (some "5.1.1") := by
    decide +kernel
  have finished : ∀ n ∈ finals, n.milestone = none := by
    simp [finals, final]
  obtain ⟨highest, denoted⟩ := (select_ranges writes finished).2.1 _ selected
  refine ⟨writes, finished, selected, highest, denoted ?_⟩
  simp [rows, Misread]

/-- Of two versions that stand for themselves a third one is picked that neither of them is, and
nothing is picked above two numbers though there is a later patch. -/
theorem select_not_denoted :
    let final (major minor patch : Nat) : Numbered :=
      ⟨.ofNat major, .ofNat minor, .ofNat patch, none⟩
    let either : List (List Range) := [[.plain (.three (.ofNat 5) (.ofNat 1) (.ofNat 0))],
      [.plain (.three (.ofNat 4) (.ofNat 3) (.ofNat 0))]]
    let above : List (List Range) := [[.signed .greater (.two (.ofNat 5) (.ofNat 1))]]
    let finals := [final 5 3 1, final 5 1 0, final 4 3 0]
    let patches := [final 5 1 1, final 5 1 0]
    (WritesAll either "5.1.0 || 4.3.0".toList ∧ Constraint.isExact "5.1.0" = true ∧
      select (finals.map fun n => ofNumbered (n, .stable)) "5.1.0 || 4.3.0" .stable =
        some (some "5.3.1") ∧ ¬IsHighest finals (Denoted either) (some "5.3.1")) ∧
      WritesAll above ">5.1".toList ∧
      select (patches.map fun n => ofNumbered (n, .stable)) ">5.1" .stable = some none ∧
        ¬IsHighest patches (Denoted above) none := by
  intro final either above finals patches
  have bare : ∀ c ∈ [], isSeparator c = true := List.forall_mem_nil _
  refine ⟨⟨?_, by decide +kernel, by decide +kernel, fun highest => ?_⟩, ?_, by decide +kernel,
    fun highest => ?_⟩
  · have blank : ∀ c ∈ [' '], isSeparator c = true := List.all_eq_true.mp rfl
    have first := Row.last [] bare
      (Writes.plain (.three (.ofNat 5) (.ofNat 1) (.ofNat 0))) [' '] blank
    have second := Row.last [' '] blank
      (Writes.plain (.three (.ofNat 4) (.ofNat 3) (.ofNat 0))) [] bare
    refine cast (congrArg (WritesAll either) ?_) (WritesAll.cons first (.last second))
    decide +kernel
  · obtain ⟨n, member, text, -, denoted, -⟩ := highest.highest _ rfl
    have listed : n = final 5 3 1 ∨ n = final 5 1 0 ∨ n = final 4 3 0 := by
      simpa [finals] using member
    rcases listed with rfl | rfl | rfl
    · simp [either, Denoted, Denotes, Numbered.core, final, Dotted.core, Dotted.major,
        Dotted.minor?, Dotted.patch?, Digits.value_ofNat] at denoted
    · exact absurd text (by decide +kernel)
    · exact absurd text (by decide +kernel)
  · have first := Row.last [] bare
      (Writes.signed .greater [] (List.forall_mem_nil _) (.two (.ofNat 5) (.ofNat 1))) [] bare
    refine cast (congrArg (WritesAll above) ?_) (WritesAll.last first)
    decide +kernel
  · refine highest.none_iff.mp rfl (final 5 1 1) (by simp [patches]) ?_ ?_
    · simp [Numbered.Counts, final, Digits.value_ofNat, Version.numberBound]
    · simp [above, Denoted, Denotes, Core.lt_iff, Numbered.core, final, Dotted.core, Dotted.major,
        Dotted.minor?, Dotted.patch?, Digits.value_ofNat]

end Release
end ImageLock
