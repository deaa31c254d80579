/-
The order of versions. Precedence compares numbers, then identifiers one after the other,
then their characters; each of these orders is linear, and no two versions are of the same
height.
-/
import ImageLock.Version.Basic
import Mathlib.Order.WithBot

namespace ImageLock

open Std

variable {α β : Type} {cmp : β → β → Ordering}

/-- What values are compared by keeps an order of theirs transitive. -/
theorem transCmp_on [TransCmp cmp] (key : α → β) : TransCmp fun a b => cmp (key a) (key b) where
  eq_swap := OrientedCmp.eq_swap
  isLE_trans := TransCmp.isLE_trans

namespace Core

theorem compare_eq : compare = compareLex (compareLex (compareOn major) (compareOn minor))
    (compareOn patch) := rfl

instance : TransCmp compare := compare_eq ▸ inferInstance

instance : LawfulEqCmp compare where
  compare_self := ReflCmp.compare_self
  eq_of_compare {a b} same := by
    obtain ⟨majorMinor, patch⟩ := Ordering.then_eq_eq.mp same
    obtain ⟨major, minor⟩ := Ordering.then_eq_eq.mp majorMinor
    cases a
    cases b
    simp_all [LawfulEqCmp.compare_eq_iff_eq]

end Core

namespace Prerelease

theorem compareChars_eq : compareChars = List.compareLex (compareOn Char.toNat) := by
  funext a b
  induction a generalizing b with
  | nil => cases b <;> rfl
  | cons x rest ih =>
      cases b with
      | nil => rfl
      | cons y others => rw [compareChars, List.compareLex_cons_cons, ih, compareOn]

instance : TransCmp compareChars := compareChars_eq ▸ inferInstance

instance : LawfulEqCmp compareChars where
  compare_self := ReflCmp.compare_self
  eq_of_compare {a b} same := by
    induction a generalizing b with
    | nil => cases b <;> first | rfl | cases same
    | cons x rest ih =>
        cases b with
        | nil => cases same
        | cons y others =>
            obtain ⟨first, later⟩ := Ordering.then_eq_eq.mp same
            rw [Char.toNat_inj.mp (LawfulEqCmp.eq_of_compare first), ih later]

/-- Numbers come before words, and shorter numbers before longer ones. -/
theorem compareIdentifiers_eq : compareIdentifiers =
    compareLex (compareOn fun identifier => (!isNumeric identifier).toNat)
      (compareLex
        (compareOn fun identifier => if isNumeric identifier then identifier.length else 0)
        compareChars) := by
  funext a b
  cases left : isNumeric a <;> cases right : isNumeric b <;>
    simp [compareIdentifiers, compareLex, compareOn, left, right] <;> rfl

instance : TransCmp compareIdentifiers := compareIdentifiers_eq ▸ inferInstance

instance : LawfulEqCmp compareIdentifiers where
  compare_self := ReflCmp.compare_self
  eq_of_compare {a b} same := by
    rw [compareIdentifiers_eq] at same
    obtain ⟨-, rest⟩ := Ordering.then_eq_eq.mp same
    exact LawfulEqCmp.eq_of_compare (Ordering.then_eq_eq.mp rest).2

theorem compareLists_eq : compareLists = List.compareLex compareIdentifiers := by
  funext a b
  induction a generalizing b with
  | nil => cases b <;> rfl
  | cons x rest ih =>
      cases b with
      | nil => rfl
      | cons y others => rw [compareLists, List.compareLex_cons_cons, ih]

theorem compare_eq : compare = compareLex (compareOn fun p => p.isEmpty.toNat) compareLists := by
  funext a b
  cases a <;> cases b <;> rfl

instance : TransCmp compare := by
  rw [compare_eq, compareLists_eq]
  infer_instance

instance : LawfulEqCmp compare where
  compare_self := ReflCmp.compare_self
  eq_of_compare {a b} same := by
    rw [compare_eq, compareLists_eq] at same
    exact LawfulEqCmp.eq_of_compare (Ordering.then_eq_eq.mp same).2

end Prerelease

namespace Version

instance : TransCmp compare :=
  have : TransCmp fun a b : Version => a.core.compare b.core := transCmp_on Version.core
  have : TransCmp fun a b : Version => Prerelease.compare a.prerelease b.prerelease :=
    transCmp_on Version.prerelease
  inferInstanceAs (TransCmp (compareLex _ _))

instance : LawfulEqCmp compare where
  compare_self := ReflCmp.compare_self
  eq_of_compare {a b} same := by
    obtain ⟨core, prerelease⟩ := Ordering.then_eq_eq.mp same
    have core : a.core = b.core := LawfulEqCmp.eq_of_compare core
    have prerelease : a.prerelease = b.prerelease := LawfulEqCmp.eq_of_compare prerelease
    cases a
    cases b
    rw [mk.injEq]
    exact ⟨core, prerelease⟩

/-- Precedence is linear. -/
instance : LinearOrder Version where
  le a b := (a.compare b).isLE = true
  lt a b := a.compare b = .lt
  compare := compare
  le_refl _ := ReflCmp.isLE_rfl
  le_trans _ _ _ := TransCmp.isLE_trans
  le_antisymm _ _ above below := LawfulEqCmp.eq_of_compare (OrientedCmp.isLE_antisymm above below)
  le_total a b := by
    rw [show b.compare a = (a.compare b).swap from OrientedCmp.eq_swap]
    cases a.compare b <;> simp
  lt_iff_le_not_ge a b := by
    rw [show b.compare a = (a.compare b).swap from OrientedCmp.eq_swap]
    cases a.compare b <;> simp
  toDecidableLE _ _ := inferInstanceAs (Decidable (_ = _))
  toDecidableEq := inferInstance
  compare_eq_compareOfLessAndEq a b := by
    have equal : a = b ↔ a.compare b = .eq := LawfulEqCmp.compare_eq_iff_eq.symm
    unfold compareOfLessAndEq
    simp only [equal]
    cases a.compare b <;> simp

/-- What does not come after another version is not higher. -/
theorem le_iff {a b : Version} : a ≤ b ↔ a.compare b ≠ .gt := by
  change (a.compare b).isLE = true ↔ _
  cases a.compare b <;> simp

end Version
end ImageLock
