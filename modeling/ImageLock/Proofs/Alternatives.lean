/-
The alternatives of a constraint. No comparator has a bar in it, so that the bars of a text
that states a constraint stand between its alternatives only, and the alternatives of two
texts with bars between them are those of the first and those of the second.
-/
import ImageLock.Proofs.Comparators

namespace ImageLock

/-! Reading goes past no bar. -/

namespace Comparator

variable {text rest : List Char}

theorem bar_mem_dropSpaces (bar : '|' ∈ text) : '|' ∈ dropSpaces text := by
  rw [← List.takeWhile_append_dropWhile (p := (· == ' ')) (l := text), List.mem_append] at bar
  refine bar.resolve_left fun space => ?_
  exact absurd (List.all_eq_true.mp List.all_takeWhile _ space) (by decide)

theorem bar_mem_of_afterWildcard? (read : afterWildcard? text = some rest) (bar : '|' ∈ text) :
    '|' ∈ rest := by
  unfold afterWildcard? at read
  split at read <;> cases read <;> simpa using bar

/-- A bar is neither a sign nor part of a version. -/
theorem bar_mem_of_take {comparator : Comparator} (read : take text = some (comparator, rest))
    (bar : '|' ∈ text) : '|' ∈ rest := by
  obtain ⟨signs, version, rfl, known, knownVersion⟩ := take_spends read
  rcases List.mem_append.mp bar with sign | behind
  · exact absurd (known _ sign) (by decide)
  · rcases List.mem_append.mp behind with inside | remains
    · exact absurd (knownVersion _ inside) (by decide)
    · exact remains

end Comparator

namespace Requirement

open Comparator

theorem bar_notMem_of_takeAll {fuel : Nat} {text : List Char} {requirement : Requirement}
    (read : takeAll fuel text = some requirement) : '|' ∉ text := by
  induction fuel generalizing text requirement with
  | zero => cases read
  | succ fuel ih =>
      obtain ⟨⟨comparator, rest⟩, first, later⟩ := Option.bind_eq_some_iff.mp read
      intro bar
      have bar : '|' ∈ rest := bar_mem_of_take first bar
      dsimp only at later
      split at later
      · cases bar
      · obtain ⟨others, behind, -⟩ := Option.bind_eq_some_iff.mp later
        exact ih behind (bar_mem_dropSpaces (by simpa using bar))
      · cases later

theorem bar_notMem_of_parse? {text : List Char} {requirement : Requirement}
    (read : parse? text = some requirement) : '|' ∉ text := by
  intro bar
  have bar : '|' ∈ dropSpaces text := bar_mem_dropSpaces bar
  simp only [parse?] at read
  split at read
  · next rest wildcard =>
      have bar : '|' ∈ dropSpaces rest :=
        bar_mem_dropSpaces (bar_mem_of_afterWildcard? wildcard bar)
      split at read
      · next empty => simp [List.isEmpty_iff.mp empty] at bar
      · cases read
  · exact bar_notMem_of_takeAll read bar

end Requirement

/-! Alternatives. -/

namespace Constraint

/-- What an alternative demands of a version. -/
def requirement? (alternative : List Char) : Option Requirement :=
  Requirement.parse? (joinWords ((words alternative).map expandTilde))

theorem flatten_joinOperators (ws : List (List Char)) :
    (joinOperators ws).flatten = ws.flatten := by
  induction ws with
  | nil => rfl
  | cons word others ih =>
      rw [joinOperators, List.flatten_cons, ← ih]
      cases joinOperators others with
      | nil => simp
      | cons next rest => dsimp only; split <;> simp

/-- The words of an alternative are what it has beside separators. -/
theorem flatten_words (alternative : List Char) :
    (words alternative).flatten = alternative.filter fun c => !isSeparator c := by
  rw [words, flatten_joinOperators, List.flatten_filter_not_isEmpty, Text.flatten_splitWhere]

theorem exists_mem_word {alternative : List Char} {c : Char} (member : c ∈ alternative)
    (visible : isSeparator c = false) : ∃ word ∈ words alternative, c ∈ word := by
  apply List.mem_flatten.mp
  rw [flatten_words]
  exact List.mem_filter.mpr ⟨member, by simp [visible]⟩

theorem chars_of_number? {text : List Char} {n : Nat} (read : Version.number? text = some n) :
    ∀ c ∈ text, c = '+' ∨ Text.isDigit c = true := by
  have valid (digits : List Char) (some : ¬(digits.isEmpty || !digits.all Text.isDigit) = true) :
      ∀ c ∈ digits, Text.isDigit c = true := by
    have all : digits.all Text.isDigit = true := by simp_all
    exact List.all_eq_true.mp all
  simp only [Version.number?] at read
  split at read <;> split at read
  · cases read
  · intro c member
    rcases List.mem_cons.mp member with sign | digit
    · exact .inl sign
    · exact .inr (valid _ ‹_› c digit)
  · cases read
  · exact fun c member => .inr (valid _ ‹_› c member)

theorem bar_notMem_of_number? {text : List Char} {n : Nat}
    (read : Version.number? text = some n) : '|' ∉ text := by
  intro bar
  have known := chars_of_number? read _ bar
  revert known
  decide

/-- A tilde is spelled out with the numbers behind it. -/
theorem bar_mem_expandTilde {word : List Char} (bar : '|' ∈ word) : '|' ∈ expandTilde word := by
  unfold expandTilde
  split
  · next version =>
      split
      · exact bar
      · split
        · next first minor pieces =>
            split
            · next major read =>
                -- The first number is none with a bar in it, so that the bar is in the second.
                have inside : '|' ∈ (Text.splitWhere (· == '.') version).flatten := by
                  rw [Text.flatten_splitWhere]
                  simpa using bar
                rw [pieces] at inside
                have behind : '|' ∈ minor := by simpa [bar_notMem_of_number? read] using inside
                simp [behind]
            · exact bar
        · exact bar
  · exact bar

theorem subset_joinWords {word : List Char} {ws : List (List Char)} (member : word ∈ ws) :
    word ⊆ joinWords ws := by
  fun_induction joinWords ws with
  | case1 => cases member
  | case2 only => simp_all
  | case3 first others several ih =>
      rcases List.mem_cons.mp member with rfl | member
      · exact fun c inside => by simp [inside]
      · exact fun c inside => List.mem_append_right _ (ih member inside)

theorem bar_notMem_of_requirement? {alternative : List Char} {requirement : Requirement}
    (read : requirement? alternative = some requirement) : '|' ∉ alternative := by
  intro bar
  obtain ⟨word, member, bar⟩ := exists_mem_word bar rfl
  refine Requirement.bar_notMem_of_parse? read ?_
  exact subset_joinWords (List.mem_map_of_mem member) (bar_mem_expandTilde bar)

theorem parse?_eq_mapM (text : String) : parse? text = (alternatives text).mapM requirement? :=
  rfl

/-- Each alternative states a requirement of its own. -/
theorem forall₂_requirement? {text : String} {constraint : Constraint}
    (read : parse? text = some constraint) :
    List.Forall₂ (fun alternative requirement => requirement? alternative = some requirement)
      (alternatives text) constraint :=
  Requirement.mapM_eq_some.mp read

/-- All bars of a text stand between its alternatives. -/
def BarsBetween (text : String) : Prop := ∀ alternative ∈ alternatives text, '|' ∉ alternative

theorem barsBetween_of_parse? {text : String} {constraint : Constraint}
    (read : parse? text = some constraint) : BarsBetween text := by
  intro alternative member
  have each := forall₂_requirement? read
  clear read
  generalize alternatives text = pieces at each member
  induction each with
  | nil => cases member
  | cons first _ ih =>
      rcases List.mem_cons.mp member with rfl | member
      · exact bar_notMem_of_requirement? first
      · exact ih member

/-- A constraint admits what meets all comparators of one of its alternatives. -/
theorem admits_iff {text : String} {constraint : Constraint}
    (read : parse? text = some constraint) (v : Core) :
    constraint.admits v = true ↔ ∃ alternative ∈ alternatives text, ∃ requirement,
      requirement? alternative = some requirement ∧ ∀ c ∈ requirement, c.admits v = true := by
  have each := forall₂_requirement? read
  clear read
  generalize alternatives text = pieces at each
  induction each with
  | nil => simp [admits]
  | @cons first requirement others requirements reads _ ih =>
      have meets : requirement.admits v = true ↔ ∀ c ∈ requirement, c.admits v = true :=
        List.all_eq_true
      unfold admits at ih ⊢
      simp only [List.any_cons, Bool.or_eq_true, ih, meets, List.mem_cons, exists_eq_or_imp, reads,
        Option.some.injEq, exists_eq_left']

theorem words_concat_space (alternative : List Char) :
    words (alternative ++ [' ']) = words alternative := by
  rw [words, Text.splitWhere_append (by decide)]
  simp [Text.splitWhere, words]

theorem words_cons_space (alternative : List Char) :
    words (' ' :: alternative) = words alternative := by
  simp [words, Text.splitWhere, isSeparator]

theorem parse?_eq (text : String) : parse? text = ((alternatives text).map words).mapM fun ws =>
    Requirement.parse? (joinWords (ws.map expandTilde)) := by
  rw [List.mapM_map, parse?_eq_mapM]
  rfl

theorem map_alternatives_append_space {α : Type} {f : List Char → α}
    (uncounted : ∀ piece, f (piece ++ [' ']) = f piece) (text : String) :
    (alternatives (text ++ " ")).map f = (alternatives text).map f := by
  rw [alternatives, String.toList_append]
  exact Text.map_splitAtText_concat (by decide) uncounted [] (Nat.zero_le _)

theorem parse?_append_space (text : String) : parse? (text ++ " ") = parse? text := by
  rw [parse?_eq, parse?_eq, map_alternatives_append_space words_concat_space]

theorem parse?_space_append (text : String) : parse? (" " ++ text) = parse? text := by
  rw [parse?_eq, parse?_eq, alternatives, String.toList_append]
  exact congrArg _ (Text.map_piecesBetween_cons (by decide) words_cons_space text.toList)

theorem BarsBetween.append_space {text : String} (between : BarsBetween text) :
    BarsBetween (text ++ " ") := by
  have same := map_alternatives_append_space (f := ('|' ∈ ·)) (by simp) text
  intro alternative member bar
  have counted : True ∈ (alternatives text).map ('|' ∈ ·) := by
    rw [← same]
    exact List.mem_map.mpr ⟨alternative, member, eq_true bar⟩
  obtain ⟨piece, inside, marked⟩ := List.mem_map.mp counted
  exact between piece inside (of_eq_true marked)

theorem parse?_append_bars {first second : String} (between : BarsBetween first) :
    parse? (first ++ "||" ++ second) =
      (parse? first).bind fun left => (parse? second).map fun right => left ++ right := by
  have apart :
      alternatives (first ++ "||" ++ second) = alternatives first ++ alternatives second := by
    rw [alternatives, String.toList_append, String.toList_append, List.append_assoc]
    exact Text.splitAtText_append _ [] (Nat.zero_le _) between
  rw [parse?_eq_mapM, apart, List.mapM_append]
  exact bind_congr fun left => (Option.map_eq_bind ..).symm

/-- The requirements of a text with bars in it, which may have spaces beside them, are those
in front and those behind. -/
theorem parse?_either {first second bar : String} (between : BarsBetween first)
    (isBar : bar = "||" ∨ bar = " || ") :
    parse? (first ++ bar ++ second) =
      (parse? first).bind fun left => (parse? second).map fun right => left ++ right := by
  rcases isBar with rfl | rfl
  · exact parse?_append_bars between
  · have whole : first ++ " || " ++ second = first ++ " " ++ "||" ++ (" " ++ second) := by
      simp only [String.append_assoc]
      rfl
    rw [whole, parse?_append_bars between.append_space, parse?_append_space, parse?_space_append]

end Constraint
end ImageLock
