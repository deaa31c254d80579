/-
Constraints as they may be written: ranges with separators between them, alternatives with bars
between them, and spaces behind signs. A text is read as the ranges it was written for, and of
final releases the highest one among what is read is picked.
-/
import ImageLock.Proofs.Ranges
import ImageLock.Proofs.BestRelease

namespace ImageLock

namespace Range

open Constraint

/-! Texts. -/

/-- A range as it may be written. -/
inductive Writes : Range → List Char → Prop where
  | plain (v : Dotted) : Writes (.plain v) v.chars
  | signed (operator : Operator) (spaces : List Char) (blank : ∀ c ∈ spaces, c = ' ') (v : Dotted) :
      Writes (.signed operator v) (operator.sign ++ (spaces ++ v.chars))
  | anyPatch (major minor : Digits) :
      Writes (.anyPatch major minor) (major.chars ++ '.' :: (minor.chars ++ ['.', '*']))

/-- Rows with bars between them. -/
inductive WritesAll : List (List Range) → List Char → Prop where
  | last {row : List Range} {text : List Char} (writes : Row Writes row text) : WritesAll [row] text
  | cons {row : List Range} {rows : List (List Range)} {text rest : List Char}
      (writes : Row Writes row text) (others : WritesAll rows rest) :
      WritesAll (row :: rows) (text ++ ("||".toList ++ rest))

/-! Reading. -/

/-- A character of a version. -/
def IsNumeral (c : Char) : Prop := Text.isDigit c = true ∨ c = '.' ∨ c = '*'

theorem isNumeral_digits (d : Digits) : ∀ c ∈ d.chars, IsNumeral c :=
  fun c member => .inl (d.all c member)

theorem isNumeral_chars (v : Dotted) : ∀ c ∈ v.chars, IsNumeral c := by
  have behind (d : Option Digits) : ∀ c ∈ Dotted.behindDot d, IsNumeral c := by
    cases d with
    | none => exact List.forall_mem_nil _
    | some d => exact List.forall_mem_cons.mpr ⟨.inr (.inl rfl), isNumeral_digits d⟩
  exact List.forall_mem_append.mpr ⟨isNumeral_digits v.major,
    List.forall_mem_append.mpr ⟨behind v.minor?, behind v.patch?⟩⟩

theorem isWord_sign (operator : Operator) : IsWord operator.sign := by
  cases operator <;> exact ⟨nofun, forall_notSeparator rfl⟩

theorem all_sign (operator : Operator) : operator.sign.all isOperatorChar = true := by
  cases operator <;> rfl

/-- A range is signs and a version. -/
theorem word_eq (range : Range) : ∃ signs v, range.word = signs ++ v ∧ v ≠ [] ∧
    (∀ c ∈ signs, isOperatorChar c = true) ∧ ∀ c ∈ v, IsNumeral c := by
  have any (v : Dotted) : v.chars ≠ [] := by
    obtain ⟨c, rest, same, -⟩ := v.exists_cons
    simp [same]
  cases range with
  | plain v => exact ⟨[], v.chars, rfl, any v, List.forall_mem_nil _, isNumeral_chars v⟩
  | signed operator v =>
      exact ⟨operator.sign, v.chars, rfl, any v, List.all_eq_true.mp (all_sign operator),
        isNumeral_chars v⟩
  | anyPatch major minor =>
      refine ⟨[], major.chars ++ '.' :: (minor.chars ++ ['.', '*']), rfl,
        List.append_ne_nil_of_left_ne_nil major.nonempty _, List.forall_mem_nil _, ?_⟩
      simp only [List.forall_mem_append, List.forall_mem_cons]
      exact ⟨isNumeral_digits major, .inr (.inl rfl), isNumeral_digits minor, .inr (.inl rfl),
        .inr (.inr rfl), List.forall_mem_nil _⟩

theorem notSeparator_of_isNumeral {c : Char} (numeral : IsNumeral c) : isSeparator c = false := by
  rcases numeral with digit | rfl | rfl
  · exact notSeparator_of_isDigit digit
  · rfl
  · rfl

theorem notSign_of_isNumeral {c : Char} (numeral : IsNumeral c) : isOperatorChar c = false := by
  apply Bool.eq_false_iff.mpr
  intro sign
  rcases numeral with digit | rfl | rfl
  · rcases sign_cases sign with rfl | rfl | rfl | rfl | rfl | rfl <;> cases digit
  · cases sign
  · cases sign

theorem isWord_word (range : Range) : IsWord range.word := by
  obtain ⟨signs, v, same, any, sign, numeral⟩ := range.word_eq
  rw [same]
  refine ⟨List.append_ne_nil_of_right_ne_nil _ any, List.forall_mem_append.mpr ⟨?_, ?_⟩⟩
  · exact fun c member => notSeparator_of_sign (sign c member)
  · exact fun c member => notSeparator_of_isNumeral (numeral c member)

theorem not_signs_word (range : Range) : range.word.all isOperatorChar = false := by
  obtain ⟨signs, v, same, any, -, numeral⟩ := range.word_eq
  obtain ⟨c, rest, rfl⟩ := List.exists_cons_of_ne_nil any
  simp [same, notSign_of_isNumeral (numeral c List.mem_cons_self)]

theorem joinOperators_word (range : Range) (ws : List (List Char)) :
    joinOperators (tokens range.word ++ ws) = range.word :: joinOperators ws := by
  rw [tokens_word (isWord_word range)]
  exact joinOperators_cons_of_not (not_signs_word range) ws

/-- A range that is written in whatever way is the word that it is. -/
theorem joinOperators_writes {range : Range} {text : List Char} (writes : range.Writes text)
    (ws : List (List Char)) :
    joinOperators (tokens text ++ ws) = range.word :: joinOperators ws := by
  cases writes with
  | plain v => exact joinOperators_word (plain v) ws
  | anyPatch major minor => exact joinOperators_word (anyPatch major minor) ws
  | signed operator spaces blank v =>
      cases spaces with
      | nil => exact joinOperators_word (signed operator v) ws
      | cons c spaces =>
          have separates : ∀ d ∈ c :: spaces, isSeparator d = true :=
            fun d member => blank d member ▸ rfl
          rw [tokens_append (List.cons_ne_nil c spaces) separates,
            tokens_word (isWord_sign operator), List.append_assoc, List.singleton_append]
          exact joinOperators_cons_of_all (all_sign operator) (joinOperators_word (plain v) ws)

theorem words_of_row {row : List Range} {text : List Char} (writes : Row Writes row text) :
    words text = row.map word :=
  writes.words_eq fun _ _ written => joinOperators_writes written

/-- An alternative can be read if the row that it was written for can. -/
theorem requirement?_eq_none_iff {row : List Range} {text : List Char}
    (writes : Row Writes row text) : requirement? text = none ↔ ¬IsReadableRow row := by
  rw [← exists_requirement?_iff writes.ne_nil (words_of_row writes),
    ← Option.isSome_iff_exists, Option.not_isSome_iff_eq_none]

/-- A row accepts what all its ranges read. -/
theorem requirement?_admits_iff {row : List Range} {text : List Char} (writes : Row Writes row text)
    (readable : IsReadableRow row) (w : Core) : (∀ range ∈ row, range.Reads w) ↔
      ∃ requirement, requirement? text = some requirement ∧
        ∀ c ∈ requirement, c.admits w = true := by
  have same := words_of_row writes
  obtain ⟨requirement, read⟩ := (exists_requirement?_iff writes.ne_nil same).mpr readable
  simp [read, ← admits_row_iff writes.ne_nil same read, admits_iff_forall]

theorem bar_notMem_word (range : Range) : '|' ∉ range.word := by
  obtain ⟨signs, v, same, -, sign, numeral⟩ := range.word_eq
  rw [same, List.mem_append, not_or]
  constructor
  · intro bar
    exact absurd (sign _ bar) (by decide)
  · intro bar
    rcases numeral _ bar with digit | dot | star
    · cases digit
    · cases dot
    · cases star

theorem bar_notMem_of_row {row : List Range} {text : List Char}
    (writes : Row Writes row text) : '|' ∉ text := by
  intro bar
  obtain ⟨word, member, bar⟩ := exists_mem_word bar rfl
  rw [words_of_row writes] at member
  obtain ⟨range, -, rfl⟩ := List.mem_map.mp member
  exact bar_notMem_word range bar

/-- The alternatives of a text are its rows. -/
theorem forall₂_pieces {rows : List (List Range)} {text : List Char}
    (writes : WritesAll rows text) :
    List.Forall₂ (Row Writes) rows (Text.piecesBetween "||".toList text) := by
  induction writes with
  | last writes =>
      have alone := Text.piecesBetween_of_notMem (bar_notMem_of_row writes)
      exact alone ▸ .cons writes .nil
  | @cons row rows text rest writes _ ih =>
      have alone := Text.piecesBetween_of_notMem (bar_notMem_of_row writes)
      have unmarked : ∀ whole ∈ Text.piecesBetween ['|', '|'] text, '|' ∉ whole := by
        rw [alone]
        exact List.forall_mem_singleton.mpr (bar_notMem_of_row writes)
      have apart : Text.piecesBetween "||".toList (text ++ ("||".toList ++ rest)) =
          Text.piecesBetween ['|', '|'] text ++ Text.piecesBetween "||".toList rest :=
        Text.splitAtText_append rest [] (Nat.zero_le _) unmarked
      rw [apart, alone]
      exact .cons writes ih

end Range
end ImageLock
