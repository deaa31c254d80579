/-
Versions of one to three numbers, as comparators have them. Their numbers are read if they have
no zeros in front and no more than 64 bits, and each operator compares those numbers that are
there.
-/
import ImageLock.Proofs.Comparators
import ImageLock.Proofs.NumberedReleases

namespace ImageLock

namespace Core

instance : LT Core where
  lt a b := a.compare b = .lt

instance : LE Core where
  le a b := a.compare b ≠ .gt

theorem lt_iff {a b : Core} : a < b ↔ a.major < b.major ∨ a.major = b.major ∧
    (a.minor < b.minor ∨ a.minor = b.minor ∧ a.patch < b.patch) := by
  change a.compare b = .lt ↔ _
  simp only [compare, Ordering.then_eq_lt, Ordering.then_eq_eq, Nat.compare_eq_lt,
    Nat.compare_eq_eq]
  omega

theorem le_iff {a b : Core} : a ≤ b ↔ a.major < b.major ∨ a.major = b.major ∧
    (a.minor < b.minor ∨ a.minor = b.minor ∧ a.patch ≤ b.patch) := by
  change a.compare b ≠ .gt ↔ _
  simp only [compare, ne_eq, Ordering.then_eq_gt, Ordering.then_eq_eq, Nat.compare_eq_gt,
    Nat.compare_eq_eq]
  omega

theorem le_rfl {a : Core} : a ≤ a := by
  simp [le_iff]

end Core

namespace Digits

/-- A number without zeros in front that has 64 bits. -/
def IsPlain (d : Digits) : Prop :=
  (d.chars.head? = some '0' → d.chars.length = 1) ∧ d.value < Version.numberBound

instance (d : Digits) : Decidable d.IsPlain := inferInstanceAs (Decidable (_ ∧ _))

theorem number?_chars (d : Digits) :
    Version.number? d.chars = if d.value < Version.numberBound then some d.value else none := by
  have unsigned : ∀ rest, d.chars ≠ '+' :: rest := fun rest same =>
    (Numbered.other_of_isDigit (d.all '+' (by simp [same]))).2.2.2 rfl
  have digits : (d.chars.isEmpty || !d.chars.all Text.isDigit) = false := by
    rw [Bool.or_eq_false_iff, List.isEmpty_eq_false_iff, Bool.not_eq_false', List.all_eq_true]
    exact ⟨d.nonempty, d.all⟩
  simp only [Version.number?]
  -- Digits have no sign in front, so that they are read as they are.
  split
  · next none => exact absurd none (by simp [digits])
  · rfl

theorem takeNumber_append (d : Digits) {rest : List Char} (stops : Number.StopsDigits rest) :
    Comparator.takeNumber (d.chars ++ rest) = if d.IsPlain then some (d.value, rest) else none := by
  have digits := Number.takeWhile_digits rest d.all stops
  have any : 0 < d.chars.length := List.length_pos_iff.mpr d.nonempty
  have zeros : (decide (1 < d.chars.length) && d.chars.head? == some '0') = true ↔
      ¬(d.chars.head? = some '0' → d.chars.length = 1) := by
    by_cases zero : d.chars.head? = some '0' <;> simp [zero]
    omega
  simp only [Comparator.takeNumber, digits, List.drop_left, number?_chars, zeros]
  by_cases single : d.chars.head? = some '0' → d.chars.length = 1
  · have plain : d.IsPlain ↔ d.value < Version.numberBound := and_iff_right single
    rw [if_neg (not_not_intro single)]
    simp only [plain]
    split <;> rfl
  · rw [if_pos single, if_neg fun plain : d.IsPlain => single plain.1]

theorem ne_of_isDigit {c d : Char} (digit : Text.isDigit c = true)
    (other : Text.isDigit d = false) : c ≠ d := by
  rintro rfl
  rw [digit] at other
  cases other

/-- A digit comes first. -/
theorem exists_cons (d : Digits) : ∃ c rest, d.chars = c :: rest ∧ Text.isDigit c = true := by
  obtain ⟨c, rest, same⟩ := List.exists_cons_of_ne_nil d.nonempty
  exact ⟨c, rest, same, d.all c (by simp [same])⟩

theorem dropSpaces_append (d : Digits) (rest : List Char) :
    Comparator.dropSpaces (d.chars ++ rest) = d.chars ++ rest := by
  obtain ⟨c, behind, same, digit⟩ := d.exists_cons
  have visible : (c == ' ') = false := beq_eq_false_iff_ne.mpr (ne_of_isDigit digit rfl)
  simp [same, Comparator.dropSpaces, visible]

theorem afterWildcard?_append (d : Digits) (rest : List Char) :
    Comparator.afterWildcard? (d.chars ++ rest) = none := by
  obtain ⟨c, behind, same, digit⟩ := d.exists_cons
  rw [same, List.cons_append]
  unfold Comparator.afterWildcard?
  split
  all_goals
    next first =>
      first
      | rfl
      | cases first
        cases digit

theorem takePart_append (d : Digits) {rest : List Char} (stops : Number.StopsDigits rest) :
    Comparator.takePart ('.' :: (d.chars ++ rest)) =
      if d.IsPlain then some (.number d.value, rest) else none := by
  simp only [Comparator.takePart, d.afterWildcard?_append, d.takeNumber_append stops]
  split <;> rfl

theorem eq_zero_of_head_natDigits {n : Nat} (zero : (Number.natDigits n).head? = some '0') :
    n = 0 := by
  induction n using Number.natDigits.induct with
  | case1 n small =>
      have single : ∀ n < 10, Number.digitChar n = '0' → n = 0 := by decide
      rw [Number.natDigits, dif_pos small] at zero
      exact single n small (Option.some.inj zero)
  | case2 n large ih =>
      rw [Number.natDigits, dif_neg large,
        List.head?_append_of_ne_nil _ (Number.natDigits_ne_nil _)] at zero
      have := ih zero
      omega

theorem value_ofNat (n : Nat) : (ofNat n).value = n := Number.digitsValue_natDigits n

theorem isPlain_ofNat {n : Nat} (small : n < Version.numberBound) : (ofNat n).IsPlain := by
  refine ⟨fun zero => ?_, by rwa [value_ofNat]⟩
  rw [eq_zero_of_head_natDigits zero]
  change (Number.natDigits 0).length = 1
  rw [Number.natDigits]
  rfl

end Digits

/-- One to three numbers between dots. -/
inductive Dotted where
  | one (major : Digits)
  | two (major minor : Digits)
  | three (major minor patch : Digits)

namespace Dotted

def major : Dotted → Digits
  | one major | two major _ | three major _ _ => major

def minor? : Dotted → Option Digits
  | one _ => none
  | two _ minor | three _ minor _ => some minor

def patch? : Dotted → Option Digits
  | one _ | two _ _ => none
  | three _ _ patch => some patch

/-- A number behind a dot. -/
def behindDot : Option Digits → List Char
  | none => []
  | some d => '.' :: d.chars

def chars (v : Dotted) : List Char := v.major.chars ++ (behindDot v.minor? ++ behindDot v.patch?)

/-- Numbers that are missing are zero. -/
def core (v : Dotted) : Core :=
  ⟨v.major.value, v.minor?.elim 0 Digits.value, v.patch?.elim 0 Digits.value⟩

/-- The numbers that are there are those of `w`. -/
def Heads : Dotted → Core → Prop
  | one major, w => w.major = major.value
  | two major minor, w => w.major = major.value ∧ w.minor = minor.value
  | three major minor patch, w =>
      w.major = major.value ∧ w.minor = minor.value ∧ w.patch = patch.value

/-- The next version that may break what `v` promises. -/
def nextBreaking : Dotted → Core
  | one major => ⟨major.value + 1, 0, 0⟩
  | two major minor =>
      if 0 < major.value then ⟨major.value + 1, 0, 0⟩ else ⟨0, minor.value + 1, 0⟩
  | three major minor patch =>
      if 0 < major.value then ⟨major.value + 1, 0, 0⟩
      else if 0 < minor.value then ⟨0, minor.value + 1, 0⟩
      else ⟨0, 0, patch.value + 1⟩

/-- Where a tilde ends: the last number that is there may grow, but a single one is kept. -/
def tildeEnd : Dotted → Core
  | one major | two major _ => ⟨major.value + 1, 0, 0⟩
  | three major minor _ => ⟨major.value, minor.value + 1, 0⟩

/-- All numbers can be read. -/
structure IsPlain (v : Dotted) : Prop where
  major : v.major.IsPlain
  minor : ∀ d ∈ v.minor?, d.IsPlain
  patch : ∀ d ∈ v.patch?, d.IsPlain

theorem isPlain_two {major minor : Digits} :
    (two major minor).IsPlain ↔ major.IsPlain ∧ minor.IsPlain :=
  ⟨fun plain => ⟨plain.major, plain.minor minor rfl⟩,
    fun plain => ⟨plain.1, by simpa [minor?] using plain.2, nofun⟩⟩

theorem isPlain_three {major minor patch : Digits} :
    (three major minor patch).IsPlain ↔ major.IsPlain ∧ minor.IsPlain ∧ patch.IsPlain :=
  ⟨fun plain => ⟨plain.major, plain.minor minor rfl, plain.patch patch rfl⟩,
    fun plain => ⟨plain.1, by simpa [minor?] using plain.2.1, by simpa [patch?] using plain.2.2⟩⟩

def comparator (operator : Operator) (v : Dotted) : Comparator :=
  ⟨operator, v.major.value, v.minor?.map Digits.value, v.patch?.map Digits.value, []⟩

theorem stops_dot (rest : List Char) : Number.StopsDigits ('.' :: rest) := by
  intro c first
  cases first
  rfl

theorem stops_nil : Number.StopsDigits [] := nofun

theorem stops_behindDot (d : Option Digits) {rest : List Char} (stops : Number.StopsDigits rest) :
    Number.StopsDigits (behindDot d ++ rest) := by
  cases d with
  | none => exact stops
  | some d => exact stops_dot _

def part : Option Digits → Comparator.Part
  | none => .absent
  | some d => .number d.value

theorem takePart_behindDot {d : Option Digits} (plain : ∀ n ∈ d, n.IsPlain) {rest : List Char}
    (stops : Number.StopsDigits rest) (last : d = none → rest = []) :
    Comparator.takePart (behindDot d ++ rest) = some (part d, rest) := by
  cases d with
  | none =>
      rw [last rfl]
      rfl
  | some d => exact (d.takePart_append stops).trans (if_pos (plain d rfl))

theorem takePart_behindDot_unread {d : Option Digits} (unread : ¬∀ n ∈ d, n.IsPlain)
    {rest : List Char} (stops : Number.StopsDigits rest) :
    Comparator.takePart (behindDot d ++ rest) = none := by
  cases d with
  | none => exact absurd nofun unread
  | some d =>
      have notPlain : ¬d.IsPlain := fun plain => unread (by simpa using plain)
      exact (d.takePart_append stops).trans (if_neg notPlain)

/-- What is read of a word that is spent as a number and two parts. -/
theorem ofWord?_of_parts {text behind rest rest' : List Char} {operator : Option Operator}
    {major : Nat} {minor patch : Comparator.Part}
    (signed : Comparator.takeOperator text = (operator, behind))
    (first : Comparator.takeNumber (Comparator.dropSpaces behind) = some (major, rest))
    (second : Comparator.takePart rest = some (minor, rest'))
    (third : Comparator.takePart rest' = some (patch, [])) :
    Comparator.ofWord? text = (match minor, patch with
      | .wildcard, .number _ => none
      | .wildcard, _ | _, .wildcard => some Operator.exact
      | _, _ => some .caret).map fun unsigned =>
        ⟨operator.getD unsigned, major, minor.number?, patch.number?, []⟩ := by
  simp only [Comparator.ofWord?, Comparator.take, signed, first, second, third,
    Option.bind_eq_bind, Option.bind_some]
  cases minor <;> cases patch <;> rfl

theorem ofWord?_of_unread {text behind : List Char} {operator : Option Operator}
    (signed : Comparator.takeOperator text = (operator, behind))
    (unread : ((Comparator.takeNumber (Comparator.dropSpaces behind)).bind fun taken =>
      (Comparator.takePart taken.2).bind fun taken => Comparator.takePart taken.2) = none) :
    Comparator.ofWord? text = none := by
  simp only [Comparator.ofWord?, Comparator.take, signed, Option.bind_eq_bind]
  cases first : Comparator.takeNumber (Comparator.dropSpaces behind) with
  | none => rfl
  | some taken =>
      rw [first, Option.bind_some] at unread
      rw [Option.bind_some]
      cases second : Comparator.takePart taken.2 with
      | none => rfl
      | some taken' =>
          rw [second, Option.bind_some] at unread
          rw [Option.bind_some, unread, Option.bind_none]

/-- A number of which the part behind it is missing has nothing behind that. -/
theorem behindDot_patch? {v : Dotted} (missing : v.minor? = none) : behindDot v.patch? = [] := by
  cases v with
  | one => rfl
  | two => cases missing
  | three => cases missing

/-- What a word is read as depends on its signs and on whether its numbers can be read. -/
theorem ofWord?_iff {text : List Char} {operator : Option Operator} (v : Dotted)
    (signed : Comparator.takeOperator text = (operator, v.chars)) {comparator : Comparator} :
    Comparator.ofWord? text = some comparator ↔
      v.IsPlain ∧ v.comparator (operator.getD .caret) = comparator := by
  have stops : Number.StopsDigits (behindDot v.patch?) := by
    simpa using stops_behindDot v.patch? stops_nil
  have first := v.major.takeNumber_append (stops_behindDot v.minor? stops)
  rw [← Digits.dropSpaces_append] at first
  by_cases plain : v.IsPlain
  · have second := takePart_behindDot plain.minor stops behindDot_patch?
    have third := takePart_behindDot plain.patch stops_nil fun _ => rfl
    rw [List.append_nil] at third
    have read : Comparator.ofWord? text = some (v.comparator (operator.getD .caret)) := by
      rw [ofWord?_of_parts signed (first.trans (if_pos plain.major)) second third]
      cases v <;> rfl
    simp [read, plain]
  · have unread : Comparator.ofWord? text = none := by
      apply ofWord?_of_unread signed
      by_cases major : v.major.IsPlain
      · rw [chars, first, if_pos major, Option.bind_some]
        by_cases minor : ∀ d ∈ v.minor?, d.IsPlain
        · have patch : ¬∀ d ∈ v.patch?, d.IsPlain := fun patch => plain ⟨major, minor, patch⟩
          rw [takePart_behindDot minor stops behindDot_patch?]
          simpa using takePart_behindDot_unread patch stops_nil
        · rw [takePart_behindDot_unread minor stops]
          rfl
      · rw [chars, first, if_neg major]
        rfl
    simp [unread, plain]

end Dotted

namespace Operator

def sign : Operator → List Char
  | .exact => ['=']
  | .greater => ['>']
  | .greaterEq => ['>', '=']
  | .less => ['<']
  | .lessEq => ['<', '=']
  | .tilde => ['~']
  | .caret => ['^']

theorem takeOperator_sign (operator : Operator) {c : Char} (digit : Text.isDigit c = true)
    (rest : List Char) :
    Comparator.takeOperator (operator.sign ++ c :: rest) = (some operator, c :: rest) := by
  have other : c ≠ '=' := Digits.ne_of_isDigit digit rfl
  cases operator <;> simp [sign, Comparator.takeOperator, other]

end Operator

namespace Dotted

/-- A version begins with a digit. -/
theorem exists_cons (v : Dotted) : ∃ c rest, v.chars = c :: rest ∧ Text.isDigit c = true := by
  obtain ⟨c, rest, same, digit⟩ := v.major.exists_cons
  exact ⟨c, _, by rw [chars, same, List.cons_append], digit⟩

theorem takeOperator_digit {c : Char} (digit : Text.isDigit c = true) (rest : List Char) :
    Comparator.takeOperator (c :: rest) = (none, c :: rest) := by
  unfold Comparator.takeOperator
  split
  all_goals
    next first =>
      first
      | rfl
      | cases first
        cases digit

theorem ofWord?_signed_iff (operator : Operator) (v : Dotted) {comparator : Comparator} :
    Comparator.ofWord? (operator.sign ++ v.chars) = some comparator ↔
      v.IsPlain ∧ v.comparator operator = comparator := by
  obtain ⟨c, rest, same, digit⟩ := v.exists_cons
  exact ofWord?_iff v (same ▸ operator.takeOperator_sign digit rest)

/-- A version without a sign promises what a caret in front of it does. -/
theorem ofWord?_plain_iff (v : Dotted) {comparator : Comparator} :
    Comparator.ofWord? v.chars = some comparator ↔
      v.IsPlain ∧ v.comparator .caret = comparator := by
  obtain ⟨c, rest, same, digit⟩ := v.exists_cons
  exact ofWord?_iff v (same ▸ takeOperator_digit digit rest)

/-- Two numbers and a wildcard are what begins with the numbers. -/
theorem ofWord?_wildcard_iff (major minor : Digits) {comparator : Comparator} :
    Comparator.ofWord? (major.chars ++ '.' :: (minor.chars ++ ['.', '*'])) = some comparator ↔
      (two major minor).IsPlain ∧ (two major minor).comparator .exact = comparator := by
  obtain ⟨c, rest, same, digit⟩ := major.exists_cons
  have signed : Comparator.takeOperator (major.chars ++ '.' :: (minor.chars ++ ['.', '*'])) =
      (none, major.chars ++ '.' :: (minor.chars ++ ['.', '*'])) := by
    rw [same, List.cons_append]
    exact takeOperator_digit digit _
  have first := major.takeNumber_append (stops_dot (minor.chars ++ ['.', '*']))
  have second := minor.takePart_append (stops_dot ['*'])
  rw [← Digits.dropSpaces_append] at first
  rw [isPlain_two]
  by_cases plain : major.IsPlain
  · rw [if_pos plain] at first
    by_cases plain' : minor.IsPlain
    · rw [if_pos plain'] at second
      simp only [ofWord?_of_parts signed first second rfl, plain, plain', true_and]
      exact Option.some_inj
    · rw [if_neg plain'] at second
      simp [ofWord?_of_unread signed (by rw [first, Option.bind_some, second]; rfl), plain']
  · rw [if_neg plain] at first
    simp [ofWord?_of_unread signed (by rw [first]; rfl), plain]

/-! Which versions meet a comparator. -/

variable (v : Dotted) (w : Core)

theorem matchesExact_iff (operator : Operator) :
    (v.comparator operator).matchesExact w = true ↔ v.Heads w := by
  cases v <;> simp [comparator, Comparator.matchesExact, Heads, major, minor?, patch?, and_assoc]

theorem matchesGreater_iff (operator : Operator) :
    (v.comparator operator).matchesGreater w = true ↔ v.core < w ∧ ¬v.Heads w := by
  rw [Core.lt_iff]
  cases v <;> simp only [comparator, Comparator.matchesGreater, Heads, core, major, minor?, patch?,
    Option.map_some, Option.map_none, Option.elim] <;> grind

theorem matchesLess_iff (operator : Operator) :
    (v.comparator operator).matchesLess w = true ↔ w < v.core := by
  rw [Core.lt_iff]
  cases v <;> simp only [comparator, Comparator.matchesLess, core, major, minor?, patch?,
    Option.map_some, Option.map_none, Option.elim] <;> grind

/-- What begins with the numbers of a version is not below it. -/
theorem core_le_iff : v.core ≤ w ↔ v.Heads w ∨ v.core < w ∧ ¬v.Heads w := by
  rw [Core.lt_iff, Core.le_iff]
  cases v <;> simp only [Heads, core, major, minor?, patch?, Option.elim] <;> omega

theorem le_core_or_heads_iff : w ≤ v.core ∨ v.Heads w ↔ v.Heads w ∨ w < v.core := by
  rw [Core.lt_iff, Core.le_iff]
  cases v <;> simp only [Heads, core, major, minor?, patch?, Option.elim] <;> omega

theorem matchesCaret_iff (operator : Operator) :
    (v.comparator operator).matchesCaret w = true ↔ v.core ≤ w ∧ w < v.nextBreaking := by
  rw [Core.lt_iff, Core.le_iff]
  cases v <;> simp only [comparator, Comparator.matchesCaret, core, nextBreaking, major, minor?,
    patch?, Option.map_some, Option.map_none, Option.elim] <;> grind

/-- A tilde in front of two numbers keeps both of them. -/
theorem matchesTilde_iff (operator : Operator) (other : ∀ major minor, v ≠ two major minor) :
    (v.comparator operator).matchesTilde w = true ↔ v.core ≤ w ∧ w < v.tildeEnd := by
  rw [Core.lt_iff, Core.le_iff]
  cases v with
  | two major minor => exact absurd rfl (other major minor)
  | one => simp [comparator, Comparator.matchesTilde, core, tildeEnd, major, minor?, patch?]; omega
  | three =>
      simp [comparator, Comparator.matchesTilde, core, tildeEnd, major, minor?, patch?]; omega

end Dotted
end ImageLock
