/-
Lengths of time that are written read back.

A length is written as amounts of units, and read as a sum of them. What is
written of no unit is not written at all, and what is read of it adds nothing.
-/
import ImageLock.Duration
import ImageLock.Proofs.NumberText
import ImageLock.Proofs.Pieces

namespace ImageLock.Duration

open Number Text

/-- A number of some unit, with the name that the unit is written with. -/
structure Amount where
  count : Nat
  name : String
  unit : Unit

namespace Amount

def chars (a : Amount) : List Char := natDigits a.count ++ a.name.toList

/-- The names that units are written with. -/
def spellings : List (String × Unit) :=
  [("year", .year), ("years", .year), ("month", .month), ("months", .month), ("day", .day),
    ("days", .day), ("h", .hour), ("m", .minute), ("s", .second), ("ms", .milli),
    ("us", .micro), ("ns", .nano)]

/-- An amount that can be written: the number fits in 64 bits. -/
structure Readable (a : Amount) : Prop where
  fits : a.count < 0x10000000000000000
  spelled : (a.name, a.unit) ∈ spellings

theorem readable {count : Nat} {name : String} {unit : Unit}
    (fits : count < 0x10000000000000000) (spelled : (name, unit) ∈ spellings) :
    Readable ⟨count, name, unit⟩ := ⟨fits, spelled⟩

theorem Readable.name {a : Amount} (readable : a.Readable) :
    (unitNames.find? fun u => u.1 == a.name).map (·.2) = some a.unit ∧
      (∀ c ∈ a.name.toList, isUnitChar c = true) ∧ a.name.toList ≠ [] := by
  have known : ∀ s ∈ spellings, (unitNames.find? fun u => u.1 == s.1).map (·.2) = some s.2 := by
    simp [spellings, unitNames]
  have written : ∀ s ∈ spellings, s.1.toList.all isUnitChar = true ∧ s.1.toList ≠ [] := by decide
  obtain ⟨all, filled⟩ := written _ readable.spelled
  exact ⟨known _ readable.spelled, List.all_eq_true.mp all, filled⟩

def seconds (a : Amount) : Nat := a.count * a.unit.seconds

def nanos (a : Amount) : Nat := a.count * a.unit.nanos?.getD 0

end Amount

/-! Digits and units. -/

theorem bounded_of_lt {n : Nat} (fits : n < 0x10000000000000000) : bounded n = some n := by
  simp [bounded, fits]

theorem takeDigits_digits {digits rest : List Char} (all : AllDigits digits) (start : Nat)
    (fits : start * 10 ^ digits.length + digitsValue digits < 0x10000000000000000)
    (ends : ∀ c ∈ rest.head?, isDigit c = false ∧ isBlank c = false) :
    takeDigits start (digits ++ rest) =
      some (start * 10 ^ digits.length + digitsValue digits, rest) := by
  induction digits generalizing start with
  | nil =>
      cases rest with
      | nil => simp [takeDigits, digitsValue]
      | cons c rest =>
          obtain ⟨noDigit, noBlank⟩ := ends c (by simp)
          simp [takeDigits, noDigit, noBlank, digitsValue]
  | cons c digits ih =>
      have digit : isDigit c = true := all c (by simp)
      have value_eq : start * 10 ^ (c :: digits).length + digitsValue (c :: digits) =
          (start * 10 + (c.toNat - 0x30)) * 10 ^ digits.length + digitsValue digits := by
        rw [← foldl_digits, ← foldl_digits]
        rfl
      rw [value_eq] at fits ⊢
      -- What is read so far is no larger than the whole number.
      have part : start * 10 + (c.toNat - 0x30) < 0x10000000000000000 := by
        have grows := Nat.le_mul_of_pos_right (start * 10 + (c.toNat - 0x30))
          (Nat.pow_pos (n := digits.length) (show 0 < 10 by decide))
        omega
      rw [List.cons_append, takeDigits, if_pos digit, bounded_of_lt part]
      exact ih (fun d member => all d (by simp [member])) _ fits

theorem not_blank_of_isDigit {c : Char} (digit : isDigit c = true) : isBlank c = false := by
  have bounds := toNat_of_isDigit digit
  simp only [isBlank, Bool.or_eq_false_iff, Bool.and_eq_false_iff, decide_eq_false_iff_not,
    beq_eq_false_iff_ne]
  omega

theorem not_digit_of_unitChar {c : Char} (letter : isUnitChar c = true) :
    isDigit c = false ∧ isBlank c = false ∧ c ≠ '.' := by
  rcases Bool.or_eq_true .. ▸ letter with letter | micro
  · have code : 0x41 ≤ c.toNat ∧ c.toNat ≤ 0x7A := by
      simp only [isLetter, Bool.or_eq_true, Bool.and_eq_true, decide_eq_true_eq] at letter
      change (0x61 ≤ c.toNat ∧ c.toNat ≤ 0x7A) ∨ (0x41 ≤ c.toNat ∧ c.toNat ≤ 0x5A) at letter
      omega
    refine ⟨Bool.eq_false_iff.mpr fun digit => ?_, ?_, ?_⟩
    · have bounds := toNat_of_isDigit digit
      omega
    · simp only [isBlank, Bool.or_eq_false_iff, Bool.and_eq_false_iff, decide_eq_false_iff_not,
        beq_eq_false_iff_ne]
      omega
    · rintro rfl
      exact absurd code.1 (by decide)
  · rw [beq_iff_eq.mp micro]
    decide

/-- An amount is read up to its end, or up to the blank behind it. -/
theorem takePart_amount {a : Amount} (readable : a.Readable) {rest : List Char}
    (apart : ∀ c ∈ rest.head?, c = ' ') :
    takePart (a.chars ++ rest) = some (a.count, none, a.unit, rest) := by
  obtain ⟨named, letters, filled⟩ := readable.name
  obtain ⟨c, name, name_eq⟩ := List.exists_cons_of_ne_nil filled
  obtain ⟨noDigit, noBlank, noPoint⟩ := not_digit_of_unitChar (letters c (by simp [name_eq]))
  have digits : takeDigits 0 (natDigits a.count ++ (a.name.toList ++ rest)) =
      some (a.count, a.name.toList ++ rest) := by
    have begins : ∀ c ∈ (a.name.toList ++ rest).head?, isDigit c = false ∧ isBlank c = false := by
      simp [name_eq, noDigit, noBlank]
    have read := takeDigits_digits (allDigits_natDigits a.count) 0
      (by simpa [digitsValue_natDigits] using readable.fits) begins
    simpa [digitsValue_natDigits] using read
  have whole : (a.name.toList ++ rest).takeWhile isUnitChar = a.name.toList := by
    rw [List.takeWhile_append_of_pos letters]
    cases rest with
    | nil => simp
    | cons d rest =>
        obtain rfl : d = ' ' := apart d (by simp)
        simp [isUnitChar, isLetter]
  have ends : (rest.head?.all fun c => isDigit c || isBlank c) = true := by
    cases rest with
    | nil => rfl
    | cons d rest =>
        obtain rfl : d = ' ' := apart d (by simp)
        rfl
  -- The name starts with a letter, so that there is no point behind the number.
  have noFraction : ∀ tail, a.name.toList ++ rest ≠ '.' :: tail := by
    intro tail same
    rw [name_eq, List.cons_append] at same
    exact noPoint (List.cons.inj same).1
  rw [Amount.chars, List.append_assoc, takePart, digits]
  have behind : (a.name.toList ++ rest).drop a.name.toList.length = rest := List.drop_left
  simp [whole, behind, named, ends, -List.head?_drop]

/-! Amounts with blanks between them. -/

/-- Amounts with a blank in front of each. -/
def spaced (amounts : List Amount) : List Char := amounts.flatMap fun a => ' ' :: a.chars

theorem head?_spaced (amounts : List Amount) : ∀ c ∈ (spaced amounts).head?, c = ' ' := by
  cases amounts with
  | nil => simp [spaced]
  | cons a rest => simp [spaced]

/-- Reading amounts adds them, one after the other. -/
theorem parseParts_spaced {amounts : List Amount} (readable : ∀ a ∈ amounts, a.Readable)
    (start : Duration) {fuel : Nat} (enough : amounts.length < fuel) :
    parseParts fuel start (spaced amounts) =
      amounts.foldlM (fun d a => d.addUnits a.unit a.count none) start := by
  induction amounts generalizing start fuel with
  | nil =>
      obtain ⟨fuel, rfl⟩ := Nat.exists_eq_succ_of_ne_zero (Nat.ne_of_gt enough)
      rfl
  | cons a rest ih =>
      obtain ⟨fuel, rfl⟩ :=
        Nat.exists_eq_succ_of_ne_zero (Nat.ne_of_gt (Nat.zero_lt_of_lt enough))
      have own : a.Readable := readable a (by simp)
      obtain ⟨c, digits, digits_eq⟩ := List.exists_cons_of_ne_nil (natDigits_ne_nil a.count)
      have digit : isDigit c = true := allDigits_natDigits a.count c (by simp [digits_eq])
      have noBlank : isBlank c = false := not_blank_of_isDigit digit
      have first : (spaced (a :: rest)).dropWhile isBlank = a.chars ++ spaced rest := by
        have blank : isBlank ' ' = true := rfl
        simp [spaced, Amount.chars, digits_eq, blank, noBlank]
      have begins : a.chars ++ spaced rest = c :: (digits ++ a.name.toList ++ spaced rest) := by
        simp [Amount.chars, digits_eq]
      have part := takePart_amount own (head?_spaced rest)
      rw [begins] at part
      simp only [parseParts, first, begins, digit, if_true, part, Option.bind_eq_bind,
        Option.bind_some, List.foldlM_cons]
      refine congrArg _ (funext fun d => ?_)
      exact ih (fun b member => readable b (by simp [member])) d (by simpa using enough)

/-! Sums of amounts. -/

/-- What amounts come to, as each of them is counted. -/
def total (value : Amount → Nat) : List Amount → Nat
  | [] => 0
  | a :: rest => value a + total value rest

theorem addUnits_ok {d : Duration} {a : Amount}
    (seconds : d.seconds + a.seconds < 0x10000000000000000)
    (nanos : d.nanos + a.nanos < 1000000000) :
    d.addUnits a.unit a.count none = some ⟨d.seconds + a.seconds, d.nanos + a.nanos⟩ := by
  obtain ⟨count, name, unit⟩ := a
  simp only [Amount.seconds, Amount.nanos] at seconds nanos ⊢
  cases small : unit.nanos? with
  | some size =>
      have none_above : unit.seconds = 0 := by
        cases unit <;> simp_all [Unit.nanos?, Unit.seconds]
      simp only [small, Option.getD_some, none_above, Nat.mul_zero, Nat.add_zero] at nanos seconds ⊢
      have first : bounded (count * size) = some (count * size) := bounded_of_lt (by omega)
      have below : (d.nanos + count * size) / 1000000000 = 0 := Nat.div_eq_of_lt nanos
      simp only [addUnits, small, first, Option.bind_eq_bind, Option.bind_some, add,
        bounded_of_lt (show d.nanos + count * size < 0x10000000000000000 by omega), below]
      simp [bounded_of_lt, seconds, Nat.mod_eq_of_lt nanos]
  | none =>
      simp only [small, Option.getD_none, Nat.mul_zero, Nat.add_zero] at nanos ⊢
      have first : bounded (count * unit.seconds) = some (count * unit.seconds) :=
        bounded_of_lt (by omega)
      have below : d.nanos / 1000000000 = 0 := Nat.div_eq_of_lt nanos
      simp only [addUnits, small, first, Option.bind_eq_bind, Option.bind_some, add, Nat.add_zero,
        bounded_of_lt (show d.nanos < 0x10000000000000000 by omega), below]
      simp [bounded_of_lt, seconds, Nat.mod_eq_of_lt nanos]

theorem foldlM_addUnits {amounts : List Amount} {d : Duration}
    (seconds : d.seconds + total (·.seconds) amounts < 0x10000000000000000)
    (nanos : d.nanos + total (·.nanos) amounts < 1000000000) :
    amounts.foldlM (fun d a => d.addUnits a.unit a.count none) d =
      some ⟨d.seconds + total (·.seconds) amounts, d.nanos + total (·.nanos) amounts⟩ := by
  induction amounts generalizing d with
  | nil => rfl
  | cons a rest ih =>
      simp only [total, ← Nat.add_assoc] at seconds nanos ⊢
      rw [List.foldlM_cons, addUnits_ok (Nat.lt_of_le_of_lt (Nat.le_add_right _ _) seconds)
        (Nat.lt_of_le_of_lt (Nat.le_add_right _ _) nanos)]
      exact ih seconds nanos

/-! What is written of a length. -/

def plural (count : Nat) (name : String) : String := name ++ if count = 1 then "" else "s"

/-- The amounts of a length, the longest unit first. -/
def amounts (d : Duration) : List Amount :=
  let inYear := d.seconds % 31557600
  let inMonth := inYear % 2630016
  let inDay := inMonth % 86400
  let years := d.seconds / 31557600
  let months := inYear / 2630016
  let days := inMonth / 86400
  [⟨years, plural years "year", .year⟩, ⟨months, plural months "month", .month⟩,
    ⟨days, plural days "day", .day⟩, ⟨inDay / 3600, "h", .hour⟩,
    ⟨inDay % 3600 / 60, "m", .minute⟩, ⟨inDay % 60, "s", .second⟩,
    ⟨d.nanos / 1000000, "ms", .milli⟩, ⟨d.nanos / 1000 % 1000, "us", .micro⟩,
    ⟨d.nanos % 1000, "ns", .nano⟩]

/-- The amounts that are written: those that are some, or no seconds. -/
def written (d : Duration) : List Amount :=
  match d.amounts.filter (·.count != 0) with
  | [] => [⟨0, "s", .second⟩]
  | there => there

def Amount.text (a : Amount) : String := natText a.count ++ a.name

theorem spaced_eq {amounts : List Amount} (filled : amounts ≠ []) :
    spaced amounts = ' ' :: (Text.join " " (amounts.map (·.text))).toList := by
  induction amounts with
  | nil => exact absurd rfl filled
  | cons a rest ih =>
      cases rest with
      | nil => simp [spaced, Amount.chars, Amount.text, natText, Text.join]
      | cons b rest =>
          have behind := ih (List.cons_ne_nil b rest)
          rw [List.map_cons, Text.toList_join_cons _ _ (by simp)]
          simp only [spaced, List.flatMap_cons] at behind ⊢
          rw [behind]
          simp [Amount.chars, Amount.text, natText]

theorem format_eq (d : Duration) : d.format = Text.join " " (d.written.map (·.text)) := by
  have parts_eq : (d.amounts.filter (·.count != 0)).map (·.text) =
      d.amounts.flatMap fun a => if a.count = 0 then [] else [a.text] := by
    induction d.amounts with
    | nil => rfl
    | cons a rest ih => by_cases none : a.count = 0 <;> simp [none, ih]
  have unfolded : d.format =
      if (d.amounts.flatMap fun a => if a.count = 0 then [] else [a.text]).isEmpty then "0s"
      else Text.join " " (d.amounts.flatMap fun a => if a.count = 0 then [] else [a.text]) := by
    simp only [format, amounts, plural, Amount.text, List.flatMap_cons, List.flatMap_nil,
      List.append_nil, List.append_assoc, String.append_assoc]
  rw [unfolded, ← parts_eq, written]
  cases there : d.amounts.filter (·.count != 0) with
  | nil =>
      have zero : (⟨0, "s", .second⟩ : Amount).text = "0s" := by
        simp [Amount.text, natText, natDigits]
        rfl
      exact zero.symm
  | cons a rest => rfl

theorem written_ne_nil (d : Duration) : d.written ≠ [] := by
  unfold written
  split
  · exact List.cons_ne_nil _ _
  next filled => exact filled

theorem total_written {value : Amount → Nat} (nothing : ∀ a, a.count = 0 → value a = 0)
    (d : Duration) : total value d.written = total value d.amounts := by
  have kept (amounts : List Amount) :
      total value (amounts.filter (·.count != 0)) = total value amounts := by
    induction amounts with
    | nil => rfl
    | cons a rest ih =>
        by_cases none : a.count = 0
        · simp [none, total, nothing a none, ih]
        · simp [none, total, ih]
  rw [← kept d.amounts, written]
  cases there : d.amounts.filter (·.count != 0) with
  | nil => simpa [total] using nothing ⟨0, "s", .second⟩ rfl
  | cons a rest => rfl

/-- A length in the range of its parts: a number of 64 bits for the seconds, and
less than a second for the rest. -/
structure Bounded (d : Duration) : Prop where
  seconds : d.seconds < 0x10000000000000000
  nanos : d.nanos < 1000000000

theorem total_seconds_amounts (d : Duration) : total (·.seconds) d.amounts = d.seconds := by
  simp only [amounts, total, Amount.seconds, Unit.seconds]
  omega

theorem total_nanos_amounts {d : Duration} (bounded : d.Bounded) :
    total (·.nanos) d.amounts = d.nanos := by
  have nanos := bounded.nanos
  simp only [amounts, total, Amount.nanos, Unit.nanos?, Option.getD_some, Option.getD_none]
  omega

theorem plural_spelled {name : String} {unit : Unit} (one : (name, unit) ∈ Amount.spellings)
    (more : (name ++ "s", unit) ∈ Amount.spellings) (count : Nat) :
    (plural count name, unit) ∈ Amount.spellings := by
  unfold plural
  split
  · simpa using one
  · exact more

open Amount in
theorem readable_amounts {d : Duration} (bounded : d.Bounded) :
    ∀ a ∈ d.amounts, a.Readable := by
  obtain ⟨seconds, nanos⟩ := bounded
  simp only [amounts, List.forall_mem_cons, List.not_mem_nil, false_imp_iff, implies_true,
    and_true]
  have year : ∀ count, (plural count "year", Unit.year) ∈ Amount.spellings :=
    plural_spelled (by decide) (by decide)
  have month : ∀ count, (plural count "month", Unit.month) ∈ Amount.spellings :=
    plural_spelled (by decide) (by decide)
  have day : ∀ count, (plural count "day", Unit.day) ∈ Amount.spellings :=
    plural_spelled (by decide) (by decide)
  exact ⟨readable (by omega) (year _), readable (by omega) (month _), readable (by omega) (day _),
    readable (by omega) (by decide), readable (by omega) (by decide),
    readable (by omega) (by decide), readable (by omega) (by decide),
    readable (by omega) (by decide), readable (by omega) (by decide)⟩

theorem readable_written {d : Duration} (bounded : d.Bounded) :
    ∀ a ∈ d.written, a.Readable := by
  intro a member
  unfold written at member
  split at member
  · rw [List.mem_singleton.mp member]
    exact ⟨by decide, by decide⟩
  · exact readable_amounts bounded a (List.mem_filter.mp member).1

theorem total_seconds (d : Duration) : total (·.seconds) d.written = d.seconds := by
  rw [total_written (fun a none => by simp [Amount.seconds, none]), total_seconds_amounts]

theorem total_nanos {d : Duration} (bounded : d.Bounded) :
    total (·.nanos) d.written = d.nanos := by
  rw [total_written (fun a none => by simp [Amount.nanos, none]), total_nanos_amounts bounded]

theorem length_lt_spaced {amounts : List Amount} (filled : amounts ≠ []) :
    amounts.length < (spaced amounts).length := by
  induction amounts with
  | nil => exact absurd rfl filled
  | cons a rest ih =>
      have some : 0 < (natDigits a.count).length := List.length_pos_of_ne_nil (natDigits_ne_nil _)
      have split : (spaced (a :: rest)).length = a.chars.length + 1 + (spaced rest).length := by
        simp only [spaced, List.flatMap_cons, List.length_append, List.length_cons]
      rw [split, Amount.chars, List.length_append, List.length_cons]
      cases rest with
      | nil => simp; omega
      | cons b rest =>
          have behind := ih (List.cons_ne_nil b rest)
          omega

/-- A length that is written is the length that is read. -/
theorem parse?_format {d : Duration} (bounded : d.Bounded) : parse? d.format = some d := by
  have filled := d.written_ne_nil
  have spaced_written : spaced d.written = ' ' :: d.format.toList := by
    rw [spaced_eq filled, ← format_eq]
  have readable := readable_written bounded
  obtain ⟨a, rest, written_eq⟩ := List.exists_cons_of_ne_nil filled
  obtain ⟨_, _, named⟩ := (readable a (by simp [written_eq])).name
  obtain ⟨c, digits, digits_eq⟩ := List.exists_cons_of_ne_nil (natDigits_ne_nil a.count)
  have chars_eq : d.format.toList = c :: (digits ++ a.name.toList ++ spaced rest) := by
    rw [written_eq] at spaced_written
    simpa [spaced, Amount.chars, digits_eq] using spaced_written.symm
  have notZero : d.format ≠ "0" := by
    intro zero
    rw [zero] at chars_eq
    simp [named] at chars_eq
  have digit : isDigit c = true := allDigits_natDigits a.count c (by simp [digits_eq])
  have enough : d.written.length < d.format.toList.length + 1 := by
    have longer := length_lt_spaced filled
    rwa [spaced_written, List.length_cons] at longer
  -- A blank in front is dropped with those between the amounts.
  have parsed : parseParts (d.format.toList.length + 1) ⟨0, 0⟩ d.format.toList =
      parseParts (d.format.toList.length + 1) ⟨0, 0⟩ (spaced d.written) := by
    have blank : isBlank ' ' = true := rfl
    rw [spaced_written]
    simp [parseParts, blank]
  have sum : d.written.foldlM (fun d a => d.addUnits a.unit a.count none) ⟨0, 0⟩ = some d := by
    rw [foldlM_addUnits]
    · simp [total_seconds, total_nanos bounded]
    · simpa [total_seconds] using bounded.seconds
    · simpa [total_nanos bounded] using bounded.nanos
  have notBlank : ¬ d.format.toList.all isBlank = true := by
    simp [chars_eq, not_blank_of_isDigit digit]
  rw [parse?, if_neg (by simpa using notZero), if_neg notBlank, parsed,
    parseParts_spaced readable ⟨0, 0⟩ enough, sum]

end ImageLock.Duration
