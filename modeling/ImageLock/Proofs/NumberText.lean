/-
Texts of numbers. What is written of a number reads back as that number, so different
numbers have different texts.
-/
import ImageLock.Number.Numeral
import ImageLock.Proofs.ShortestDecimal

namespace ImageLock.Number

open Text (isDigit)

/-! Digits. -/

/-- Digits and nothing else. -/
def AllDigits (text : List Char) : Prop := ∀ c ∈ text, isDigit c = true

/-- The number that digits stand for. -/
def digitsValue (digits : List Char) : Nat :=
  digits.foldl (fun n c => n * 10 + (c.toNat - 0x30)) 0

theorem foldl_digits (digits : List Char) (start : Nat) :
    digits.foldl (fun n c => n * 10 + (c.toNat - 0x30)) start =
      start * 10 ^ digits.length + digitsValue digits := by
  induction digits generalizing start with
  | nil => simp [digitsValue]
  | cons c rest ih =>
      have first : digitsValue (c :: rest) =
          (0 * 10 + (c.toNat - 0x30)) * 10 ^ rest.length + digitsValue rest := ih _
      rw [List.foldl_cons, ih, first, List.length_cons, pow_succ]
      ring

theorem digitsValue_append (front back : List Char) :
    digitsValue (front ++ back) = digitsValue front * 10 ^ back.length + digitsValue back := by
  rw [digitsValue, List.foldl_append, foldl_digits]
  rfl

theorem digitsValue_zeros (n : Nat) : digitsValue (List.replicate n '0') = 0 := by
  induction n with
  | zero => rfl
  | succ n ih =>
      rw [List.replicate_succ', digitsValue_append, ih]
      rfl

theorem toNat_of_isDigit {c : Char} (digit : isDigit c = true) :
    0x30 ≤ c.toNat ∧ c.toNat ≤ 0x39 := by
  simp only [isDigit, Bool.and_eq_true, decide_eq_true_eq] at digit
  exact digit

theorem digitIn?_digit {c : Char} (digit : isDigit c = true) :
    digitIn? 10 c = some (c.toNat - 0x30) := by
  have bounds := toNat_of_isDigit digit
  simp [digitIn?, digit]
  omega

theorem natIn?_digits {digits : List Char} (nonempty : digits ≠ []) (all : AllDigits digits) :
    natIn? 10 digits = some (digitsValue digits) := by
  rw [natIn?, if_neg (by simpa using nonempty), digitsValue]
  clear nonempty
  generalize (0 : Nat) = start
  induction digits generalizing start with
  | nil => rfl
  | cons c rest ih =>
      rw [List.foldl_cons, List.foldl_cons, digitIn?_digit (all c List.mem_cons_self)]
      exact ih (fun c member => all c (List.mem_cons_of_mem _ member)) _

theorem isDigit_digitChar (n : Nat) : isDigit (digitChar n) = true := by
  have digits : ∀ d < 10, isDigit (Char.ofNat (0x30 + d)) = true := by decide
  exact digits (n % 10) (Nat.mod_lt n (by norm_num))

theorem digitsValue_digitChar (n : Nat) : digitsValue [digitChar n] = n % 10 := by
  have digits : ∀ d < 10, digitsValue [Char.ofNat (0x30 + d)] = d := by decide
  exact digits (n % 10) (Nat.mod_lt n (by norm_num))

theorem natDigits_ne_nil (n : Nat) : natDigits n ≠ [] := by
  rw [natDigits]
  split <;> simp

theorem allDigits_natDigits (n : Nat) : AllDigits (natDigits n) := by
  induction n using natDigits.induct with
  | case1 n small =>
      rw [natDigits, dif_pos small]
      intro c member
      rw [List.mem_singleton.mp member]
      exact isDigit_digitChar n
  | case2 n large ih =>
      rw [natDigits, dif_neg large]
      intro c member
      rcases List.mem_append.mp member with front | last
      · exact ih c front
      · rw [List.mem_singleton.mp last]
        exact isDigit_digitChar n

theorem digitsValue_natDigits (n : Nat) : digitsValue (natDigits n) = n := by
  induction n using natDigits.induct with
  | case1 n small => rw [natDigits, dif_pos small, digitsValue_digitChar, Nat.mod_eq_of_lt small]
  | case2 n large ih =>
      rw [natDigits, dif_neg large, digitsValue_append, ih, digitsValue_digitChar]
      simpa using Nat.div_add_mod' n 10

/-! Decimal numerals. -/

/-- No digit comes first. -/
def StopsDigits (text : List Char) : Prop := ∀ c ∈ text.head?, isDigit c = false

theorem takeWhile_digits {digits : List Char} (rest : List Char) (all : AllDigits digits)
    (stops : StopsDigits rest) : (digits ++ rest).takeWhile isDigit = digits := by
  rw [List.takeWhile_append_of_pos all]
  cases rest with
  | nil => simp
  | cons c rest => simp [stops c rfl]

/-- The number behind the mark of an exponent. -/
def exponentIn? (text : List Char) : Option Int :=
  match text with
  | '-' :: rest => (natIn? 10 rest).map fun (n : Nat) => - (n : Int)
  | '+' :: rest => (natIn? 10 rest).map fun (n : Nat) => (n : Int)
  | rest => (natIn? 10 rest).map fun (n : Nat) => (n : Int)

/-- Digits, a point and digits. -/
theorem decimalParts?_point {whole places : List Char} (nonempty : whole ≠ [])
    (all : AllDigits whole) (all' : AllDigits places) :
    decimalParts? (whole ++ '.' :: places) =
      some (digitsValue (whole ++ places), places.length, 0) := by
  have first := takeWhile_digits ('.' :: places) all (by simp [StopsDigits, isDigit])
  have second := takeWhile_digits [] all' (by simp [StopsDigits])
  have both : AllDigits (whole ++ places) := fun c member =>
    (List.mem_append.mp member).elim (all c) (all' c)
  rw [List.append_nil] at second
  simp [decimalParts?, first, second, natIn?_digits (by simp [nonempty]) both]

/-- The same with an exponent, where the point can be left out. -/
theorem decimalParts?_exponent {whole places exponent : List Char} (nonempty : whole ≠ [])
    (all : AllDigits whole) (all' : AllDigits places) {value : Int}
    (read : exponentIn? exponent = some value) :
    decimalParts? (whole ++ '.' :: (places ++ 'e' :: exponent)) =
        some (digitsValue (whole ++ places), places.length, value) ∧
      decimalParts? (whole ++ 'e' :: exponent) = some (digitsValue whole, 0, value) := by
  have marked : StopsDigits ('e' :: exponent) := by simp [StopsDigits, isDigit]
  have first := takeWhile_digits ('.' :: (places ++ 'e' :: exponent)) all
    (by simp [StopsDigits, isDigit])
  have second := takeWhile_digits _ all' marked
  have alone := takeWhile_digits _ all marked
  have both : AllDigits (whole ++ places) := fun c member =>
    (List.mem_append.mp member).elim (all c) (all' c)
  have value_read := natIn?_digits (by simp [nonempty]) both
  have alone_read := natIn?_digits nonempty all
  unfold exponentIn? at read
  split at read <;> obtain ⟨n, found, rfl⟩ := Option.map_eq_some_iff.mp read
  · exact ⟨by simp [decimalParts?, first, second, value_read, found],
      by simp [decimalParts?, alone, alone_read, found]⟩
  · exact ⟨by simp [decimalParts?, first, second, value_read, found],
      by simp [decimalParts?, alone, alone_read, found]⟩
  · exact ⟨by simp [decimalParts?, first, second, value_read, found],
      by simp [decimalParts?, alone, alone_read, found]⟩

theorem not_digit_sign {c : Char} (digit : isDigit c = true) : c ≠ '-' ∧ c ≠ '+' := by
  constructor <;> (rintro rfl; simp [isDigit] at digit)

theorem exponentIn?_natDigits (n : Nat) : exponentIn? (natDigits n) = some (n : Int) := by
  have read := natIn?_digits (natDigits_ne_nil n) (allDigits_natDigits n)
  rw [digitsValue_natDigits] at read
  have digits := allDigits_natDigits n
  unfold exponentIn?
  split
  next rest same => exact ((not_digit_sign (digits '-' (by simp [same]))).1 rfl).elim
  next rest same => exact ((not_digit_sign (digits '+' (by simp [same]))).2 rfl).elim
  next => rw [read, Option.map_some]

theorem exponentIn?_signed (exponent : Int) (signed : Bool) :
    exponentIn? ((if exponent < 0 then ['-'] else if signed then ['+'] else []) ++
      natDigits exponent.natAbs) = some exponent := by
  have read := natIn?_digits (natDigits_ne_nil exponent.natAbs)
    (allDigits_natDigits exponent.natAbs)
  rw [digitsValue_natDigits] at read
  rcases Int.lt_or_le exponent 0 with down | up
  · simp [down, exponentIn?, read, abs_of_neg down]
  · cases signed with
    | true => simp [Int.not_lt.mpr up, exponentIn?, read, abs_of_nonneg up]
    | false =>
        have plain := exponentIn?_natDigits exponent.natAbs
        simp only [Int.not_lt.mpr up, if_false, Bool.false_eq_true, List.nil_append, plain]
        exact congrArg some (Int.natAbs_of_nonneg up)

/-! Layouts. -/

theorem allDigits_zeros (n : Nat) : AllDigits (List.replicate n '0') := by
  intro c member
  rw [List.eq_of_mem_replicate member]
  rfl

theorem AllDigits.append {front back : List Char} (all : AllDigits front)
    (all' : AllDigits back) : AllDigits (front ++ back) := fun c member =>
  (List.mem_append.mp member).elim (all c) (all' c)

/-- Where a number is laid out with a point, its digits are moved to where the point
stands. -/
theorem positional_eq (digits : Nat) (power : Int) :
    ∃ whole places, positional digits power true = whole ++ '.' :: places ∧
      whole ≠ [] ∧ AllDigits whole ∧ AllDigits places ∧
      digitsValue (whole ++ places) = digits * 10 ^ (power + 1).toNat ∧
      ((digits * 10 ^ (power + 1).toNat : Nat) : ℚ) * 10 ^ (0 - (places.length : Int)) =
        digits * 10 ^ power := by
  have all := allDigits_natDigits digits
  have read := digitsValue_natDigits digits
  have nonempty := natDigits_ne_nil digits
  unfold positional
  dsimp only
  generalize natDigits digits = shown at all read nonempty ⊢
  split
  next up =>
    refine ⟨shown ++ List.replicate power.toNat '0', ['0'], by simp, by simp [nonempty],
      all.append (allDigits_zeros _), allDigits_zeros 1, ?_, ?_⟩
    · rw [digitsValue_append, digitsValue_append, digitsValue_zeros, read, List.length_replicate,
        Int.toNat_add up (by norm_num), pow_add]
      simp [digitsValue]
      ring
    · have unit : (10 : ℚ) ^ power = ((10 ^ power.toNat : Nat) : ℚ) := by
        conv_lhs => rw [← Int.toNat_of_nonneg up, zpow_natCast]
        norm_cast
      rw [Int.toNat_add up (by norm_num), pow_add, unit]
      push_cast
      norm_num
      ring
  next down =>
    generalize places_eq : (-power).toNat = places
    have unit : (10 : ℚ) ^ power = 10 ^ (0 - (places : Int)) := by
      congr 1
      omega
    have none : (power + 1).toNat = 0 := by omega
    rw [none, pow_zero, mul_one, unit]
    -- The point stands before the digits, or among them.
    split
    next before =>
      refine ⟨['0'], List.replicate (places - shown.length) '0' ++ shown, by simp [before],
        by simp, allDigits_zeros 1, (allDigits_zeros _).append all, ?_, ?_⟩
      · rw [digitsValue_append, digitsValue_append, digitsValue_zeros, read]
        simp [digitsValue]
      · rw [List.length_append, List.length_replicate, Nat.sub_add_cancel (by omega)]
    next among =>
      have none : places - shown.length = 0 := by omega
      refine ⟨shown.take (shown.length - places), shown.drop (shown.length - places),
        by simp [none], by simp [nonempty, among],
        fun c member => all c (List.mem_of_mem_take member),
        fun c member => all c (List.mem_of_mem_drop member), ?_, ?_⟩
      · rw [List.take_append_drop, read]
      · rw [List.length_drop, Nat.sub_sub_self (by omega)]

theorem decimalParts?_scientific (digits : Nat) (power : Int) (signed : Bool) :
    ∃ places exponent,
      decimalParts? (scientific digits power signed) = some (digits, places, exponent) ∧
      exponent - (places : Int) = power := by
  have all := allDigits_natDigits digits
  have value := digitsValue_natDigits digits
  have nonempty := natDigits_ne_nil digits
  unfold scientific
  dsimp only
  generalize natDigits digits = shown at all value nonempty ⊢
  have read := exponentIn?_signed (power + shown.length - 1) signed
  generalize (if power + (shown.length : Int) - 1 < 0 then ['-']
    else if signed then ['+'] else []) = sign at read ⊢
  cases shown with
  | nil => exact absurd rfl nonempty
  | cons first rest =>
      obtain ⟨leads, others⟩ := List.forall_mem_cons.mp all
      have whole : AllDigits [first] := List.forall_mem_singleton.mpr leads
      have places : AllDigits rest := others
      obtain ⟨pointed, alone⟩ := decimalParts?_exponent (by simp) whole places read
      cases rest with
      | nil => exact ⟨0, _, by simpa [value] using alone, by simp⟩
      | cons second rest =>
          rw [List.singleton_append, List.singleton_append, value] at pointed
          refine ⟨_, _, by simpa using pointed, ?_⟩
          push_cast
          ring

/-! Characters. -/

/-- The characters of numbers. -/
def isNumberChar (c : Char) : Bool :=
  isDigit c || c == '-' || c == '+' || c == '.' || c == 'e'

/-- How the text of a number that need not be an integer looks, its sign apart. -/
structure LooksReal (text : List Char) : Prop where
  starts : ∀ c ∈ text.head?, isDigit c = true
  marked : ∃ c ∈ text, c = '.' ∨ c = 'e'
  number : ∀ c ∈ text, isNumberChar c = true

theorem AllDigits.isNumberChar {text : List Char} (all : AllDigits text) :
    ∀ c ∈ text, isNumberChar c = true := fun c member => by
  simp [Number.isNumberChar, all c member]

theorem looksReal_positional (digits : Nat) (power : Int) :
    LooksReal (positional digits power true) := by
  obtain ⟨whole, places, layout, nonempty, all, all', -⟩ := positional_eq digits power
  rw [layout]
  refine ⟨fun c first => ?_, ⟨'.', by simp, .inl rfl⟩, fun c member => ?_⟩
  · rw [List.head?_append_of_ne_nil _ nonempty] at first
    exact all c (List.mem_of_mem_head? first)
  · rcases List.mem_append.mp member with front | back
    · exact all.isNumberChar c front
    · rcases List.mem_cons.mp back with rfl | back
      · rfl
      · exact all'.isNumberChar c back

theorem looksReal_scientific (digits : Nat) (power : Int) (signed : Bool) :
    LooksReal (scientific digits power signed) := by
  have all := allDigits_natDigits digits
  have nonempty := natDigits_ne_nil digits
  unfold scientific
  dsimp only
  generalize natDigits digits = shown at all nonempty ⊢
  have exponent := (allDigits_natDigits (power + (shown.length : Int) - 1).natAbs).isNumberChar
  generalize natDigits (power + (shown.length : Int) - 1).natAbs = back at exponent ⊢
  have sign : ∀ c ∈ (if power + (shown.length : Int) - 1 < 0 then ['-']
      else if signed then ['+'] else []), isNumberChar c = true := by
    repeat' split
    all_goals simp [isNumberChar]
  generalize (if power + (shown.length : Int) - 1 < 0 then ['-']
    else if signed then ['+'] else []) = sign at sign ⊢
  have mark : isNumberChar '.' = true ∧ isNumberChar 'e' = true := ⟨rfl, rfl⟩
  have digits := all.isNumberChar
  cases shown with
  | nil => exact absurd rfl nonempty
  | cons first rest =>
      have starts := all first List.mem_cons_self
      cases rest with
      | nil => exact ⟨by simp [starts], ⟨'e', by simp, .inr rfl⟩, by simp_all [or_imp]⟩
      | cons second rest =>
          exact ⟨by simp [starts], ⟨'e', by simp, .inr rfl⟩, by simp_all [or_imp, forall_and]⟩

/-! Reading back. -/

/-- Digits that stand for the same as those of a number read back as well. -/
theorem Denotes.reads {digits significand value : Nat} {power power' exponent : Int}
    (denotes : Denotes digits power significand exponent) (nonzero : significand ≠ 0)
    (few : value < 2 ^ 200) (same : (value : ℚ) * 10 ^ power' = digits * 10 ^ power)
    (negative : Bool) :
    Binary64.ofDecimal negative value power' = .finite negative significand exponent := by
  have pos : (0 : ℚ) < digits * 10 ^ power :=
    mul_pos (by exact_mod_cast Nat.pos_of_ne_zero denotes.nonzero) (by positivity)
  obtain ⟨least, most⟩ := nearest_finite_bounds pos nonzero denotes.rounds
  have value_ne : value ≠ 0 := by
    rintro rfl
    rw [Nat.cast_zero, zero_mul] at same
    exact pos.ne same
  rw [← same] at least most
  rw [Binary64.ofDecimal_eq value_ne few least most, same]
  exact nearest_finite_iff.mpr (nearest_finite_iff.mp denotes.rounds)

/-- The digits of a number without its sign, as they are laid out. -/
def unsignedText (significand : Nat) (exponent : Int) (signed : Bool) : List Char :=
  let (digits, power) := shortest significand exponent
  let places := power + (natDigits digits).length
  if -5 < places && places ≤ 16 then positional digits power true
  else scientific digits power signed

theorem unsignedText_reads {significand : Nat} {exponent : Int}
    (format : InFormat significand exponent) (nonzero : significand ≠ 0)
    (signed negative : Bool) :
    ∃ value places shift,
      decimalParts? (unsignedText significand exponent signed) = some (value, places, shift) ∧
      Binary64.ofDecimal negative value (shift - places) =
        .finite negative significand exponent := by
  have denotes := shortest_denotes format nonzero
  unfold unsignedText
  generalize shortest significand exponent = found at denotes ⊢
  obtain ⟨digits, power⟩ := found
  dsimp only at denotes ⊢
  have few := denotes.few
  split
  next near =>
    obtain ⟨whole, places, layout, nonempty, all, all', value, same⟩ := positional_eq digits power
    have parts := decimalParts?_point nonempty all all'
    rw [← layout, value] at parts
    refine ⟨_, _, 0, parts, denotes.reads nonzero ?_ same negative⟩
    have length : 0 < (natDigits digits).length :=
      List.length_pos_iff.mpr (natDigits_ne_nil digits)
    have shift : (power + 1).toNat ≤ 17 := by
      simp only [Bool.and_eq_true, decide_eq_true_eq] at near
      omega
    calc digits * 10 ^ (power + 1).toNat
        ≤ 10 ^ 17 * 10 ^ 17 := Nat.mul_le_mul few (Nat.pow_le_pow_right (by norm_num) shift)
      _ < 2 ^ 200 := by norm_num
  next =>
    obtain ⟨places, shift, read, moved⟩ := decimalParts?_scientific digits power signed
    refine ⟨digits, places, shift, read, denotes.reads nonzero (by omega) ?_ negative⟩
    rw [moved]

theorem looksReal_unsignedText (significand : Nat) (exponent : Int) (signed : Bool) :
    LooksReal (unsignedText significand exponent signed) := by
  unfold unsignedText
  dsimp only
  split
  · exact looksReal_positional _ _
  · exact looksReal_scientific _ _ _

/-- The text of a number is its sign and its digits. -/
theorem documentText?_eq {negative signed : Bool} {significand : Nat} {exponent : Int}
    (nonzero : significand ≠ 0) :
    documentText? signed (.finite negative significand exponent) =
      some (String.ofList (if negative then '-' :: unsignedText significand exponent signed
        else unsignedText significand exponent signed)) := by
  cases significand with
  | zero => exact absurd rfl nonzero
  | succ n => rfl

theorem finite?_of_parts {text : List Char} {negative : Bool} {significand value places : Nat}
    {exponent shift : Int} (starts : ∀ c ∈ text.head?, isDigit c = true)
    (parts : decimalParts? text = some (value, places, shift))
    (read : Binary64.ofDecimal negative value (shift - places) =
      .finite negative significand exponent) :
    finite? (if negative then '-' :: text else text) =
      some (.finite negative significand exponent) := by
  unfold finite?
  -- What rounding does is in `read` and is not computed here.
  generalize Binary64.ofDecimal = rounded at read ⊢
  cases negative with
  | true => simp [parts, read]
  | false =>
      cases text with
      | nil => simp [parts, read]
      | cons c rest =>
          obtain ⟨minus, plus⟩ := not_digit_sign (starts c rfl)
          simp [minus, plus, parts, read]

/-- What is written of a number of the format reads back. -/
theorem finite?_documentText {x : Binary64} {text : String} (proper : x.Proper) {signed : Bool}
    (written : documentText? signed x = some text) : finite? text.toList = some x := by
  cases x with
  | infinite negative => cases written
  | notANumber => cases written
  | finite negative significand exponent =>
      by_cases zero : significand = 0
      · obtain rfl : exponent = Binary64.leastExponent := proper.full (by omega)
        subst zero
        cases written
        cases negative <;> rfl
      · obtain ⟨value, places, shift, parts, read⟩ :=
          unsignedText_reads proper zero signed negative
        rw [documentText?_eq zero] at written
        rw [← Option.some.inj written, String.toList_ofList]
        exact finite?_of_parts (looksReal_unsignedText _ _ _).starts parts read

/-- Different numbers have different texts. -/
theorem documentText?_injective {x y : Binary64} {text : String} {signed : Bool}
    (proper : x.Proper) (proper' : y.Proper) (written : documentText? signed x = some text)
    (written' : documentText? signed y = some text) : x = y := by
  have read := finite?_documentText proper written
  rw [finite?_documentText proper' written'] at read
  exact (Option.some.inj read).symm

theorem documentText?_isSome {x : Binary64} (finite : x.isFinite = true) (signed : Bool) :
    ∃ text, documentText? signed x = some text := by
  cases x with
  | infinite negative => cases finite
  | notANumber => cases finite
  | finite negative significand exponent =>
      cases significand with
      | zero => exact ⟨_, rfl⟩
      | succ n => exact ⟨_, rfl⟩

/-- No text of a number of the format is that of an integer. -/
theorem documentText?_chars {x : Binary64} {text : String} {signed : Bool}
    (written : documentText? signed x = some text) :
    (∃ c ∈ text.toList, c = '.' ∨ c = 'e') ∧ ∀ c ∈ text.toList, isNumberChar c = true := by
  cases x with
  | infinite negative => cases written
  | notANumber => cases written
  | finite negative significand exponent =>
      by_cases zero : significand = 0
      · subst zero
        cases written
        cases negative <;> exact ⟨⟨'.', by decide, .inl rfl⟩, List.all_eq_true.mp (by decide)⟩
      · obtain ⟨-, ⟨c, member, mark⟩, number⟩ :=
          looksReal_unsignedText significand exponent signed
        rw [documentText?_eq zero] at written
        rw [← Option.some.inj written, String.toList_ofList]
        cases negative with
        | true => exact ⟨⟨c, by simp [member], mark⟩, by simpa [isNumberChar] using number⟩
        | false => exact ⟨⟨c, by simp [member], mark⟩, by simpa using number⟩

/-! Integers. -/

theorem toList_intText (i : Int) :
    (intText i).toList = if i < 0 then '-' :: natDigits i.natAbs else natDigits i.natAbs := by
  unfold intText natText
  split <;> simp

theorem intText_chars (i : Int) :
    (intText i).toList ≠ [] ∧ ∀ c ∈ (intText i).toList, isDigit c = true ∨ c = '-' := by
  have all := allDigits_natDigits i.natAbs
  rw [toList_intText]
  split
  · refine ⟨by simp, fun c member => ?_⟩
    rcases List.mem_cons.mp member with rfl | digit
    · exact .inr rfl
    · exact .inl (all c digit)
  · exact ⟨natDigits_ne_nil _, fun c member => .inl (all c member)⟩

theorem intText_injective {i j : Int} (same : intText i = intText j) : i = j := by
  have texts := congrArg String.toList same
  have value (n m : Nat) (equal : natDigits n = natDigits m) : n = m := by
    rw [← digitsValue_natDigits n, equal, digitsValue_natDigits]
  have signless (n m : Nat) : '-' :: natDigits n ≠ natDigits m := fun equal =>
    (not_digit_sign (allDigits_natDigits m '-' (equal ▸ List.mem_cons_self))).1 rfl
  rw [toList_intText, toList_intText] at texts
  split at texts <;> split at texts
  · have := value _ _ (List.cons.inj texts).2
    omega
  · exact absurd texts (signless _ _)
  · exact absurd texts.symm (signless _ _)
  · have := value _ _ texts
    omega

end ImageLock.Number
