/-
Reading comparators. A comparator is its operator and a version behind it: the reader spends
signs first and none of them afterwards, and it stops in front of a comma whatever is behind
that. Words with commas between them read as the row of the comparators that each of them is.
-/
import ImageLock.Proofs.Pieces
import ImageLock.Version.Constraint
import Mathlib.Data.List.Forall2
import Mathlib.Data.List.TakeWhile

namespace ImageLock

namespace Comparator

variable {text rest : List Char} {α β : Type}

/-! What is read. -/

/-- A character of the version behind an operator. -/
def isVersionChar (c : Char) : Bool :=
  c == ' ' || Prerelease.isIdentifierChar c || c == '.' || c == '*' || c == '+'

/-- Whatever is read of `text`, only characters of versions are. -/
def Spends (text : List Char) (read : Option (α × List Char)) : Prop :=
  ∀ a rest, read = some (a, rest) →
    ∃ used, text = used ++ rest ∧ ∀ c ∈ used, isVersionChar c = true

theorem spends_none : Spends text (none : Option (α × List Char)) := nofun

theorem spends_some (a : α) {used : List Char} (split : text = used ++ rest)
    (known : ∀ c ∈ used, isVersionChar c = true) : Spends text (some (a, rest)) := by
  intro b behind same
  cases same
  exact ⟨used, split, known⟩

theorem spends_rest (a : α) (text : List Char) : Spends text (some (a, text)) :=
  spends_some a (List.nil_append text).symm (List.forall_mem_nil _)

/-- What is spent in front of a reader and what the reader spends. -/
theorem Spends.behind {read : Option (α × List Char)} (later : Spends rest read)
    {used : List Char} (split : text = used ++ rest)
    (known : ∀ c ∈ used, isVersionChar c = true) : Spends text read := by
  intro a behind reads
  obtain ⟨more, same, knownMore⟩ := later a behind reads
  refine ⟨used ++ more, ?_, List.forall_mem_append.mpr ⟨known, knownMore⟩⟩
  rw [split, same, List.append_assoc]

theorem Spends.cons {read : Option (α × List Char)} {c : Char} (known : isVersionChar c = true)
    (later : Spends rest read) : Spends (c :: rest) read :=
  later.behind (List.singleton_append (x := c)).symm (List.forall_mem_singleton.mpr known)

theorem Spends.bind {read : Option (α × List Char)}
    {next : α × List Char → Option (β × List Char)} (first : Spends text read)
    (later : ∀ a rest, Spends rest (next (a, rest))) : Spends text (read.bind next) := by
  intro b behind done
  obtain ⟨⟨a, rest⟩, reads, goesOn⟩ := Option.bind_eq_some_iff.mp done
  obtain ⟨used, split, known⟩ := first a rest reads
  exact (later a rest).behind split known b behind goesOn

theorem takeWhile_known {p : Char → Bool} (among : ∀ c, p c = true → isVersionChar c = true)
    (text : List Char) : ∀ c ∈ text.takeWhile p, isVersionChar c = true :=
  fun c taken => among c (List.all_eq_true.mp List.all_takeWhile c taken)

theorem takeWhile_append_drop (p : Char → Bool) (text : List Char) :
    text = text.takeWhile p ++ text.drop (text.takeWhile p).length :=
  (List.prefix_iff_eq_append.mp (List.takeWhile_prefix p)).symm

theorem Spends.behindSpaces {read : Option (α × List Char)}
    (later : Spends (dropSpaces text) read) : Spends text read :=
  later.behind (List.takeWhile_append_dropWhile (p := (· == ' '))).symm
    (takeWhile_known (fun c space => by simp [isVersionChar, eq_of_beq space]) text)

theorem spends_takeNumber (text : List Char) : Spends text (takeNumber text) := by
  intro n rest read
  simp only [takeNumber] at read
  split at read
  · cases read
  · obtain ⟨_, -, same⟩ := Option.map_eq_some_iff.mp read
    cases same
    refine ⟨_, takeWhile_append_drop _ text, takeWhile_known (fun c digit => ?_) text⟩
    simp [isVersionChar, Prerelease.isIdentifierChar, digit]

theorem spends_takePart (text : List Char) : Spends text (takePart text) := by
  unfold takePart
  split
  · refine Spends.cons (by decide) ?_
    split
    · next wildcard =>
        unfold afterWildcard? at wildcard
        split at wildcard <;> cases wildcard <;>
          exact Spends.cons (by decide) (spends_rest _ _)
    · rw [Option.map_eq_bind]
      exact (spends_takeNumber _).bind fun n rest => spends_rest _ rest
  · exact spends_rest _ _

theorem spends_takeIdentifiers (isValid : List Char → Bool) (text : List Char) :
    Spends text (takeIdentifiers isValid text) := by
  simp only [takeIdentifiers]
  split
  · refine spends_some _ (takeWhile_append_drop _ text) (takeWhile_known (fun c known => ?_) text)
    simp only [Bool.or_eq_true] at known
    rcases known with identifier | dot
    · simp [isVersionChar, identifier]
    · simp [isVersionChar, dot]
  · exact spends_none

/-- The build of a comparator, which is dropped. -/
def takeBuild (isFull : Bool) (comparator : Comparator) (text : List Char) :
    Option (Comparator × List Char) := do
  let (_, rest) ← match isFull, text with
    | true, '+' :: rest => takeIdentifiers (!·.isEmpty) rest
    | _, rest => some ([], rest)
  return (comparator, dropSpaces rest)

/-- What may follow the numbers of a comparator. -/
def takeEnds (isFull : Bool) (finish : Prerelease → Comparator) (text : List Char) :
    Option (Comparator × List Char) := do
  let (prerelease, rest) ← match isFull, text with
    | true, '-' :: rest => takeIdentifiers Prerelease.isIdentifier rest
    | _, rest => some ([], rest)
  takeBuild isFull (finish prerelease) rest

theorem spends_takeBuild (isFull : Bool) (comparator : Comparator) (text : List Char) :
    Spends text (takeBuild isFull comparator text) := by
  have done (rest : List Char) : Spends rest (some (comparator, dropSpaces rest)) :=
    (spends_rest comparator (dropSpaces rest)).behindSpaces
  unfold takeBuild
  split
  · exact Spends.cons (by decide) ((spends_takeIdentifiers _ _).bind fun _ => done)
  · exact done _

theorem spends_takeEnds (isFull : Bool) (finish : Prerelease → Comparator) (text : List Char) :
    Spends text (takeEnds isFull finish text) := by
  have built (prerelease : Prerelease) (rest : List Char) :=
    spends_takeBuild isFull (finish prerelease) rest
  unfold takeEnds
  split
  · exact Spends.cons (by decide) ((spends_takeIdentifiers _ _).bind built)
  · exact built [] _

theorem signs_takeOperator (text : List Char) :
    ∃ signs, text = signs ++ (takeOperator text).2 ∧
      ∀ c ∈ signs, Constraint.isOperatorChar c = true := by
  unfold takeOperator
  split
  · exact ⟨['='], rfl, List.all_eq_true.mp rfl⟩
  · exact ⟨['>', '='], rfl, List.all_eq_true.mp rfl⟩
  · exact ⟨['>'], rfl, List.all_eq_true.mp rfl⟩
  · exact ⟨['<', '='], rfl, List.all_eq_true.mp rfl⟩
  · exact ⟨['<'], rfl, List.all_eq_true.mp rfl⟩
  · exact ⟨['~'], rfl, List.all_eq_true.mp rfl⟩
  · exact ⟨['^'], rfl, List.all_eq_true.mp rfl⟩
  · exact ⟨[], rfl, List.forall_mem_nil _⟩

/-- A comparator is spent as signs and a version. -/
theorem take_spends {comparator : Comparator} (read : take text = some (comparator, rest)) :
    ∃ signs version, text = signs ++ (version ++ rest) ∧
      (∀ c ∈ signs, Constraint.isOperatorChar c = true) ∧
      ∀ c ∈ version, isVersionChar c = true := by
  obtain ⟨signs, split, known⟩ := signs_takeOperator text
  unfold take at read
  generalize takeOperator text = taken at split read
  obtain ⟨operator, behind⟩ := taken
  dsimp only at split read
  suffices spends : Spends behind (some (comparator, rest)) by
    obtain ⟨version, splitBehind, knownVersion⟩ := spends _ _ rfl
    exact ⟨signs, version, by rw [split, splitBehind], known, knownVersion⟩
  rw [← read]
  have number : Spends behind (takeNumber (dropSpaces behind)) :=
    (spends_takeNumber _).behindSpaces
  refine number.bind fun major rest => (spends_takePart rest).bind fun minor rest =>
    (spends_takePart rest).bind fun patch rest => ?_
  dsimp only
  generalize patch.number?.isSome = isFull
  split
  · exact spends_none
  · exact spends_takeEnds _ _ _
  · exact spends_takeEnds _ _ _
  · exact spends_takeEnds _ _ _

/-! What is not read. -/

/-- A reader that stops in front of a comma, whatever is behind it. -/
def Stops (read : List Char → Option (α × List Char)) : Prop :=
  ∀ text rest, read (text ++ ',' :: rest) =
    (read text).map fun taken => (taken.1, taken.2 ++ ',' :: rest)

theorem stops_none : Stops fun _ => (none : Option (α × List Char)) := fun _ _ => rfl

theorem Stops.bind {read : List Char → Option (α × List Char)}
    {next : α × List Char → Option (β × List Char)} (first : Stops read)
    (later : ∀ a, Stops fun rest => next (a, rest)) : Stops fun text => (read text).bind next := by
  intro text rest
  dsimp only
  rw [first text rest]
  cases read text with
  | none => rfl
  | some taken => exact later taken.1 taken.2 rest

theorem takeWhile_comma {p : Char → Bool} (other : p ',' = false) (text rest : List Char) :
    (text ++ ',' :: rest).takeWhile p = text.takeWhile p := by
  induction text with
  | nil => simp [other]
  | cons c text ih => simp only [List.cons_append, List.takeWhile_cons, ih]

theorem drop_comma {p : Char → Bool} (text rest : List Char) :
    (text ++ ',' :: rest).drop (text.takeWhile p).length =
      text.drop (text.takeWhile p).length ++ ',' :: rest :=
  List.drop_append_of_le_length (List.takeWhile_prefix p).length_le

theorem dropSpaces_comma (text rest : List Char) :
    dropSpaces (text ++ ',' :: rest) = dropSpaces text ++ ',' :: rest := by
  induction text with
  | nil => rfl
  | cons c text ih =>
      by_cases space : c = ' '
      · simpa [dropSpaces, space] using ih
      · simp [dropSpaces, space]

theorem takeOperator_comma (text rest : List Char) :
    takeOperator (text ++ ',' :: rest) =
      ((takeOperator text).1, (takeOperator text).2 ++ ',' :: rest) := by
  fun_cases takeOperator text
  case case3 rest other => cases rest <;> simp_all [takeOperator]
  case case5 rest other => cases rest <;> simp_all [takeOperator]
  case case8 => cases text <;> simp_all [takeOperator]
  all_goals rfl

theorem stops_takeNumber : Stops takeNumber := by
  intro text rest
  simp only [takeNumber, takeWhile_comma (p := Text.isDigit) (by decide), drop_comma]
  split
  · rfl
  · cases Version.number? (text.takeWhile Text.isDigit) <;> rfl

theorem afterWildcard?_comma (text rest : List Char) :
    afterWildcard? (text ++ ',' :: rest) = (afterWildcard? text).map (· ++ ',' :: rest) := by
  fun_cases afterWildcard? text
  case case4 => cases text <;> simp_all [afterWildcard?]
  all_goals rfl

theorem stops_takePart : Stops takePart := by
  intro text rest
  fun_cases takePart text
  case case1 behind after wildcard =>
    simp [takePart, afterWildcard?_comma, wildcard]
  case case2 behind number =>
    simp only [takePart, List.cons_append, afterWildcard?_comma, number, Option.map_none,
      stops_takeNumber behind rest, Option.map_map]
    rfl
  case case3 => cases text <;> simp_all [takePart]

theorem stops_takeIdentifiers (isValid : List Char → Bool) : Stops (takeIdentifiers isValid) := by
  intro text rest
  simp only [takeIdentifiers, takeWhile_comma
    (p := fun c => Prerelease.isIdentifierChar c || c == '.') (by decide), drop_comma]
  split <;> rfl

/-- A reader that goes on in one way behind a mark and in another without it. -/
theorem stops_marked (mark : Char) (other : mark ≠ ',')
    {read marked unmarked : List Char → Option (α × List Char)}
    (stopsMarked : Stops marked) (stopsUnmarked : Stops unmarked)
    (readMarked : ∀ rest, read (mark :: rest) = marked rest)
    (readUnmarked : ∀ text, text.head? ≠ some mark → read text = unmarked text) :
    Stops read := by
  intro text rest
  by_cases starts : text.head? = some mark
  · obtain ⟨behind, rfl⟩ := List.head?_eq_some_iff.mp starts
    rw [List.cons_append, readMarked, readMarked]
    exact stopsMarked behind rest
  · have comma : (text ++ ',' :: rest).head? ≠ some mark := by
      cases text with
      | nil => simpa using other.symm
      | cons c text => simpa using starts
    rw [readUnmarked _ starts, readUnmarked _ comma]
    exact stopsUnmarked text rest

theorem stops_takeBuild (isFull : Bool) (comparator : Comparator) :
    Stops (takeBuild isFull comparator) := by
  have done : Stops fun rest => some (comparator, dropSpaces rest) := by
    intro text rest
    simp [dropSpaces_comma]
  cases isFull with
  | false => exact done
  | true =>
      refine stops_marked '+' (by decide) ?_ done (fun _ => rfl) ?_
      · exact Stops.bind (stops_takeIdentifiers _) fun _ => done
      · intro text starts
        unfold takeBuild
        split <;> simp_all

theorem stops_takeEnds (isFull : Bool) (finish : Prerelease → Comparator) :
    Stops (takeEnds isFull finish) := by
  have built (prerelease : Prerelease) := stops_takeBuild isFull (finish prerelease)
  cases isFull with
  | false => exact built []
  | true =>
      refine stops_marked '-' (by decide) ?_ (built []) (fun _ => rfl) ?_
      · exact Stops.bind (stops_takeIdentifiers _) built
      · intro text starts
        unfold takeEnds
        split
        · simp at starts
        · rfl

theorem stops_take : Stops take := by
  intro text rest
  unfold take
  rw [takeOperator_comma]
  generalize takeOperator text = taken
  obtain ⟨operator, behind⟩ := taken
  dsimp only
  have number : Stops fun text => takeNumber (dropSpaces text) := by
    intro text rest
    dsimp only
    rw [dropSpaces_comma, stops_takeNumber]
  refine Stops.bind number (fun major => ?_) behind rest
  dsimp only
  refine Stops.bind stops_takePart fun minor => ?_
  dsimp only
  refine Stops.bind stops_takePart fun patch => ?_
  dsimp only
  generalize patch.number?.isSome = isFull
  split
  · exact stops_none
  · exact stops_takeEnds _ _
  · exact stops_takeEnds _ _
  · exact stops_takeEnds _ _

/-- The comparator that a word is, if nothing of it remains. -/
def ofWord? (word : List Char) : Option Comparator :=
  match take word with
  | some (comparator, []) => some comparator
  | _ => none

theorem ofWord?_of_wildcard {word rest : List Char} (wildcard : afterWildcard? word = some rest) :
    ofWord? word = none := by
  unfold afterWildcard? at wildcard
  split at wildcard <;> first | rfl | cases wildcard

end Comparator

namespace Constraint

theorem sign_cases {c : Char} (sign : isOperatorChar c = true) :
    c = '<' ∨ c = '>' ∨ c = '=' ∨ c = '~' ∨ c = '^' ∨ c = '!' := by
  simpa [isOperatorChar] using sign

/-- A word has characters, and no separator among them. -/
def IsWord (word : List Char) : Prop := word ≠ [] ∧ ∀ c ∈ word, isSeparator c = false

theorem notSeparator_of_isDigit {c : Char} (digit : Text.isDigit c = true) :
    isSeparator c = false := by
  apply Bool.eq_false_iff.mpr
  intro separates
  rcases (Bool.or_eq_true ..).mp separates with space | comma
  · rw [eq_of_beq space] at digit
    cases digit
  · rw [eq_of_beq comma] at digit
    cases digit

theorem notSeparator_of_sign {c : Char} (sign : isOperatorChar c = true) :
    isSeparator c = false := by
  rcases sign_cases sign with rfl | rfl | rfl | rfl | rfl | rfl <;> rfl

theorem forall_notSeparator {text : List Char} (clean : text.any isSeparator = false) :
    ∀ c ∈ text, isSeparator c = false :=
  fun c member => Bool.eq_false_iff.mpr (List.any_eq_false.mp clean c member)

theorem IsWord.dropSpaces {word : List Char} (isWord : IsWord word) (text : List Char) :
    Comparator.dropSpaces (word ++ text) = word ++ text := by
  obtain ⟨some, clean⟩ := isWord
  cases word with
  | nil => exact absurd rfl some
  | cons c word =>
      have visible : (c == ' ') = false :=
        (Bool.or_eq_false_iff.mp (clean c List.mem_cons_self)).1
      simp [Comparator.dropSpaces, visible]

/-- Behind the first word there is nothing, or a comma and other words. -/
theorem joinWords_cons (word : List Char) (ws : List (List Char)) :
    ∃ behind, joinWords (word :: ws) = word ++ behind ∧
      (ws = [] ∧ behind = [] ∨ ws ≠ [] ∧ ',' ∈ behind) := by
  cases ws with
  | nil => exact ⟨[], (List.append_nil word).symm, .inl ⟨rfl, rfl⟩⟩
  | cons next rest => exact ⟨_, List.append_assoc .., .inr ⟨nofun, List.mem_cons_self⟩⟩

theorem dropSpaces_joinWords {ws : List (List Char)} (clean : ∀ word ∈ ws, IsWord word) :
    Comparator.dropSpaces (joinWords ws) = joinWords ws := by
  cases ws with
  | nil => rfl
  | cons word ws =>
      obtain ⟨behind, same, -⟩ := joinWords_cons word ws
      rw [same]
      exact (clean word List.mem_cons_self).dropSpaces behind

end Constraint

namespace Requirement

open Comparator Constraint

/-- No comma remains of a word. -/
theorem comma_notMem_rest {word rest : List Char} {comparator : Comparator}
    (isWord : IsWord word) (read : take word = some (comparator, rest)) : ',' ∉ rest := by
  obtain ⟨signs, version, split, -⟩ := take_spends read
  intro comma
  exact absurd (isWord.2 ',' (by simp [split, comma])) (by decide)

theorem takeAll_word {word : List Char} (isWord : IsWord word) (fuel : Nat) :
    takeAll (fuel + 1) word = (ofWord? word).map fun comparator => [comparator] := by
  unfold takeAll ofWord?
  cases read : take word with
  | none => rfl
  | some taken =>
      obtain ⟨comparator, rest⟩ := taken
      rcases rest with _ | ⟨c, rest⟩
      · rfl
      · have other : c ≠ ',' := by
          rintro rfl
          exact comma_notMem_rest isWord read List.mem_cons_self
        simp [other]

theorem takeAll_word_append {word behind : List Char} (isWord : IsWord word) (fuel : Nat) :
    takeAll (fuel + 1) (word ++ ", ".toList ++ behind) = (ofWord? word).bind fun comparator =>
      (takeAll fuel (dropSpaces behind)).map fun others => comparator :: others := by
  have comma : word ++ ", ".toList ++ behind = word ++ ',' :: ' ' :: behind := by simp
  have space : dropSpaces (' ' :: behind) = dropSpaces behind := rfl
  rw [comma, takeAll, stops_take, ofWord?]
  cases read : take word with
  | none => rfl
  | some taken =>
      obtain ⟨comparator, rest⟩ := taken
      rcases rest with _ | ⟨c, rest⟩
      · simp only [Option.map_some, List.nil_append, Option.bind_eq_bind, Option.bind_some, space]
        exact (Option.map_eq_bind ..).symm
      · have other : c ≠ ',' := by
          rintro rfl
          exact comma_notMem_rest isWord read List.mem_cons_self
        simp [other]

theorem mapM_cons {α β : Type} (read : α → Option β) (a : α) (others : List α) :
    (a :: others).mapM read =
      (read a).bind fun b => (others.mapM read).map fun behind => b :: behind := by
  rw [List.mapM_cons]
  exact bind_congr fun b => (Option.map_eq_bind ..).symm

/-- A row is read one by one. -/
theorem mapM_eq_some {α β : Type} {read : α → Option β} {as : List α} {bs : List β} :
    as.mapM read = some bs ↔ List.Forall₂ (fun a b => read a = some b) as bs := by
  induction as generalizing bs with
  | nil => simp [eq_comm]
  | cons a as ih =>
      rw [mapM_cons, Option.bind_eq_some_iff]
      constructor
      · rintro ⟨b, first, later⟩
        obtain ⟨others, behind, rfl⟩ := Option.map_eq_some_iff.mp later
        exact .cons first (ih.mp behind)
      · rintro (_ | ⟨first, behind⟩)
        exact ⟨_, first, Option.map_eq_some_iff.mpr ⟨_, ih.mpr behind, rfl⟩⟩

/-- Words with commas between them are read one by one. -/
theorem takeAll_joinWords {ws : List (List Char)} (clean : ∀ word ∈ ws, IsWord word)
    (any : ws ≠ []) (fuel : Nat) :
    takeAll fuel (joinWords ws) = if ws.length ≤ fuel then ws.mapM ofWord? else none := by
  induction ws generalizing fuel with
  | nil => exact absurd rfl any
  | cons word ws ih =>
      have isWord := clean word List.mem_cons_self
      cases fuel with
      | zero => rfl
      | succ fuel =>
          cases ws with
          | nil =>
              rw [joinWords, takeAll_word isWord, List.mapM_cons]
              cases ofWord? word <;> rfl
          | cons next rest =>
              have later := List.forall_mem_cons.mp clean |>.2
              rw [joinWords, takeAll_word_append isWord, dropSpaces_joinWords later,
                ih later nofun, mapM_cons ofWord? word]
              · simp only [List.length_cons, Nat.add_le_add_iff_right]
                split
                · rfl
                · cases ofWord? word <;> rfl
              · nofun

/-- A wildcard stands alone. -/
def IsWildcard (ws : List (List Char)) : Prop :=
  ∃ word, ws = [word] ∧ afterWildcard? word = some []

theorem afterWildcard?_append {word : List Char} (any : word ≠ []) (behind : List Char) :
    afterWildcard? (word ++ behind) = (afterWildcard? word).map fun rest => rest ++ behind := by
  fun_cases afterWildcard? word
  case case4 => cases word <;> simp_all [afterWildcard?]
  all_goals rfl

/-- A wildcard with nothing but spaces behind it is the only word. -/
theorem isWildcard_iff {word inside behind : List Char} {ws : List (List Char)}
    (isWord : IsWord word) (wildcard : afterWildcard? word = some inside)
    (alone : ws = [] ∧ behind = [] ∨ ws ≠ [] ∧ ',' ∈ behind) :
    IsWildcard (word :: ws) ↔ (dropSpaces (inside ++ behind)).isEmpty = true := by
  have spaces : (dropSpaces (inside ++ behind)).isEmpty = true ↔
      ∀ c ∈ inside ++ behind, (c == ' ') = true := by
    rw [List.isEmpty_iff]
    exact List.dropWhile_eq_nil_iff
  rw [spaces]
  have clean : ∀ c ∈ inside, (c == ' ') = false := by
    intro c member
    obtain ⟨mark, rfl⟩ : ∃ mark, word = mark :: inside := by
      unfold afterWildcard? at wildcard
      split at wildcard <;> cases wildcard <;> exact ⟨_, rfl⟩
    exact (Bool.or_eq_false_iff.mp (isWord.2 c (List.mem_cons_of_mem _ member))).1
  constructor
  · rintro ⟨only, same, last⟩
    obtain ⟨rfl, rfl⟩ := List.cons.inj same
    obtain rfl : inside = [] := by simpa [wildcard] using last
    simp_all
  · intro all
    obtain rfl : inside = [] := by
      apply List.eq_nil_iff_forall_not_mem.mpr
      intro c member
      exact absurd (all c (List.mem_append_left _ member)) (by simp [clean c member])
    obtain ⟨rfl, -⟩ := alone.resolve_right fun ⟨_, comma⟩ =>
      absurd (all ',' (List.mem_append_right _ comma)) (by decide)
    exact ⟨word, rfl, wildcard⟩

/-- What words with commas between them demand: nothing if they are a wildcard, and otherwise
what each of them does, of which there are not too many. -/
theorem parse?_joinWords {ws : List (List Char)} (clean : ∀ word ∈ ws, IsWord word)
    {requirement : Requirement} : parse? (joinWords ws) = some requirement ↔
      IsWildcard ws ∧ requirement = [] ∨
        ws ≠ [] ∧ ws.length ≤ sizeLimit ∧ ws.mapM ofWord? = some requirement := by
  cases ws with
  | nil =>
      have nothing : parse? (joinWords []) = none := rfl
      simp [nothing, IsWildcard]
  | cons word ws =>
      have isWord := clean word List.mem_cons_self
      obtain ⟨behind, same, alone⟩ := joinWords_cons word ws
      have mark : afterWildcard? (joinWords (word :: ws)) =
          (afterWildcard? word).map fun rest => rest ++ behind := by
        rw [same, afterWildcard?_append isWord.1]
      simp only [parse?, dropSpaces_joinWords clean]
      rw [mark, takeAll_joinWords clean nofun]
      cases wildcard : afterWildcard? word with
      | none =>
          have other : ¬IsWildcard (word :: ws) := by
            rintro ⟨only, only', last⟩
            cases only'
            rw [wildcard] at last
            cases last
          simp only [Option.map_none, other, false_and, false_or, ne_eq, reduceCtorEq,
            not_false_eq_true, true_and, Option.ite_none_right_eq_some]
      | some inside =>
          have unread : (word :: ws).mapM ofWord? = none := by
            rw [mapM_cons, ofWord?_of_wildcard wildcard]
            rfl
          rw [Option.map_some, isWildcard_iff isWord wildcard alone, unread]
          by_cases done : (dropSpaces (inside ++ behind)).isEmpty = true
          · simp [done, eq_comm]
          · simp [done]

end Requirement
end ImageLock
