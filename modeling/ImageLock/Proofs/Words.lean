/-
The words of an alternative. Each of them demands what it demands as a constraint of its own,
where a tilde before two numbers counts as two comparators.
-/
import ImageLock.Proofs.Alternatives
import ImageLock.Proofs.NumberText

namespace ImageLock.Constraint

open Comparator Requirement

/-! Tildes. -/

/-- The number and the text behind a tilde that bounds the former. -/
def tildePair? (word : List Char) : Option (Nat × List Char) :=
  match word with
  | '~' :: version =>
      if version.head?.any fun c => c == '>' || c == '=' then none
      else match Text.splitWhere (· == '.') version with
        | [first, minor] => (Version.number? first).map fun major => (major, minor)
        | _ => none
  | _ => none

def atLeast (major : Nat) (minor : List Char) : List Char :=
  ">=".toList ++ Number.natDigits major ++ '.' :: minor ++ ".0".toList

def belowNext (major : Nat) : List Char :=
  '<' :: Number.natDigits ((major + 1) % Version.numberBound) ++ ".0.0".toList

/-- The comparators that a word stands for. -/
def spelledOut (word : List Char) : List (List Char) :=
  match tildePair? word with
  | some (major, minor) => [atLeast major minor, belowNext major]
  | none => [word]

theorem spelledOut_ne_nil (word : List Char) : spelledOut word ≠ [] := by
  unfold spelledOut
  split <;> nofun

theorem length_spelledOut (word : List Char) : (spelledOut word).length ≤ 2 := by
  unfold spelledOut
  split <;> simp

theorem expandTilde_eq (word : List Char) : expandTilde word = joinWords (spelledOut word) := by
  unfold spelledOut
  fun_cases tildePair? word with
  | case1 version open? => simp [expandTilde, joinWords, open?]
  | case2 version closed first minor pieces =>
      cases number : Version.number? first <;>
        simp [expandTilde, joinWords, closed, pieces, number, atLeast, belowNext]
  | case3 version closed other =>
      simp only [expandTilde, if_neg closed, joinWords]
  | case4 _ other =>
      unfold expandTilde
      split
      · exact absurd rfl (other _)
      · rfl

theorem eq_of_tildePair? {word minor : List Char} {major : Nat}
    (pair : tildePair? word = some (major, minor)) :
    ∃ first, word = '~' :: (first ++ '.' :: minor) ∧ Version.number? first = some major := by
  unfold tildePair? at pair
  split at pair
  · next version =>
      split at pair
      · cases pair
      · split at pair
        · next first second pieces =>
            obtain ⟨number, read, same⟩ := Option.map_eq_some_iff.mp pair
            cases same
            obtain ⟨c, dot, rfl⟩ := Text.eq_of_splitWhere_pair pieces
            obtain rfl := eq_of_beq dot
            exact ⟨first, rfl, read⟩
        · cases pair
  · cases pair

theorem isWord_spelledOut {word : List Char} (isWord : IsWord word) :
    ∀ part ∈ spelledOut word, IsWord part := by
  unfold spelledOut
  split
  · next major minor pair =>
      obtain ⟨first, rfl, -⟩ := eq_of_tildePair? pair
      have clean (c : Char) (member : c ∈ minor) : isSeparator c = false :=
        isWord.2 c (by simp [member])
      have digits (n : Nat) (c : Char) (member : c ∈ Number.natDigits n) :=
        notSeparator_of_isDigit (Number.allDigits_natDigits n c member)
      refine List.forall_mem_cons.mpr ⟨?_, List.forall_mem_singleton.mpr ?_⟩
      · refine ⟨by simp [atLeast], ?_⟩
        simp only [atLeast, List.forall_mem_append, List.forall_mem_cons]
        exact ⟨⟨⟨forall_notSeparator rfl, digits major⟩, rfl, clean⟩, forall_notSeparator rfl⟩
      · refine ⟨by simp [belowNext], ?_⟩
        simp only [belowNext, List.forall_mem_append, List.forall_mem_cons]
        exact ⟨⟨rfl, digits _⟩, forall_notSeparator rfl⟩
  · simpa using isWord

/-! Rows of words. -/

theorem joinWords_cons_of_ne_nil (word : List Char) {others : List (List Char)}
    (more : others ≠ []) :
    joinWords (word :: others) = word ++ ", ".toList ++ joinWords others := by
  obtain ⟨next, others, rfl⟩ := List.exists_cons_of_ne_nil more
  rfl

theorem joinWords_append {front back : List (List Char)} (some : front ≠ []) (more : back ≠ []) :
    joinWords (front ++ back) = joinWords front ++ ", ".toList ++ joinWords back := by
  induction front with
  | nil => exact absurd rfl some
  | cons word front ih =>
      cases front with
      | nil => exact joinWords_cons_of_ne_nil word more
      | cons next front =>
          have behind : next :: front ++ back ≠ [] := List.append_ne_nil_of_right_ne_nil _ more
          rw [List.cons_append, joinWords_cons_of_ne_nil word behind, ih nofun,
            joinWords_cons_of_ne_nil word (List.cons_ne_nil next front)]
          simp only [List.append_assoc]

theorem joinWords_map_expandTilde (ws : List (List Char)) :
    joinWords (ws.map expandTilde) = joinWords (ws.flatMap spelledOut) := by
  induction ws with
  | nil => rfl
  | cons word ws ih =>
      rw [List.flatMap_cons, List.map_cons]
      cases ws with
      | nil => rw [List.flatMap_nil, List.append_nil, ← expandTilde_eq]; rfl
      | cons next ws =>
          have more : (next :: ws).flatMap spelledOut ≠ [] := by
            rw [List.flatMap_cons]
            exact List.append_ne_nil_of_left_ne_nil (spelledOut_ne_nil next) _
          rw [joinWords_append (spelledOut_ne_nil word) more, ← ih, ← expandTilde_eq]
          rfl

theorem isWord_joinOperators {tokens : List (List Char)} (clean : ∀ token ∈ tokens, IsWord token) :
    ∀ word ∈ joinOperators tokens, IsWord word := by
  induction tokens with
  | nil => nofun
  | cons token tokens ih =>
      obtain ⟨first, others⟩ := List.forall_mem_cons.mp clean
      have later := ih others
      unfold joinOperators
      split
      · exact List.forall_mem_singleton.mpr first
      · next next rest same =>
          rw [same] at later
          obtain ⟨second, behind⟩ := List.forall_mem_cons.mp later
          split
          · refine List.forall_mem_cons.mpr ⟨⟨?_, ?_⟩, behind⟩
            · exact List.append_ne_nil_of_left_ne_nil first.1 next
            · exact List.forall_mem_append.mpr ⟨first.2, second.2⟩
          · exact List.forall_mem_cons.mpr ⟨first, later⟩

/-- The words of a text before signs are joined with what follows them. -/
def tokens (text : List Char) : List (List Char) :=
  (Text.splitWhere isSeparator text).filter fun token => !token.isEmpty

theorem words_eq (alternative : List Char) :
    words alternative = joinOperators (tokens alternative) := rfl

theorem isWord_tokens (text : List Char) : ∀ token ∈ tokens text, IsWord token := by
  intro token member
  obtain ⟨inside, some⟩ := List.mem_filter.mp member
  exact ⟨by simpa using some, Text.notSeparator_of_mem_splitWhere inside⟩

theorem isWord_words (alternative : List Char) : ∀ word ∈ words alternative, IsWord word :=
  isWord_joinOperators (isWord_tokens alternative)

theorem tokens_word {word : List Char} (isWord : IsWord word) : tokens word = [word] := by
  rw [tokens, Text.splitWhere_of_none isWord.2]
  simp [isWord.1]

theorem words_word {word : List Char} (isWord : IsWord word) : words word = [word] := by
  rw [words_eq, tokens_word isWord]
  rfl

theorem isWord_flatMap_spelledOut {ws : List (List Char)} (clean : ∀ word ∈ ws, IsWord word) :
    ∀ part ∈ ws.flatMap spelledOut, IsWord part := by
  intro part member
  obtain ⟨word, inside, member⟩ := List.mem_flatMap.mp member
  exact isWord_spelledOut (clean word inside) part member

theorem flatMap_spelledOut_eq_nil {ws : List (List Char)} :
    ws.flatMap spelledOut = [] ↔ ws = [] := by
  cases ws with
  | nil => simp
  | cons word ws => simp [spelledOut_ne_nil]

theorem exists_of_flatMap_spelledOut {ws : List (List Char)} {part : List Char}
    (alone : ws.flatMap spelledOut = [part]) : ∃ word, ws = [word] := by
  cases ws with
  | nil => cases alone
  | cons word ws =>
      obtain ⟨first, rest, spelled⟩ := List.exists_cons_of_ne_nil (spelledOut_ne_nil word)
      rw [List.flatMap_cons, spelled] at alone
      have nothing : rest ++ ws.flatMap spelledOut = [] := (List.cons.inj alone).2
      rw [flatMap_spelledOut_eq_nil.mp (List.append_eq_nil_iff.mp nothing).2]
      exact ⟨word, rfl⟩

theorem requirement?_eq (alternative : List Char) : requirement? alternative =
    Requirement.parse? (joinWords ((words alternative).flatMap spelledOut)) := by
  rw [requirement?, joinWords_map_expandTilde]

/-- An alternative is a wildcard, or a row of comparators which are not too many. -/
theorem requirement?_iff {alternative : List Char} {requirement : Requirement} :
    requirement? alternative = some requirement ↔
      IsWildcard ((words alternative).flatMap spelledOut) ∧ requirement = [] ∨
        words alternative ≠ [] ∧ ((words alternative).flatMap spelledOut).length ≤ sizeLimit ∧
          ((words alternative).flatMap spelledOut).mapM ofWord? = some requirement := by
  rw [requirement?_eq, parse?_joinWords (isWord_flatMap_spelledOut (isWord_words alternative)),
    ne_eq, flatMap_spelledOut_eq_nil]

/-! What words demand. -/

theorem forall_of_mapM {α β : Type} {read : α → Option β} {as : List α} {bs : List β}
    (reads : as.mapM read = some bs) (holds : β → Prop) :
    (∀ b ∈ bs, holds b) ↔ ∀ a ∈ as, ∃ b, read a = some b ∧ holds b := by
  have each := mapM_eq_some.mp reads
  clear reads
  induction each with
  | nil => simp
  | cons first _ ih => simp [ih, first]

theorem exists_of_mapM {α β : Type} {read : α → Option β} {as : List α} {bs : List β}
    (reads : as.mapM read = some bs) : ∀ a ∈ as, ∃ b, read a = some b := by
  simpa using (forall_of_mapM reads fun _ => True).mp fun _ _ => trivial

theorem mapM_of_exists {α β : Type} {read : α → Option β} {as : List α}
    (each : ∀ a ∈ as, ∃ b, read a = some b) : ∃ bs, as.mapM read = some bs := by
  induction as with
  | nil => exact ⟨[], rfl⟩
  | cons a as ih =>
      obtain ⟨⟨b, first⟩, later⟩ := List.forall_mem_cons.mp each
      obtain ⟨bs, reads⟩ := ih later
      exact ⟨b :: bs, mapM_eq_some.mpr (.cons first (mapM_eq_some.mp reads))⟩

/-- A version is all that a word stands for. -/
def MeetsWord (word : List Char) (v : Core) : Prop :=
  ∀ part ∈ spelledOut word, ∃ comparator,
    ofWord? part = some comparator ∧ comparator.admits v = true

theorem admits_iff_forall {requirement : Requirement} {v : Core} :
    requirement.admits v = true ↔ ∀ comparator ∈ requirement, comparator.admits v = true :=
  List.all_eq_true

/-- A row demands what its words do. -/
theorem admits_iff_meetsWord {ws : List (List Char)} {requirement : Requirement}
    (reads : (ws.flatMap spelledOut).mapM ofWord? = some requirement) (v : Core) :
    requirement.admits v = true ↔ ∀ word ∈ ws, MeetsWord word v := by
  rw [admits_iff_forall, forall_of_mapM reads]
  exact List.forall_mem_flatMap

/-- A word of a row is a requirement of its own. -/
theorem requirement?_word {word : List Char} (isWord : IsWord word)
    (reads : ∀ part ∈ spelledOut word, ∃ comparator, ofWord? part = some comparator) :
    ∃ requirement, requirement? word = some requirement ∧
      ∀ v, requirement.admits v = true ↔ MeetsWord word v := by
  obtain ⟨requirement, row⟩ := mapM_of_exists reads
  refine ⟨requirement, ?_, fun v => ?_⟩
  · apply requirement?_iff.mpr
    rw [words_word isWord]
    refine .inr ⟨nofun, ?_, ?_⟩
    · rw [List.flatMap_singleton]
      exact (length_spelledOut word).trans (by decide)
    · rwa [List.flatMap_singleton]
  · exact admits_iff_forall.trans (forall_of_mapM row _)

/-- What is read alike by itself and as the only word. -/
theorem requirement?_of_words {alternative word : List Char} (only : words alternative = [word]) :
    requirement? word = requirement? alternative := by
  have isWord := isWord_words alternative word (by simp [only])
  rw [requirement?_eq, requirement?_eq, only, words_word isWord]

/-- An alternative demands what each of its words demands by itself. -/
theorem admits_iff_words {alternative : List Char} {requirement : Requirement}
    (read : requirement? alternative = some requirement) (v : Core) :
    requirement.admits v = true ↔ ∀ word ∈ words alternative, ∃ own,
      requirement? word = some own ∧ own.admits v = true := by
  rcases requirement?_iff.mp read with ⟨⟨part, alone, -⟩, -⟩ | ⟨-, -, row⟩
  · obtain ⟨word, only⟩ := exists_of_flatMap_spelledOut alone
    rw [only, List.forall_mem_singleton, requirement?_of_words only, read]
    simp
  · rw [admits_iff_meetsWord row]
    refine forall₂_congr fun word member => ?_
    have isWord := isWord_words alternative word member
    obtain ⟨own, reads, same⟩ := requirement?_word isWord fun part inside =>
      exists_of_mapM row part (List.mem_flatMap.mpr ⟨word, member, inside⟩)
    simp [reads, same]

/-! Separators. -/

variable {seps : List Char}

theorem tokens_separators_append (separates : ∀ c ∈ seps, isSeparator c = true)
    (text : List Char) : tokens (seps ++ text) = tokens text := by
  induction seps with
  | nil => rfl
  | cons c seps ih =>
      obtain ⟨first, others⟩ := List.forall_mem_cons.mp separates
      rw [← ih others, List.cons_append, tokens, Text.splitWhere, if_pos first]
      rfl

theorem tokens_append (any : seps ≠ []) (separates : ∀ c ∈ seps, isSeparator c = true)
    (front back : List Char) : tokens (front ++ (seps ++ back)) = tokens front ++ tokens back := by
  obtain ⟨c, seps, rfl⟩ := List.exists_cons_of_ne_nil any
  obtain ⟨first, others⟩ := List.forall_mem_cons.mp separates
  rw [← tokens_separators_append others back, List.cons_append, tokens,
    Text.splitWhere_append first, List.filter_append]
  rfl

theorem tokens_append_separators (separates : ∀ c ∈ seps, isSeparator c = true)
    (text : List Char) : tokens (text ++ seps) = tokens text := by
  cases seps with
  | nil => rw [List.append_nil]
  | cons c seps =>
      have apart := tokens_append (List.cons_ne_nil c seps) separates text []
      rw [List.append_nil] at apart
      rw [apart]
      exact List.append_nil _

/-! Signs. -/

theorem joinOperators_cons_of_not {word : List Char} (other : word.all isOperatorChar = false)
    (ws : List (List Char)) : joinOperators (word :: ws) = word :: joinOperators ws := by
  rw [joinOperators]
  split
  · next none => rw [none]
  · next next rest same => rw [other, same]; rfl

theorem joinOperators_cons_of_all {word next : List Char} {ws rest : List (List Char)}
    (signs : word.all isOperatorChar = true) (same : joinOperators ws = next :: rest) :
    joinOperators (word :: ws) = (word ++ next) :: rest := by
  rw [joinOperators, same]
  exact if_pos signs

/-! Texts of rows. -/

/-- What is written in a row has separators in between, and perhaps others in front and behind. -/
inductive Row {α : Type} (writes : α → List Char → Prop) : List α → List Char → Prop where
  | last (front : List Char) (separates : ∀ c ∈ front, isSeparator c = true) {a : α}
      {text : List Char} (written : writes a text) (back : List Char)
      (separates' : ∀ c ∈ back, isSeparator c = true) :
      Row writes [a] (front ++ (text ++ back))
  | cons (front : List Char) (separates : ∀ c ∈ front, isSeparator c = true) {a : α}
      {text : List Char} (written : writes a text) (between : List Char) (any : between ≠ [])
      (separates' : ∀ c ∈ between, isSeparator c = true) {others : List α} {rest : List Char}
      (row : Row writes others rest) :
      Row writes (a :: others) (front ++ (text ++ (between ++ rest)))

/-- A text of a row has the words of what is written in it. -/
theorem Row.words_eq {α : Type} {writes : α → List Char → Prop} {word : α → List Char}
    (joins : ∀ a text, writes a text → ∀ ws,
      joinOperators (tokens text ++ ws) = word a :: joinOperators ws)
    {row : List α} {text : List Char} (isRow : Row writes row text) :
    words text = row.map word := by
  rw [Constraint.words_eq]
  induction isRow with
  | last front separates written back separates' =>
      rw [tokens_separators_append separates, tokens_append_separators separates',
        ← List.append_nil (tokens _), joins _ _ written]
      rfl
  | cons front separates written between any separates' _ ih =>
      rw [tokens_separators_append separates, tokens_append any separates', joins _ _ written, ih]
      rfl

theorem Row.ne_nil {α : Type} {writes : α → List Char → Prop} {row : List α} {text : List Char}
    (isRow : Row writes row text) : row ≠ [] := by
  cases isRow <;> nofun

end ImageLock.Constraint
