/-
Texts in pieces. What separates pieces is in none of them, everything else is, and a text in
front of a separator is taken apart as it is without what follows.
-/
import ImageLock.Text.Cut

namespace ImageLock.Text

/-! Pieces between separators. -/

theorem splitWhere_ne_nil (p : Char → Bool) (text : List Char) :
    splitWhere p text ≠ [] := by
  cases text with
  | nil => simp [splitWhere]
  | cons c rest =>
      by_cases here : p c
      · simp [splitWhere, here]
      · simp only [splitWhere, here, Bool.false_eq_true, if_false]
        split <;> simp

theorem splitWhere_append {p : Char → Bool} {c : Char} (separates : p c = true)
    (front back : List Char) :
    splitWhere p (front ++ c :: back) = splitWhere p front ++ splitWhere p back := by
  induction front with
  | nil => simp [splitWhere, separates]
  | cons d rest ih =>
      by_cases here : p d
      · simp [splitWhere, here, ih]
      · cases pieces : splitWhere p rest with
        | nil => exact absurd pieces (splitWhere_ne_nil p rest)
        | cons piece pieces => simp_all [splitWhere]

theorem splitWhere_of_none {p : Char → Bool} {text : List Char}
    (whole : ∀ c ∈ text, p c = false) : splitWhere p text = [text] := by
  induction text with
  | nil => rfl
  | cons c rest ih =>
      have tail := ih fun d member => whole d (List.mem_cons_of_mem _ member)
      simp [splitWhere, whole c List.mem_cons_self, tail]

theorem splitWhere_of_notMem {c : Char} {text : List Char} (whole : c ∉ text) :
    splitWhere (· == c) text = [text] :=
  splitWhere_of_none fun _ member => beq_false_of_ne fun same => whole (same ▸ member)

/-- Nothing but separators is lost. -/
theorem flatten_splitWhere (p : Char → Bool) (text : List Char) :
    (splitWhere p text).flatten = text.filter fun c => !p c := by
  induction text with
  | nil => rfl
  | cons c rest ih =>
      by_cases here : p c = true
      · simp [splitWhere, here, ih]
      · cases pieces : splitWhere p rest with
        | nil => exact absurd pieces (splitWhere_ne_nil p rest)
        | cons piece pieces => simp_all [splitWhere]

theorem notSeparator_of_mem_splitWhere {p : Char → Bool} {text piece : List Char}
    (member : piece ∈ splitWhere p text) : ∀ c ∈ piece, p c = false := by
  intro c inside
  have kept : c ∈ (splitWhere p text).flatten := List.mem_flatten.mpr ⟨piece, member, inside⟩
  rw [flatten_splitWhere] at kept
  simpa using (List.mem_filter.mp kept).2

theorem eq_of_splitWhere_single {p : Char → Bool} {text piece : List Char}
    (pieces : splitWhere p text = [piece]) : text = piece := by
  have unseparated : ∀ c ∈ text, p c = false := by
    intro c member
    apply Bool.eq_false_iff.mpr
    intro separates
    obtain ⟨front, back, rfl⟩ := List.append_of_mem member
    rw [splitWhere_append separates] at pieces
    have lengths := congrArg List.length pieces
    have front := List.length_pos_iff.mpr (splitWhere_ne_nil p front)
    have back := List.length_pos_iff.mpr (splitWhere_ne_nil p back)
    simp only [List.length_append, List.length_singleton] at lengths
    omega
  rw [splitWhere_of_none unseparated] at pieces
  exact List.singleton_inj.mp pieces

/-- Between two pieces there is one separator. -/
theorem eq_of_splitWhere_pair {p : Char → Bool} {text first second : List Char}
    (pieces : splitWhere p text = [first, second]) :
    ∃ c, p c = true ∧ text = first ++ c :: second := by
  induction text generalizing first with
  | nil => simp [splitWhere] at pieces
  | cons c rest ih =>
      by_cases separates : p c = true
      · rw [splitWhere, if_pos separates] at pieces
        obtain ⟨rfl, others⟩ := List.cons.inj pieces
        exact ⟨c, separates, by rw [eq_of_splitWhere_single others]; rfl⟩
      · rw [splitWhere, if_neg separates] at pieces
        split at pieces
        · next piece others same =>
            obtain ⟨rfl, rfl⟩ := List.cons.inj pieces
            obtain ⟨d, separates, rfl⟩ := ih same
            exact ⟨d, separates, rfl⟩
        · cases pieces

/-- What does not separate is in a piece. -/
theorem mem_splitWhere {p : Char → Bool} {text : List Char} {c : Char} (member : c ∈ text) :
    p c = true ∨ ∃ piece ∈ splitWhere p text, c ∈ piece := by
  cases separates : p c with
  | true => exact .inl rfl
  | false =>
      have inside : c ∈ (splitWhere p text).flatten := by
        rw [flatten_splitWhere]
        exact List.mem_filter.mpr ⟨member, by simp [separates]⟩
      exact .inr (List.mem_flatten.mp inside)

theorem mem_dropEndWhile {p : Char → Bool} {text : List Char} {c : Char} (member : c ∈ text) :
    p c = true ∨ c ∈ dropEndWhile p text := by
  have whole := List.takeWhile_append_dropWhile (p := p) (l := text.reverse)
  rw [← List.mem_reverse, ← whole, List.mem_append] at member
  rcases member with dropped | kept
  · exact .inl (List.all_eq_true.mp List.all_takeWhile c dropped)
  · exact .inr (List.mem_reverse.mpr kept)

/-! Texts that are cut at the first separator. -/

theorem cutAt_append {sep : Char} {front : List Char} (first : sep ∉ front)
    (behind : List Char) : cutAt sep (front ++ sep :: behind) = some (front, behind) := by
  induction front with
  | nil => simp [cutAt]
  | cons c rest ih =>
      obtain ⟨other, later⟩ := not_or.mp (mt List.mem_cons.mpr first)
      simp [cutAt, Ne.symm other, ih later]

theorem cutAt_of_notMem {sep : Char} {text : List Char} (whole : sep ∉ text) :
    cutAt sep text = none := by
  induction text with
  | nil => rfl
  | cons c rest ih =>
      obtain ⟨other, later⟩ := not_or.mp (mt List.mem_cons.mpr whole)
      simp [cutAt, Ne.symm other, ih later]

/-! Pieces between doubled marks. -/

variable {mark : Char}

/-- A single mark does not separate. -/
theorem splitAtText_single (c : Char) (piece : List Char) :
    splitAtText [mark, mark] [c] piece 0 = splitAtText [mark, mark] [] (c :: piece) 0 := by
  simp [splitAtText]

theorem splitAtText_cons (c d : Char) (rest piece : List Char) :
    splitAtText [mark, mark] (c :: d :: rest) piece 0 =
      if mark = c ∧ mark = d then piece.reverse :: splitAtText [mark, mark] (d :: rest) [] 1
      else splitAtText [mark, mark] (d :: rest) (c :: piece) 0 := by
  simp [splitAtText]

theorem splitAtText_of_notMem {text : List Char} (unmarked : mark ∉ text) (piece : List Char) :
    splitAtText [mark, mark] text piece 0 = [piece.reverse ++ text] := by
  induction text generalizing piece with
  | nil => simp [splitAtText]
  | cons c rest ih =>
      obtain ⟨other, later⟩ := not_or.mp (mt List.mem_cons.mpr unmarked)
      simp [splitAtText, other, ih later]

/-- A text without marks is one piece. -/
theorem piecesBetween_of_notMem {text : List Char} (unmarked : mark ∉ text) :
    piecesBetween [mark, mark] text = [text] :=
  splitAtText_of_notMem unmarked []

/-- A text whose pieces have no mark of their own is taken apart in front of a doubled mark as
it is alone. -/
theorem splitAtText_append {front : List Char} (back piece : List Char) {skip : Nat}
    (inside : skip ≤ front.length)
    (unmarked : ∀ whole ∈ splitAtText [mark, mark] front piece skip, mark ∉ whole) :
    splitAtText [mark, mark] (front ++ mark :: mark :: back) piece skip =
      splitAtText [mark, mark] front piece skip ++ piecesBetween [mark, mark] back := by
  induction front generalizing piece skip with
  | nil =>
      obtain rfl : skip = 0 := by simpa using inside
      exact (splitAtText_cons mark mark back piece).trans (if_pos ⟨rfl, rfl⟩)
  | cons c rest ih =>
      cases skip with
      | succ skip => exact ih piece (by simpa using inside) unmarked
      | zero =>
          cases rest with
          | nil =>
              -- A single mark at the end would be the mark of a piece.
              have apart : mark ∉ piece ∧ mark ≠ c := by simpa [splitAtText] using unmarked
              rw [splitAtText_single] at unmarked ⊢
              rw [List.singleton_append, splitAtText_cons, if_neg fun doubled => apart.2 doubled.1]
              exact ih (c :: piece) (Nat.zero_le _) unmarked
          | cons d rest =>
              rw [splitAtText_cons] at unmarked
              rw [List.cons_append, List.cons_append, splitAtText_cons, splitAtText_cons]
              by_cases doubled : mark = c ∧ mark = d
              · rw [if_pos doubled] at unmarked
                rw [if_pos doubled, if_pos doubled]
                exact congrArg _ (ih [] (by simp) fun whole member =>
                  unmarked whole (List.mem_cons_of_mem _ member))
              · rw [if_neg doubled] at unmarked
                rw [if_neg doubled, if_neg doubled]
                exact ih (c :: piece) (Nat.zero_le _) unmarked

/-- What does not count at the end of a piece does not count at the end of a text. -/
theorem map_splitAtText_concat {α : Type} {f : List Char → α} {c : Char} (other : mark ≠ c)
    (uncounted : ∀ piece, f (piece ++ [c]) = f piece) {text : List Char} (piece : List Char)
    {skip : Nat} (inside : skip ≤ text.length) :
    (splitAtText [mark, mark] (text ++ [c]) piece skip).map f =
      (splitAtText [mark, mark] text piece skip).map f := by
  induction text generalizing piece skip with
  | nil =>
      obtain rfl : skip = 0 := by simpa using inside
      simp [splitAtText, uncounted]
  | cons d rest ih =>
      cases skip with
      | succ skip => exact ih piece (by simpa using inside)
      | zero =>
          cases rest with
          | nil =>
              rw [splitAtText_single, List.singleton_append, splitAtText_cons,
                if_neg fun doubled => other doubled.2]
              exact ih (d :: piece) (Nat.zero_le _)
          | cons e rest =>
              rw [List.cons_append, List.cons_append, splitAtText_cons, splitAtText_cons]
              split
              · rw [List.map_cons, List.map_cons]
                exact congrArg _ (ih [] (by simp))
              · exact ih (d :: piece) (Nat.zero_le _)

/-- Beginnings of a piece that count alike count alike in front of a text. -/
theorem map_splitAtText_congr {α : Type} {f : List Char → α} {piece piece' : List Char}
    (alike : ∀ rest, f (piece.reverse ++ rest) = f (piece'.reverse ++ rest)) (text : List Char)
    (skip : Nat) : (splitAtText [mark, mark] text piece skip).map f =
      (splitAtText [mark, mark] text piece' skip).map f := by
  induction text generalizing piece piece' skip with
  | nil => simpa [splitAtText] using alike []
  | cons c rest ih =>
      cases skip with
      | succ skip => exact ih alike skip
      | zero =>
          simp only [splitAtText]
          split
          · simpa using alike []
          · exact ih (fun rest => by simpa using alike (c :: rest)) 0

/-- What does not count at the start of a piece does not count at the start of a text. -/
theorem map_piecesBetween_cons {α : Type} {f : List Char → α} {c : Char} (other : mark ≠ c)
    (uncounted : ∀ piece, f (c :: piece) = f piece) (text : List Char) :
    (piecesBetween [mark, mark] (c :: text)).map f = (piecesBetween [mark, mark] text).map f := by
  have first : piecesBetween [mark, mark] (c :: text) =
      splitAtText [mark, mark] text [c] 0 := by
    simp [piecesBetween, splitAtText, other]
  rw [first]
  exact map_splitAtText_congr uncounted text 0

theorem splitAtText_append_of_notMem {front : List Char} (unmarked : mark ∉ front)
    (back piece : List Char) : splitAtText [mark, mark] (front ++ back) piece 0 =
      splitAtText [mark, mark] back (front.reverse ++ piece) 0 := by
  induction front generalizing piece with
  | nil => rfl
  | cons c front ih =>
      obtain ⟨other, later⟩ := not_or.mp (mt List.mem_cons.mpr unmarked)
      simp [splitAtText, other, ih later]

/-- Parts of a piece that count alike count alike inside a text. -/
theorem map_piecesBetween_congr {α : Type} {f : List Char → α} {middle middle' : List Char}
    (any : middle ≠ []) (any' : middle' ≠ []) (unmarked : mark ∉ middle)
    (unmarked' : mark ∉ middle')
    (alike : ∀ front back, f (front ++ (middle ++ back)) = f (front ++ (middle' ++ back)))
    (before after : List Char) :
    (piecesBetween [mark, mark] (before ++ (middle ++ after))).map f =
      (piecesBetween [mark, mark] (before ++ (middle' ++ after))).map f := by
  have later (before piece : List Char) (skip : Nat) (inside : skip ≤ before.length) :
      (splitAtText [mark, mark] (before ++ (middle ++ after)) piece skip).map f =
        (splitAtText [mark, mark] (before ++ (middle' ++ after)) piece skip).map f := by
    induction before generalizing piece skip with
    | nil =>
        obtain rfl : skip = 0 := by simpa using inside
        rw [List.nil_append, List.nil_append, splitAtText_append_of_notMem unmarked,
          splitAtText_append_of_notMem unmarked']
        exact map_splitAtText_congr (fun rest => by simpa using alike piece.reverse rest) after 0
    | cons c before ih =>
        cases skip with
        | succ skip => exact ih piece skip (by simpa using inside)
        | zero =>
            cases before with
            | nil =>
                -- What stands in the middle begins with no mark, so that no pair of them is there.
                obtain ⟨d, middle, rfl⟩ := List.exists_cons_of_ne_nil any
                obtain ⟨d', middle', rfl⟩ := List.exists_cons_of_ne_nil any'
                have other : mark ≠ d := fun same => unmarked (same ▸ List.mem_cons_self)
                have other' : mark ≠ d' := fun same => unmarked' (same ▸ List.mem_cons_self)
                have apart := ih (c :: piece) 0 (Nat.zero_le _)
                simp only [List.cons_append, List.nil_append] at apart ⊢
                rwa [splitAtText_cons, splitAtText_cons, if_neg fun pair => other pair.2,
                  if_neg fun pair => other' pair.2]
            | cons d before =>
                rw [List.cons_append, List.cons_append, List.cons_append, List.cons_append,
                  splitAtText_cons, splitAtText_cons]
                split
                · rw [List.map_cons, List.map_cons]
                  exact congrArg _ (ih [] 1 (by simp))
                · exact ih (c :: piece) 0 (Nat.zero_le _)
  exact later before [] 0 (Nat.zero_le _)

/-! Lines. -/

/-- Lines with line feeds between them. -/
def joinLines : List (List Char) → List Char
  | [] => []
  | [line] => line
  | line :: next :: rest => line ++ '\n' :: joinLines (next :: rest)

theorem joinLines_cons (line : List Char) {lines : List (List Char)} (more : lines ≠ []) :
    joinLines (line :: lines) = line ++ '\n' :: joinLines lines := by
  cases lines with
  | nil => exact absurd rfl more
  | cons next rest => rfl

theorem lineChars_of_notMem {line : List Char} (inLine : '\n' ∉ line) :
    lineChars line = if line.isEmpty then [] else [line] := by
  simp [lineChars, splitWhere_of_notMem inLine]

theorem lineChars_append {line : List Char} (inLine : '\n' ∉ line) (rest : List Char) :
    lineChars (line ++ '\n' :: rest) = dropCarriageReturn line :: lineChars rest := by
  obtain ⟨last, ended, reversed⟩ := List.exists_cons_of_ne_nil
    (List.reverse_ne_nil_iff.mpr (splitWhere_ne_nil (· == '\n') rest))
  simp only [lineChars, splitWhere_append (p := (· == '\n')) (c := '\n') rfl,
    splitWhere_of_notMem inLine, List.reverse_append, reversed, List.cons_append,
    List.reverse_cons, List.reverse_nil, List.nil_append, List.map_cons]
  split <;> rfl

/-- A blank at the end of a text is trimmed away. -/
theorem trimChars_concat {c : Char} (blank : isBlank c = true) (text : List Char) :
    trimChars (text ++ [c]) = trimChars text := by
  have ends (front : List Char) : dropEndWhile isBlank (front ++ [c]) =
      dropEndWhile isBlank front := by
    simp [dropEndWhile, blank]
  simp only [trimChars, dropBothWhile, List.dropWhile_append]
  split
  · next none => simp [blank, List.isEmpty_iff.mp none]
  · exact ends _

theorem dropCarriageReturn_cases (line : List Char) :
    dropCarriageReturn line = line ∨ line = dropCarriageReturn line ++ ['\r'] := by
  unfold dropCarriageReturn
  split
  · next rest reversed => exact .inr (by rw [← List.reverse_reverse line, reversed]; simp)
  · exact .inl rfl

/-! Texts with a separator between them. -/

theorem toList_join_cons (sep word : String) {words : List String} (more : words ≠ []) :
    (join sep (word :: words)).toList = word.toList ++ sep.toList ++ (join sep words).toList := by
  cases words with
  | nil => exact absurd rfl more
  | cons next rest =>
      have joined : join sep (word :: next :: rest) = word ++ sep ++ join sep (next :: rest) := rfl
      rw [joined, String.toList_append, String.toList_append]

end ImageLock.Text
