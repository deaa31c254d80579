/-
Documents that list releases.

A document is written as entries, with any text behind each of them and in front of the first in
which no entry begins. What is read of it is what each entry tells by itself: nothing is read
across the end of an entry, and an entry of an unknown stability is passed like any other text.
-/
import ImageLock.Proofs.LockedExtensions
import ImageLock.Proofs.ToolOutput

namespace ImageLock

/-- A mark that is not in a text does not begin there, whatever follows the text, as long as that
begins with no character from inside the mark. -/
theorem not_prefix_append {α : Type} {mark front rest : List α} (absent : ¬mark <:+: front)
    (any : front ≠ []) (apart : ∀ c ∈ rest.head?, c ∉ mark.tail) : ¬mark <+: front ++ rest := by
  rintro ⟨behind, same⟩
  rcases List.append_eq_append_iff.mp same with ⟨more, inside, -⟩ | ⟨more, across, rfl⟩
  · exact absent ⟨[], more, by simpa using inside.symm⟩
  · cases more with
    | nil => exact absent ⟨[], [], by simpa using across⟩
    | cons c more =>
        -- The mark goes on behind the text, so that what follows begins inside the mark.
        obtain ⟨d, front, rfl⟩ := List.exists_cons_of_ne_nil any
        exact apart c rfl (by simp [across])

namespace Release

/-! What is written. -/

namespace Listing

/-- The mark with which an entry begins. -/
def mark : List Char := "<r>".toList

/-- Blanks between elements, or nothing. -/
structure Gap where
  chars : List Char
  blank : ∀ c ∈ chars, Text.isBlank c = true

/-- The text of an element. -/
structure Content where
  chars : List Char
  filled : chars ≠ []
  plain : '<' ∉ chars

/-- Text in which no entry begins. -/
structure Aside where
  chars : List Char
  unmarked : ¬mark <:+: chars

/-- A version and a stability, with the text up to the next entry. -/
structure Entry where
  lead : Gap
  version : Content
  middle : Gap
  stability : Content
  behind : Aside

namespace Entry

/-- An entry up to the end of its stability. -/
def elements (entry : Entry) : List Char :=
  mark ++ (entry.lead.chars ++ ("<v>".toList ++ (entry.version.chars ++ ("</v>".toList ++
    (entry.middle.chars ++ ("<s>".toList ++ (entry.stability.chars ++ "</s>".toList)))))))

def chars (entry : Entry) : List Char := entry.elements ++ entry.behind.chars

/-- The stability that is named, if there is one of that name. -/
def stability? (entry : Entry) : Option Stability :=
  match Text.trim (String.ofList entry.stability.chars) with
  | "stable" => some .stable
  | "beta" => some .beta
  | "alpha" => some .alpha
  | "devel" => some .devel
  | _ => none

/-- The release that an entry tells. -/
def release? (entry : Entry) : Option Release :=
  entry.stability?.map fun stability =>
    ⟨Text.trim (String.ofList entry.version.chars), stability⟩

end Entry
end Listing

open Listing

/-- A document that lists releases, behind a prologue. -/
structure Listing where
  prologue : Aside
  entries : List Entry

def Listing.text (listing : Listing) : String :=
  String.ofList (listing.prologue.chars ++ listing.entries.flatMap Entry.chars)

/-! One entry. -/

/-- An element is read behind blanks, whatever follows it. -/
theorem takeElement_behind (gap : Gap) {opening closing : List Char}
    (begins : opening.head? = some '<') (ends : closing.head? = some '<') (content : Content)
    (rest : List Char) :
    takeElement opening closing ((gap.chars ++ (opening ++ (content.chars ++
      (closing ++ rest)))).dropWhile Text.isBlank) = some (content.chars, rest) := by
  have passed : (gap.chars ++ (opening ++ (content.chars ++ (closing ++ rest)))).dropWhile
      Text.isBlank = opening ++ (content.chars ++ (closing ++ rest)) := by
    obtain ⟨opening, rfl⟩ := List.head?_eq_some_iff.mp begins
    rw [List.dropWhile_append_of_pos gap.blank, List.cons_append,
      List.dropWhile_cons_of_neg (by decide)]
  have inside : ∀ c ∈ content.chars, (c != '<') = true := fun c member =>
    bne_iff_ne.mpr fun same => content.plain (same ▸ member)
  have taken : (content.chars ++ (closing ++ rest)).takeWhile (· != '<') = content.chars := by
    obtain ⟨closing, rfl⟩ := List.head?_eq_some_iff.mp ends
    rw [List.takeWhile_append_of_pos inside, List.cons_append]
    simp
  have opened : Text.dropLeading opening (opening ++ (content.chars ++ (closing ++ rest))) =
      some (content.chars ++ (closing ++ rest)) := Text.dropLeading_eq_some.mpr rfl
  have closed : Text.dropLeading closing (closing ++ rest) = some rest :=
    Text.dropLeading_eq_some.mpr rfl
  have filled : content.chars.isEmpty = false := List.isEmpty_eq_false_iff.mpr content.filled
  have behind : (content.chars ++ (closing ++ rest)).drop content.chars.length = closing ++ rest :=
    List.drop_left
  simp only [takeElement, passed, opened, taken, filled, behind, closed, Option.bind_eq_bind,
    Option.bind_some]
  rfl

theorem takeEntry_elements (entry : Entry) (rest : List Char) :
    takeEntry (entry.elements ++ rest) =
      some (entry.version.chars, entry.stability.chars, rest) := by
  have begun : Text.dropLeading "<r>".toList (entry.elements ++ rest) =
      some (entry.lead.chars ++ ("<v>".toList ++ (entry.version.chars ++ ("</v>".toList ++
        (entry.middle.chars ++ ("<s>".toList ++ (entry.stability.chars ++
          ("</s>".toList ++ rest)))))))) := by
    refine Text.dropLeading_eq_some.mpr ?_
    simp [Entry.elements, mark]
  have version := @takeElement_behind entry.lead "<v>".toList "</v>".toList rfl rfl entry.version
  have stability :=
    @takeElement_behind entry.middle "<s>".toList "</s>".toList rfl rfl entry.stability rest
  simp only [takeEntry, begun, version, stability, Option.bind_eq_bind, Option.bind_some]
  rfl

/-! One entry after another. -/

theorem takeEntry_of_unled {text : List Char} (unled : ¬mark <+: text) : takeEntry text = none := by
  have missing : Text.dropLeading "<r>".toList text = none := Text.dropLeading_eq_none.mpr unled
  rw [takeEntry, missing]
  rfl

theorem entries_skip (front rest : List Char) :
    entries front.length (front ++ rest) = entries 0 rest := by
  induction front with
  | nil => rfl
  | cons c front ih => exact ih

/-- Text in which no entry begins is passed, and what follows it is read from its first sign on. -/
theorem entries_aside (aside : Aside) {rest : List Char} (begins : ∀ c ∈ rest.head?, c = '<') :
    entries 0 (aside.chars ++ rest) = entries 0 rest := by
  obtain ⟨chars, unmarked⟩ := aside
  have apart : ∀ c ∈ rest.head?, c ∉ mark.tail := by
    intro c first
    rw [begins c first]
    decide
  dsimp only
  induction chars with
  | nil => rfl
  | cons c chars ih =>
      -- No entry begins here, not even one that goes on behind the text.
      have unled := takeEntry_of_unled (not_prefix_append unmarked (List.cons_ne_nil c chars) apart)
      rw [List.cons_append] at unled ⊢
      rw [entries, unled]
      exact ih fun inside => unmarked (inside.trans (List.suffix_cons c chars).isInfix)

theorem entries_elements (entry : Entry) (rest : List Char) :
    entries 0 (entry.elements ++ rest) =
      (entry.version.chars, entry.stability.chars) :: entries 0 rest := by
  obtain ⟨behind, begun⟩ : ∃ behind, entry.elements = '<' :: behind := ⟨_, rfl⟩
  have taken := takeEntry_elements entry rest
  have passed : (behind ++ rest).length - rest.length = behind.length := by simp
  rw [begun, List.cons_append] at taken ⊢
  rw [entries, taken]
  dsimp only
  rw [passed, entries_skip]

theorem head?_flatMap_chars (written : List Entry) :
    ∀ c ∈ (written.flatMap Entry.chars).head?, c = '<' := by
  cases written with
  | nil => nofun
  | cons entry _ => exact fun c first => (Option.some.inj first).symm

theorem entries_flatMap_chars (written : List Entry) :
    entries 0 (written.flatMap Entry.chars) =
      written.map fun entry => (entry.version.chars, entry.stability.chars) := by
  induction written with
  | nil => rfl
  | cons entry written ih =>
      rw [List.flatMap_cons, Entry.chars, List.append_assoc, entries_elements,
        entries_aside entry.behind (head?_flatMap_chars written), ih, List.map_cons]

/-! What entries tell. -/

theorem ofName?_eq (name : String) : Stability.ofName? name =
    match name with
    | "stable" => some .stable
    | "beta" => some .beta
    | "alpha" => some .alpha
    | "devel" => some .devel
    | _ => none := by
  split
  next => exact Extensions.ofName?_name .stable
  next => exact Extensions.ofName?_name .beta
  next => exact Extensions.ofName?_name .alpha
  next => exact Extensions.ofName?_name .devel
  next notStable notBeta notAlpha notDevel =>
    refine Extensions.ofName?_eq_none.mpr fun stability same => ?_
    cases stability with
    | stable => exact notStable same.symm
    | beta => exact notBeta same.symm
    | alpha => exact notAlpha same.symm
    | devel => exact notDevel same.symm

theorem ofEntry?_elements (entry : Entry) :
    ofEntry? (entry.version.chars, entry.stability.chars) = entry.release? := by
  have named : Stability.ofName? (String.ofList (Text.trimChars entry.stability.chars)) =
      entry.stability? := by
    rw [ofName?_eq, Entry.stability?, Text.trim, String.toList_ofList]
  unfold ofEntry? Entry.release?
  simp only [named, Text.trim, String.toList_ofList]
  cases entry.stability? <;> rfl

theorem parseAll_text (listing : Listing) :
    parseAll listing.text = listing.entries.filterMap Entry.release? := by
  rw [parseAll, Listing.text, String.toList_ofList,
    entries_aside listing.prologue (head?_flatMap_chars _), entries_flatMap_chars,
    List.filterMap_map]
  exact congrArg (List.filterMap · listing.entries) (funext ofEntry?_elements)

/-- The releases that are read are those that the entries tell, each by itself and in their order.
So an entry of an unknown stability could as well not be there. -/
theorem parseAll_listing (listing : Listing) :
    parseAll listing.text = listing.entries.filterMap Entry.release? ∧
      ∀ before entry after, listing.entries = before ++ entry :: after →
        entry.stability? = none →
        parseAll listing.text = parseAll (Listing.text ⟨listing.prologue, before ++ after⟩) := by
  refine ⟨parseAll_text listing, fun before entry after parted unknown => ?_⟩
  have untold : entry.release? = none := by rw [Entry.release?, unknown, Option.map_none]
  rw [parseAll_text, parseAll_text, parted, List.filterMap_append, List.filterMap_append,
    List.filterMap_cons_none untold]

/-- Marks that break off, blanks around what is read, and a stability between two releases that is
unknown. -/
theorem parseAll_listing_redis :
    ∃ (prologue : Aside) (first unknown last : Entry),
      let text := Listing.text ⟨prologue, [first, unknown, last]⟩
      text =
        "<r\n<r>\n<v> 5.3.1</v> <s>stable\n</s> <<r><v>0.1</v><s>new</s><r><v>6.0</v><s>beta</s>" ∧
      parseAll text = [⟨"5.3.1", .stable⟩, ⟨"6.0", .beta⟩] ∧
      unknown.stability? = none ∧
      parseAll text = parseAll (Listing.text ⟨prologue, [first, last]⟩) := by
  let prologue : Aside := ⟨"<r\n".toList, by simp [mark, List.infix_cons_iff]⟩
  let noGap : Gap := ⟨[], nofun⟩
  let nothing : Aside := ⟨[], by simp [mark]⟩
  let first : Entry := ⟨⟨['\n'], by simp [Text.isBlank]⟩,
    ⟨" 5.3.1".toList, by decide, by decide⟩, ⟨[' '], by simp [Text.isBlank]⟩,
    ⟨"stable\n".toList, by decide, by decide⟩,
    ⟨" <".toList, by simp [mark, List.infix_cons_iff]⟩⟩
  let unknown : Entry := ⟨noGap, ⟨"0.1".toList, by decide, by decide⟩, noGap,
    ⟨"new".toList, by decide, by decide⟩, nothing⟩
  let last : Entry := ⟨noGap, ⟨"6.0".toList, by decide, by decide⟩, noGap,
    ⟨"beta".toList, by decide, by decide⟩, nothing⟩
  have isUnknown : unknown.stability? = none := by decide
  have releases : [first, unknown, last].filterMap Entry.release? =
      [⟨"5.3.1", .stable⟩, ⟨"6.0", .beta⟩] := by
    decide
  obtain ⟨told, apart⟩ := parseAll_listing ⟨prologue, [first, unknown, last]⟩
  refine ⟨prologue, first, unknown, last, ?_, told.trans releases, isUnknown,
    apart [first] unknown [last] rfl isUnknown⟩
  simp [Listing.text, prologue, first, unknown, last, noGap, nothing, Entry.chars, Entry.elements,
    mark]

end Release
end ImageLock
