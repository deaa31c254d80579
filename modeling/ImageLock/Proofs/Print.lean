/-
Writing documents: what is written stays. So the text of a mapping begins with
its first key.
-/
import ImageLock.Document.JsonReader
import ImageLock.Yaml.Print

namespace ImageLock.Yaml

namespace Page

/-- What one page says, another says at its start. The text is reversed. -/
def Grows (p q : Page) : Prop := p.text <:+ q.text

namespace Grows

theorem refl (p : Page) : Grows p p := List.suffix_refl _

theorem trans {p q r : Page} (one : Grows p q) (other : Grows q r) : Grows p r :=
  List.IsSuffix.trans one other

end Grows

/-! What is put on a page comes after what is there. -/

theorem grows_put (p : Page) (c : Char) : Grows p (p.put c) := List.suffix_cons _ _

theorem grows_putAll (p : Page) (cs : List Char) : Grows p (p.putAll cs) := by
  unfold putAll
  induction cs generalizing p with
  | nil => exact .refl p
  | cons c rest ih => exact (grows_put p c).trans (ih (p.put c))

theorem grows_newLine (p : Page) (c : Char) : Grows p (p.newLine c) := List.suffix_cons _ _

theorem grows_indentTo (p : Page) (column : Nat) : Grows p (p.indentTo column) := by
  unfold indentTo
  split
  · exact (grows_newLine p '\n').trans (grows_putAll _ _)
  · exact grows_putAll p _

theorem grows_space (p : Page) : Grows p p.space := by
  unfold space
  split
  · exact .refl p
  · exact grows_put p ' '

theorem grows_mark (p : Page) (text : List Char) (spacing indenting : Bool) :
    Grows p (p.mark text spacing indenting) := grows_putAll p text

end Page

open Page

/-! Scalars. -/

theorem grows_putSingle (indent : Nat) (afterBreak : Bool) (text : List Char) (p : Page) :
    Grows p (putSingle indent afterBreak text p) := by
  induction text generalizing afterBreak p with
  | nil =>
      simp only [putSingle]
      split
      · exact grows_indentTo p indent
      · exact .refl p
  | cons c rest ih =>
      simp only [putSingle]
      split
      · refine .trans ?_ (ih _ _)
        exact grows_newLine p c
      · refine .trans ?_ (ih _ _)
        -- A line is indented, and a quote is doubled, before the character.
        refine .trans ?_ (grows_put _ c)
        split
        · refine .trans ?_ (grows_put _ c)
          split
          · exact grows_indentTo p indent
          · exact .refl p
        · split
          · exact grows_indentTo p indent
          · exact .refl p

theorem grows_putLiteral (indent : Nat) (afterBreak : Bool) (text : List Char) (p : Page) :
    Grows p (putLiteral indent afterBreak text p) := by
  induction text generalizing afterBreak p with
  | nil => exact .refl p
  | cons c rest ih =>
      simp only [putLiteral]
      split
      · refine .trans ?_ (ih _ _)
        exact grows_newLine p c
      · refine .trans ?_ (ih _ _)
        refine .trans ?_ (grows_put _ c)
        split
        · exact grows_indentTo p indent
        · exact .refl p

theorem grows_putText (indent : Int) (isKey : Bool) (text : String) (p : Page) :
    Grows p (putText indent isKey text p) := by
  unfold putText
  simp only
  split
  · refine .trans ?_ (grows_putAll _ _)
    split
    · exact .refl p
    · exact grows_space p
  · refine .trans ?_ (grows_mark _ ['\''] false false)
    refine .trans ?_ (grows_putSingle _ false _ _)
    exact (grows_space p).trans (grows_mark _ ['\''] false false)
  · refine .trans ?_ (grows_mark _ ['"'] false false)
    refine .trans ?_ (grows_putAll _ _)
    exact (grows_space p).trans (grows_mark _ ['"'] false false)
  · refine .trans ?_ (grows_putLiteral _ true _ _)
    refine .trans ?_ (grows_newLine _ '\n')
    refine .trans ?_ (grows_mark _ _ false false)
    exact (grows_space p).trans (grows_mark _ ['|'] false false)

theorem grows_putBare (text : String) (p : Page) : Grows p (putBare text p) :=
  (grows_space p).trans (grows_putAll _ _)

/-! Collections. -/

mutual

theorem grows_putNode (indent : Int) (inField isKey : Bool) (node : Node) (p : Page) :
    Grows p (putNode indent inField isKey node p) := by
  cases node with
  | null => exact grows_putBare _ p
  | bool value => exact grows_putBare _ p
  | int value => exact grows_putBare _ p
  | real value => exact grows_putBare _ p
  | text text => exact grows_putText indent isKey text p
  | list items =>
      cases items with
      | nil =>
          refine .trans ?_ (grows_mark _ [']'] false false)
          exact (grows_space p).trans (grows_mark _ ['['] true false)
      | cons item items => exact grows_putItems _ (item :: items) p
  | map fields =>
      cases fields with
      | nil =>
          refine .trans ?_ (grows_mark _ ['\x7d'] false false)
          exact (grows_space p).trans (grows_mark _ ['\x7b'] true false)
      | cons field fields => exact grows_putFields _ (field :: fields) p
  -- A tag stands before its value.
  | tagged tag value =>
      refine .trans ?_ (grows_putNode indent inField isKey value _)
      exact (grows_space p).trans (grows_putAll _ _)

theorem grows_putItems (indent : Int) (items : List Node) (p : Page) :
    Grows p (putItems indent items p) := by
  cases items with
  | nil => exact .refl p
  | cons item rest =>
      refine .trans ?_ (grows_putItems indent rest _)
      refine .trans ?_ (grows_putNode indent false false item _)
      refine .trans ?_ (grows_mark _ ['-'] false true)
      exact (grows_indentTo p _).trans (grows_space _)

theorem grows_putFields (indent : Int) (fields : List (Node × Node)) (p : Page) :
    Grows p (putFields indent fields p) := by
  cases fields with
  | nil => exact .refl p
  | cons field rest =>
      obtain ⟨key, value⟩ := field
      refine .trans ?_ (grows_putFields indent rest _)
      refine .trans ?_ (grows_putNode indent true false value _)
      refine .trans (grows_indentTo p indent.toNat) ?_
      -- A key that is not simple is marked, and so is its value.
      split
      · refine .trans ?_ (grows_mark _ [':'] false false)
        exact grows_putNode indent true true key _
      · refine .trans ?_ (grows_mark _ [':'] false true)
        refine .trans ?_ (grows_space _)
        refine .trans ?_ (grows_indentTo _ _)
        refine .trans ?_ (grows_putNode indent true false key _)
        exact (grows_space _).trans (grows_mark _ ['?'] false true)

end

/-! The start of a document. -/

theorem text_putAll (p : Page) (cs : List Char) : (p.putAll cs).text = cs.reverse ++ p.text := by
  unfold putAll
  induction cs generalizing p with
  | nil => rfl
  | cons c rest ih =>
      rw [List.foldl_cons, ih (p.put c)]
      simp [put]

/-- A mapping begins with its first key, if the key can be written as it is. -/
theorem print_map_starts {name : String} (simple : isSimpleKey (.text name) = true)
    (plain : style true name = .plain) (value : Node) (rest : List (Node × Node)) :
    name.toList <+: (print (.map ((.text name, value) :: rest))).toList := by
  have key : (putText 0 true name (Page.blank.indentTo 0)).text = name.toList.reverse := by
    have empty : (Page.blank.indentTo 0).text = [] := rfl
    have spaced : (Page.blank.indentTo 0).space = Page.blank.indentTo 0 := rfl
    simp [putText, plain, spaced, closeScalar, text_putAll, empty]
  have grows : Grows (putText 0 true name (Page.blank.indentTo 0))
      ((putNode (-1) false false (.map ((.text name, value) :: rest)) Page.blank).indentTo 0) := by
    refine .trans ?_ (grows_indentTo _ 0)
    refine .trans ?_ (grows_putFields 0 rest _)
    refine .trans ?_ (grows_putNode 0 true false value _)
    simp only [simple, if_true, putNode]
    exact grows_mark _ [':'] false false
  -- The text of a page is reversed, so that its end is the start of the document.
  unfold Grows at grows
  rw [key] at grows
  rw [print, String.toList_ofList, ← List.reverse_suffix, List.reverse_reverse]
  exact grows

end ImageLock.Yaml

namespace ImageLock.JsonReader

theorem toList_loop_prefix (bytes : ByteArray) (i : Nat) (done : List UInt8) :
    done.reverse <+: ByteArray.toList.loop bytes i done := by
  fun_induction ByteArray.toList.loop bytes i done with
  | case1 i done inside ih =>
      refine List.IsPrefix.trans ?_ ih
      simp
  | case2 i done outside => exact List.prefix_refl _

theorem head?_toList {bytes : ByteArray} (filled : 0 < bytes.size) :
    bytes.toList.head? = some (bytes.get! 0) := by
  have starts : [bytes.get! 0] <+: bytes.toList := by
    rw [ByteArray.toList, ByteArray.toList.loop, if_pos filled]
    exact toList_loop_prefix bytes 1 [bytes.get! 0]
  obtain ⟨rest, same⟩ := starts
  simp [← same]

/-- A text that begins with a letter is no record. -/
theorem fieldOf?_of_letter {name : String} {text : String} {rest : List Char}
    (starts : text.toList = 'b' :: rest) : fieldOf? name text.toUTF8 = none := by
  have bytes : text.toUTF8 = ['b'].utf8Encode ++ rest.utf8Encode := by
    rw [String.toUTF8_eq_toByteArray, ← String.utf8Encode_toList, starts, List.utf8Encode_cons]
  have letter : ['b'].utf8Encode = ⟨#[0x62]⟩ := rfl
  have filled : 0 < (ByteArray.mk #[0x62] ++ rest.utf8Encode).size := by
    rw [ByteArray.size_append]
    exact Nat.lt_of_lt_of_le Nat.zero_lt_one (Nat.le_add_right 1 _)
  have first : text.toUTF8.toList.head? = some 0x62 := by
    rw [bytes, letter, head?_toList filled]
    simp [ByteArray.get!, Array.getElem!_eq_getD, Array.getElem?_append]
  -- No space is skipped before the letter, and no brace is found there.
  cases document : text.toUTF8.toList with
  | nil =>
      rw [document] at first
      cases first
  | cons byte rest =>
      rw [document] at first
      have same : byte = 0x62 := Option.some.inj first
      have kept : skipSpace text.toUTF8.toList = 0x62 :: rest := by
        rw [document, same]
        rfl
      simp only [fieldOf?, kept]
      rfl

end ImageLock.JsonReader
