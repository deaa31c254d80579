/-
Documents that are equal but for the order of the entries of their mappings, at every
depth, and what is found in them and taken out of them.

Keys that differ in their tags only are one name to a reader, and of two entries of one
name it keeps the later. So the order counts where a mapping has two such keys, and is of
no account in documents without them.
-/
import ImageLock.Proofs.Permuted
import Mathlib.Data.List.Perm.Basic

namespace ImageLock

/-! Lists whose elements are matched. -/

theorem forall₂_right {α β : Type} {related : α → β → Prop} {items : List α} {results : List β}
    (each : List.Forall₂ related items results) {result : β} (member : result ∈ results) :
    ∃ item ∈ items, related item result :=
  forall₂_left (List.Forall₂.flip (R := fun b a => related a b) each) member

/-- What is known of matched elements, and what follows of their partners. -/
theorem forall₂_turned {α β γ : Type} {related : α → β → Prop} {known : α → γ → Prop}
    {told : β → γ → Prop} {items : List α} {partners : List β} {results : List γ}
    (paired : List.Forall₂ related items partners) (each : List.Forall₂ known items results)
    (turn : ∀ item partner result, related item partner → known item result →
      told partner result) : List.Forall₂ told partners results := by
  induction paired generalizing results with
  | nil =>
      cases each
      exact .nil
  | cons head _ ih =>
      cases each with
      | cons own rest => exact .cons (turn _ _ _ head own) (ih rest)

/-! One document in another order. -/

/-- The names that the keys of a mapping are read as. -/
def Fields.names (fields : Fields) : List String :=
  fields.filterMap fun e => (Decode.text e.1).toOption

namespace Node

/-- The entries of mappings may come in another order; lists stay as they are. -/
inductive Reordered : Node → Node → Prop where
  | null : Reordered .null .null
  | bool (value : Bool) : Reordered (.bool value) (.bool value)
  | int (value : Int) : Reordered (.int value) (.int value)
  | real (value : Number.Binary64) : Reordered (.real value) (.real value)
  | text (value : String) : Reordered (.text value) (.text value)
  | list {items items' : List Node} (length_eq : items.length = items'.length)
      (each : ∀ p ∈ items.zip items', Reordered p.1 p.2) :
      Reordered (.list items) (.list items')
  | map {fields middle fields' : Fields} (length_eq : fields.length = middle.length)
      (keys : ∀ p ∈ fields.zip middle, Reordered p.1.1 p.2.1)
      (values : ∀ p ∈ fields.zip middle, Reordered p.1.2 p.2.2)
      (perm : middle.Perm fields') : Reordered (.map fields) (.map fields')
  | tagged (tag : String) {value value' : Node} (own : Reordered value value') :
      Reordered (.tagged tag value) (.tagged tag value')

/-- No mapping has two keys that are the same text when their tags are taken off. -/
inductive Unambiguous : Node → Prop where
  | null : Unambiguous .null
  | bool (value : Bool) : Unambiguous (.bool value)
  | int (value : Int) : Unambiguous (.int value)
  | real (value : Number.Binary64) : Unambiguous (.real value)
  | text (value : String) : Unambiguous (.text value)
  | list {items : List Node} (each : ∀ item ∈ items, Unambiguous item) :
      Unambiguous (.list items)
  | map {fields : Fields} (once : fields.names.Nodup)
      (values : ∀ e ∈ fields, Unambiguous e.2) : Unambiguous (.map fields)
  | tagged (tag : String) {value : Node} (own : Unambiguous value) :
      Unambiguous (.tagged tag value)

variable {a b : Node}

theorem reordered_list_iff {items items' : List Node} :
    Reordered (.list items) (.list items') ↔ List.Forall₂ Reordered items items' := by
  rw [List.forall₂_iff_zip]
  constructor
  · rintro (_ | _ | _ | _ | _ | ⟨length_eq, each⟩)
    exact ⟨length_eq, fun member => each _ member⟩
  · exact fun ⟨length_eq, each⟩ => .list length_eq fun _ member => each member

/-- Entries whose keys and values are each other in another order. -/
def EntryReordered (e e' : Node × Node) : Prop := e.1.Reordered e'.1 ∧ e.2.Reordered e'.2

theorem reordered_map_iff {fields fields' : Fields} :
    Reordered (.map fields) (.map fields') ↔
      ∃ middle, List.Forall₂ EntryReordered fields middle ∧ middle.Perm fields' := by
  simp only [List.forall₂_iff_zip]
  constructor
  · rintro (_ | _ | _ | _ | _ | _ | ⟨length_eq, keys, values, perm⟩)
    exact ⟨_, ⟨length_eq, fun member => ⟨keys _ member, values _ member⟩⟩, perm⟩
  · rintro ⟨middle, ⟨length_eq, each⟩, perm⟩
    exact .map length_eq (fun _ member => (each member).1) (fun _ member => (each member).2) perm

namespace Reordered

mutual
theorem refl : ∀ node : Node, node.Reordered node
  | .null => .null
  | .bool value => .bool value
  | .int value => .int value
  | .real value => .real value
  | .text value => .text value
  | .list items => reordered_list_iff.mpr (refl_items items)
  | .map fields => reordered_map_iff.mpr ⟨fields, refl_fields fields, .refl fields⟩
  | .tagged tag value => .tagged tag (refl value)

theorem refl_items : ∀ items : List Node, List.Forall₂ Reordered items items
  | [] => .nil
  | item :: rest => .cons (refl item) (refl_items rest)

theorem refl_fields : ∀ fields : List (Node × Node), List.Forall₂ EntryReordered fields fields
  | [] => .nil
  | (key, value) :: rest => .cons ⟨refl key, refl value⟩ (refl_fields rest)
end

theorem symm (reordered : a.Reordered b) : b.Reordered a := by
  induction reordered with
  | null | bool | int | real | text => constructor
  | list length_eq _ ih =>
      have each := List.forall₂_iff_zip.mpr
        ⟨length_eq, fun {a b} member => (ih (a, b) member : Reordered b a)⟩
      exact reordered_list_iff.mpr each.flip
  | @map fields middle fields' length_eq _ _ perm keys values =>
      have each : List.Forall₂ (flip EntryReordered) fields middle := List.forall₂_iff_zip.mpr
        ⟨length_eq, fun {e e'} member => ⟨keys (e, e') member, values (e, e') member⟩⟩
      -- The entries are put back in their old order first, and each is turned round there.
      exact reordered_map_iff.mpr (List.perm_comp_forall₂ perm.symm each.flip)
  | tagged tag _ ih => exact .tagged tag ih

theorem untagged (reordered : a.Reordered b) : a.untagged.Reordered b.untagged := by
  induction reordered with
  | null | bool | int | real | text => constructor
  | list length_eq each _ => exact .list length_eq each
  | map length_eq keys values perm _ _ => exact .map length_eq keys values perm
  | tagged _ _ ih => exact ih

theorem isText (reordered : a.Reordered b) (name : String) : a.isText name = b.isText name := by
  cases reordered <;> rfl

theorem text_eq (reordered : a.Reordered b) : Decode.text a = Decode.text b := by
  unfold Decode.text
  have own := reordered.untagged
  generalize a.untagged = bare, b.untagged = bare' at own
  cases own <;> rfl

theorem names_eq {fields middle : Fields} (each : List.Forall₂ EntryReordered fields middle) :
    fields.names = middle.names := by
  induction each with
  | nil => rfl
  | cons head _ ih =>
      unfold Fields.names at ih ⊢
      rw [List.filterMap_cons, List.filterMap_cons, head.1.text_eq, ih]

theorem unambiguous (reordered : a.Reordered b) (clear : a.Unambiguous) : b.Unambiguous := by
  induction reordered with
  | null | bool | int | real | text => constructor
  | list length_eq _ ih =>
      cases clear with | list each =>
      have paired := List.forall₂_iff_zip.mpr
        ⟨length_eq, fun {a b} member => ih (a, b) member⟩
      refine .list fun item' member => ?_
      obtain ⟨item, inside, turned⟩ := forall₂_right paired member
      exact turned (each item inside)
  | @map fields middle fields' length_eq keys values perm _ ih =>
      cases clear with | map once each =>
      have paired : List.Forall₂ EntryReordered fields middle := List.forall₂_iff_zip.mpr
        ⟨length_eq, fun member => ⟨keys _ member, values _ member⟩⟩
      have turned := List.forall₂_iff_zip.mpr
        ⟨length_eq, fun {e e'} member => ih (e, e') member⟩
      rw [names_eq paired] at once
      refine .map ((perm.filterMap _).nodup_iff.mp once) fun e' member => ?_
      obtain ⟨e, inside, clear⟩ := forall₂_right turned (perm.mem_iff.mpr member)
      exact clear (each e inside)
  | tagged tag _ ih =>
      cases clear with | tagged _ own =>
      exact .tagged tag (ih own)

end Reordered

/-! Documents that say the same. -/

/-- One document is the other in another order, and the order is of no account. -/
structure Alike (a b : Node) : Prop where
  reordered : a.Reordered b
  clear : a.Unambiguous

/-- Entries that say the same. -/
def EntryAlike (e e' : Node × Node) : Prop := e.1.Reordered e'.1 ∧ e.2.Alike e'.2

namespace Alike

theorem symm (alike : a.Alike b) : b.Alike a :=
  ⟨alike.reordered.symm, alike.reordered.unambiguous alike.clear⟩

theorem untagged (alike : a.Alike b) : a.untagged.Alike b.untagged := by
  refine ⟨alike.reordered.untagged, ?_⟩
  obtain ⟨reordered, clear⟩ := alike
  clear reordered
  induction clear with
  | null | bool | int | real | text => constructor
  | list each _ => exact .list each
  | map once values _ => exact .map once values
  | tagged _ _ ih => exact ih

theorem list {items items' : List Node} (alike : (Node.list items).Alike (.list items')) :
    List.Forall₂ Alike items items' := by
  obtain ⟨reordered, clear⟩ := alike
  cases clear with
  | list clear =>
      have each := reordered_list_iff.mp reordered
      exact List.forall₂_iff_zip.mpr ⟨each.length_eq, fun member =>
        ⟨List.forall₂_zip each member, clear _ (List.of_mem_zip member).1⟩⟩

end Alike

/-- The entries of a mapping are matched with others, which come in any order. -/
theorem alike_map_iff {fields fields' : Fields} :
    (Node.map fields).Alike (.map fields') ↔ fields.names.Nodup ∧
      ∃ middle, List.Forall₂ EntryAlike fields middle ∧ middle.Perm fields' := by
  constructor
  · rintro ⟨reordered, clear⟩
    obtain ⟨middle, each, perm⟩ := reordered_map_iff.mp reordered
    cases clear with
    | map once clear =>
        refine ⟨once, middle, List.forall₂_iff_zip.mpr ⟨each.length_eq, fun member => ?_⟩, perm⟩
        obtain ⟨key, value⟩ := List.forall₂_zip each member
        exact ⟨key, value, clear _ (List.of_mem_zip member).1⟩
  · rintro ⟨once, middle, each, perm⟩
    refine ⟨reordered_map_iff.mpr ⟨middle, each.imp fun _ _ own => ⟨own.1, own.2.reordered⟩,
      perm⟩, .map once fun e member => ?_⟩
    obtain ⟨e', -, own⟩ := forall₂_left each member
    exact own.2.clear

theorem alike_nil : (Node.map []).Alike (.map []) :=
  alike_map_iff.mpr ⟨List.nodup_nil, [], .nil, .nil⟩

end Node

/-! Mappings. -/

namespace Fields

variable {fields fields' : Fields} {name : String}

theorem names_eq_of_alike {middle : Fields} (each : List.Forall₂ Node.EntryAlike fields middle) :
    fields.names = middle.names :=
  Node.Reordered.names_eq (each.imp fun _ _ own => ⟨own.1, own.2.reordered⟩)

/-- Where names are different, one entry at most is read as a name. -/
theorem pairwise_of_names_nodup (once : fields.names.Nodup) :
    fields.Pairwise fun e e' =>
      ∀ name, Decode.text e.1 = .ok name → Decode.text e'.1 = .ok name → False := by
  refine (List.pairwise_filterMap.mp once).imp fun differ name here there => ?_
  exact differ name (by rw [here]; rfl) name (by rw [there]; rfl) rfl

/-- What is looked for by its name is found in both or in neither. -/
theorem find?_alike {wanted : Node → Bool} (alike : (Node.map fields).Alike (.map fields'))
    (stable : ∀ {key key'}, key.Reordered key' → wanted key = wanted key')
    (named : ∀ {key}, wanted key = true → Decode.text key = .ok name) :
    Option.Rel Node.Alike ((List.find? (fun e => wanted e.1) fields).map (·.2))
      ((List.find? (fun e => wanted e.1) fields').map (·.2)) := by
  obtain ⟨once, middle, each, perm⟩ := Node.alike_map_iff.mp alike
  rw [names_eq_of_alike each] at once
  have single : middle.Pairwise fun e e' => wanted e.1 = true → wanted e'.1 = true → False :=
    (pairwise_of_names_nodup once).imp fun apart here there =>
      apart name (named here) (named there)
  rw [← find?_eq_of_perm perm single]
  clear once perm single alike
  induction each with
  | nil => exact .none
  | @cons e e' _ _ head _ ih =>
      rw [List.find?_cons, List.find?_cons, stable head.1]
      cases wanted e'.1 with
      | true => exact .some head.2
      | false => exact ih

theorem find?_key_alike (alike : (Node.map fields).Alike (.map fields')) (name : String) :
    Option.Rel Node.Alike (fields.find? name) (fields'.find? name) :=
  find?_alike alike (fun own => own.isText name) fun here => by rw [Node.isText_iff.mp here]; rfl

theorem find?_name_alike (alike : (Node.map fields).Alike (.map fields')) (name : String) :
    Option.Rel Node.Alike (Decode.find? fields name) (Decode.find? fields' name) :=
  find?_alike alike (fun own => own.untagged.isText name) Decode.text_of_isText

theorem has_alike (alike : (Node.map fields).Alike (.map fields')) (name : String) :
    fields.has name = fields'.has name := by
  rw [← find?_isSome, ← find?_isSome]
  have found := find?_key_alike alike name
  generalize fields.find? name = here, fields'.find? name = there at found
  cases found <;> rfl

theorem isEmpty_alike (alike : (Node.map fields).Alike (.map fields')) :
    fields.isEmpty = fields'.isEmpty := by
  obtain ⟨-, middle, each, perm⟩ := Node.alike_map_iff.mp alike
  rw [← perm.isEmpty_eq]
  cases each <;> rfl

theorem remove_alike (alike : (Node.map fields).Alike (.map fields')) (name : String) :
    (Node.map (fields.remove name)).Alike (.map (fields'.remove name)) := by
  obtain ⟨once, middle, each, perm⟩ := Node.alike_map_iff.mp alike
  have once' := names_eq_of_alike each ▸ once
  have single : middle.Pairwise fun e e' =>
      e.1.isText name = true → e'.1.isText name = true → False :=
    (pairwise_of_names_nodup once').imp fun apart here there =>
      apart name (by rw [Node.isText_iff.mp here]; rfl) (by rw [Node.isText_iff.mp there]; rfl)
  have erased : List.Forall₂ Node.EntryAlike (fields.eraseP fun e => e.1.isText name)
      (middle.eraseP fun e => e.1.isText name) := by
    clear once once' perm single alike
    induction each with
    | nil => exact .nil
    | @cons e e' _ _ head rest ih =>
        rw [List.eraseP_cons, List.eraseP_cons, head.1.isText name]
        cases e'.1.isText name with
        | true => exact rest
        | false => exact .cons head ih
  -- Removing moves the last entry, so the order is that of `eraseP` up to a permutation only.
  obtain ⟨middle', own, turned⟩ := List.perm_comp_forall₂ (remove_perm fields name) erased
  refine Node.alike_map_iff.mpr ⟨?_, middle', own, ?_⟩
  · rw [names, ((remove_perm fields name).filterMap _).nodup_iff]
    exact once.sublist (List.eraseP_sublist.filterMap _)
  · exact (turned.trans (List.Perm.eraseP _ single perm)).trans (remove_perm fields' name).symm

theorem take_eq (fields : Fields) (name : String) :
    fields.take name = (fields.find? name, fields.remove name) := by
  rw [take]
  cases found : fields.find? name with
  | some value => rfl
  | none =>
      have absent : fields.has name = false := by rw [← find?_isSome, found]; rfl
      rw [remove_of_absent absent]

theorem mem_names_takeAll {taken : String} {wanted : List String}
    (member : taken ∈ names (fields.takeAll wanted).1) : taken ∈ wanted := by
  induction wanted generalizing fields with
  | nil => exact absurd member List.not_mem_nil
  | cons name wanted ih =>
      rw [takeAll_cons, names, List.filterMap_append, ← names, ← names] at member
      rcases List.mem_append.mp member with first | later
      · refine List.mem_cons.mpr (.inl ?_)
        cases found : (fields.take name).1 with
        | none => simp [found, names] at first
        | some value => simpa [found, names, Except.toOption] using first
      · exact List.mem_cons_of_mem _ (ih later)

/-- What is taken by different names says the same, and so does the rest. -/
theorem takeAll_alike (alike : (Node.map fields).Alike (.map fields')) (wanted : List String)
    (different : wanted.Nodup) :
    (Node.map (fields.takeAll wanted).1).Alike (.map (fields'.takeAll wanted).1) ∧
      (Node.map (fields.takeAll wanted).2).Alike (.map (fields'.takeAll wanted).2) := by
  induction wanted generalizing fields fields' with
  | nil => exact ⟨Node.alike_nil, alike⟩
  | cons name wanted ih =>
      obtain ⟨new, different⟩ := List.nodup_cons.mp different
      have found := find?_key_alike alike name
      obtain ⟨taken, rest⟩ := ih (remove_alike alike name) different
      rw [takeAll_cons, takeAll_cons, take_eq, take_eq]
      refine ⟨?_, rest⟩
      dsimp only
      generalize fields.find? name = here, fields'.find? name = there at found
      cases found with
      | none => exact taken
      | some own =>
          obtain ⟨once, middle, each, perm⟩ := Node.alike_map_iff.mp taken
          have once : (name :: names ((fields.remove name).takeAll wanted).1).Nodup :=
            List.nodup_cons.mpr ⟨fun member => new (mem_names_takeAll member), once⟩
          exact Node.alike_map_iff.mpr ⟨once, _, .cons ⟨.text name, own⟩ each, perm.cons _⟩

end Fields

/-! What is left of a result when its error is not told. -/

section

variable {ε ε' α β : Type}

@[simp] theorem toOption_ok (value : α) :
    (Except.ok value : Except ε α).toOption = some value := rfl

@[simp] theorem toOption_error (error : ε) :
    (Except.error error : Except ε α).toOption = none := rfl

@[simp] theorem toOption_pure (value : α) : (pure value : Except ε α).toOption = some value := rfl

@[simp] theorem toOption_bind (step : Except ε α) (next : α → Except ε β) :
    (step >>= next).toOption = step.toOption.bind fun value => (next value).toOption := by
  cases step <;> rfl

@[simp] theorem toOption_map (change : α → β) (step : Except ε α) :
    (step.map change).toOption = step.toOption.map change := by
  cases step <;> rfl

@[simp] theorem toOption_fmap (change : α → β) (step : Except ε α) :
    (change <$> step).toOption = step.toOption.map change := toOption_map change step

@[simp] theorem toOption_mapError (change : ε → ε') (step : Except ε α) :
    (step.mapError change).toOption = step.toOption := by
  cases step <;> rfl

theorem toOption_mapError_congr {step step' : Except ε α} {change : ε → ε'}
    (same : step.toOption = step'.toOption) :
    (step.mapError change).toOption = (step'.mapError change).toOption := by
  rw [toOption_mapError, toOption_mapError, same]

theorem toOption_bind_congr {step step' : Except ε α} {next next' : α → Except ε β}
    (first : step.toOption = step'.toOption)
    (rest : ∀ value, (next value).toOption = (next' value).toOption) :
    (step >>= next).toOption = (step' >>= next').toOption := by
  rw [toOption_bind, toOption_bind, first]
  exact congrArg _ (funext rest)

theorem toOption_eq_some_iff {step : Except ε α} {value : α} :
    step.toOption = some value ↔ step = .ok value := by
  cases step <;> simp

theorem toOption_mapM_congr {α' : Type} {step : α → Except ε β} {step' : α' → Except ε β}
    {items : List α} {items' : List α'}
    (each : List.Forall₂ (fun item item' => (step item).toOption = (step' item').toOption)
      items items') :
    (items.mapM step).toOption = (items'.mapM step').toOption := by
  induction each with
  | nil => rfl
  | cons head _ ih => simp only [List.mapM_cons, toOption_bind, toOption_pure, head, ih]

end

/-! Readers that do not see the order. -/

namespace Decode

variable {α : Type} {read : Reader α} {a b : Node} {fields fields' : Fields}

/-- Documents that say the same are read as the same, or are both refused. -/
def Orderless (read : Reader α) : Prop :=
  ∀ a b, a.Alike b → (read a).toOption = (read b).toOption

theorem orderless_of_ok
    (keeps : ∀ a b value, a.Alike b → read a = .ok value → read b = .ok value) :
    Orderless read := by
  intro a b alike
  refine Option.ext fun value => ?_
  rw [toOption_eq_some_iff, toOption_eq_some_iff]
  exact ⟨keeps a b value alike, keeps b a value alike.symm⟩

@[simp] theorem orderless_text : Orderless text :=
  fun _ _ alike => congrArg _ alike.reordered.text_eq

@[simp] theorem orderless_boolean : Orderless boolean := by
  intro a b alike
  unfold boolean
  have own := alike.untagged.reordered
  generalize a.untagged = bare, b.untagged = bare' at own
  cases own <;> rfl

@[simp] theorem orderless_count : Orderless count := by
  intro a b alike
  unfold count
  have own := alike.untagged.reordered
  generalize a.untagged = bare, b.untagged = bare' at own
  cases own <;> rfl

@[simp] theorem orderless_scalar : Orderless scalar := by
  intro a b alike
  cases alike.reordered <;> rfl

@[simp] theorem orderless_option (orderless : Orderless read) : Orderless (option read) := by
  intro a b alike
  have own := orderless a b alike
  cases alike.reordered <;> simp only [option, toOption_map, own]

@[simp] theorem orderless_list (orderless : Orderless read) : Orderless (list read) := by
  intro a b alike
  unfold list
  have own := alike.untagged
  generalize a.untagged = bare, b.untagged = bare' at own
  cases own.reordered with
  | list => exact toOption_mapM_congr (own.list.imp orderless)
  | _ => rfl

@[simp] theorem orderless_texts : Orderless (list text) := orderless_list orderless_text

@[simp] theorem orderless_variant (variants : List (String × α)) :
    Orderless (variant variants) := by
  intro a b alike
  cases alike.reordered with
  | tagged tag own => cases own <;> rfl
  | _ => rfl

/-- What a mapping is read as is a mapping that says the same. -/
theorem fields_alike (alike : a.Alike b) (unfolded : Decode.fields a = .ok fields) :
    ∃ fields', Decode.fields b = .ok fields' ∧ (Node.map fields).Alike (.map fields') := by
  unfold Decode.fields at unfolded ⊢
  have own := alike.untagged
  generalize a.untagged = bare, b.untagged = bare' at unfolded own
  cases own.reordered with
  | null =>
      cases unfolded
      exact ⟨[], rfl, Node.alike_nil⟩
  | map =>
      cases unfolded
      exact ⟨_, rfl, own⟩
  | _ => cases unfolded

/-! Mappings from names. -/

theorem names_eq_of_entries {values : List (String × α)}
    (each : List.Forall₂ (fun e v => text e.1 = .ok v.1 ∧ read e.2 = .ok v.2) fields values) :
    values.map (·.1) = fields.names := by
  induction each with
  | nil => rfl
  | cons head _ ih =>
      rw [List.map_cons, ih]
      simp [Fields.names, head.1]

/-- The entries of a mapping come in its order, and make up the same map in any order. -/
theorem entries_alike (orderless : Orderless read) (alike : a.Alike b)
    {values : List (String × α)} (known : entries read a = .ok values) :
    ∃ values', entries read b = .ok values' ∧ Names.ofList values = Names.ofList values' := by
  obtain ⟨fields, unfolded, each⟩ := entries_ok_iff.mp known
  obtain ⟨fields', unfolded', own⟩ := fields_alike alike unfolded
  obtain ⟨once, middle, paired, perm⟩ := Node.alike_map_iff.mp own
  -- The entries that are matched are read the same, and only then change places.
  have same : List.Forall₂ (fun e v => text e.1 = .ok v.1 ∧ read e.2 = .ok v.2) middle values :=
    forall₂_turned paired each fun e e' v own known => ⟨own.1.text_eq ▸ known.1,
      toOption_eq_some_iff.mp (orderless _ _ own.2 ▸ toOption_eq_some_iff.mpr known.2)⟩
  obtain ⟨values', each', turned⟩ := List.perm_comp_forall₂ perm.symm same
  rw [← names_eq_of_entries each] at once
  exact ⟨values', entries_ok_iff.mpr ⟨fields', unfolded', each'⟩,
    Names.ofList_perm once turned.symm⟩

theorem orderless_ofList (orderless : Orderless read) :
    Orderless fun node => (entries read node).map Names.ofList := by
  refine orderless_of_ok fun a b names alike known => ?_
  cases accepted : entries read a with
  | error mismatch => simp [accepted, Except.map] at known
  | ok values =>
      obtain ⟨values', accepted', same⟩ := entries_alike orderless alike accepted
      rw [accepted] at known
      simp only [accepted', Except.map, ← same]
      exact known

/-! Records. -/

@[simp] theorem orderless_optional_entries (name : String) (orderless : Orderless read) :
    Orderless (optional name (entries read)).check := by
  intro a b alike
  have own := congrArg (Option.map fun _ => ()) (orderless_ofList orderless a b alike)
  simpa [optional, Function.comp_def] using own

@[simp] theorem orderless_required (name : String) (orderless : Orderless read) :
    Orderless (required name read).check := by
  intro a b alike
  simp only [required, toOption_map, orderless a b alike]

@[simp] theorem orderless_optional (name : String) (orderless : Orderless read) :
    Orderless (optional name read).check := by
  intro a b alike
  simp only [optional, toOption_map, orderless a b alike]

theorem isNone_find?_alike (alike : (Node.map fields).Alike (.map fields')) (name : String) :
    (find? fields name).isNone = (find? fields' name).isNone := by
  have found := Fields.find?_name_alike alike name
  generalize find? fields name = here, find? fields' name = there at found
  cases found <;> rfl

theorem checkFields_alike {known : List Field} (checks : ∀ field ∈ known, Orderless field.check)
    (alike : (Node.map fields).Alike (.map fields'))
    (accepted : checkFields known [] fields = .ok ()) :
    checkFields known [] fields' = .ok () := by
  obtain ⟨once, middle, each, perm⟩ := Node.alike_map_iff.mp alike
  rw [Fields.names_eq_of_alike each] at once
  refine checkFields_perm perm
    (checkFields_iff.mpr ⟨fun e' member => ?_, Fields.pairwise_of_names_nodup once⟩)
  obtain ⟨e, inside, key, value⟩ := forall₂_right each member
  obtain ⟨name, field, named, found, new, checked⟩ := (checkFields_iff.mp accepted).1 e inside
  have checked' : (field.check e'.2).toOption = some () := by
    rw [← checks field (List.mem_of_find?_eq_some found) _ _ value, checked, toOption_ok]
  exact ⟨name, field, key.text_eq ▸ named, found, new, toOption_eq_some_iff.mp checked'⟩

theorem record_alike {known : List Field} (checks : ∀ field ∈ known, Orderless field.check)
    (alike : a.Alike b) (accepted : record known a = .ok fields) :
    ∃ fields', record known b = .ok fields' ∧ (Node.map fields).Alike (.map fields') := by
  obtain ⟨unfolded, checked, present⟩ := record_ok accepted
  obtain ⟨fields', unfolded', own⟩ := fields_alike alike unfolded
  have present' : checkPresent known fields' = .ok () := by
    simpa only [checkPresent, isNone_find?_alike own] using present
  refine ⟨fields', ?_, own⟩
  simp [record, unfolded', checkFields_alike checks own checked, present', bind, Except.bind, pure,
    Except.pure]

/-- A record whose fields are checked and read without regard to the order. -/
theorem orderless_record {known : List Field} {body : Fields → Except Mismatch α}
    (checks : ∀ field ∈ known, Orderless field.check)
    (reads : ∀ {fields fields'}, (Node.map fields).Alike (.map fields') →
      (body fields).toOption = (body fields').toOption) :
    Orderless fun node => record known node >>= body := by
  refine orderless_of_ok fun a b value alike run => ?_
  obtain ⟨fields, accepted, own⟩ := except_bind_ok.mp run
  obtain ⟨fields', accepted', same⟩ := record_alike checks alike accepted
  refine except_bind_ok.mpr ⟨fields', accepted', ?_⟩
  rw [← toOption_eq_some_iff, ← reads same, own, toOption_ok]

theorem get_alike (alike : (Node.map fields).Alike (.map fields')) (orderless : Orderless read)
    (name : String) (absent : α) :
    (get fields name read absent).toOption = (get fields' name read absent).toOption := by
  unfold get
  have found := Fields.find?_name_alike alike name
  generalize find? fields name = here, find? fields' name = there at found
  cases found with
  | none => rfl
  | some own => exact orderless _ _ own

theorem need_alike (alike : (Node.map fields).Alike (.map fields')) (orderless : Orderless read)
    (name : String) :
    (need fields name read).toOption = (need fields' name read).toOption := by
  unfold need
  have found := Fields.find?_name_alike alike name
  generalize find? fields name = here, find? fields' name = there at found
  cases found with
  | none => rfl
  | some own => exact orderless _ _ own

/-- A mapping from names that is made a map of. -/
theorem bind_entries_alike {β : Type} {next next' : List (String × α) → Except Mismatch β}
    (alike : (Node.map fields).Alike (.map fields')) (orderless : Orderless read) (name : String)
    (rest : ∀ values values', Names.ofList values = Names.ofList values' →
      (next values).toOption = (next' values').toOption) :
    (get fields name (entries read) [] >>= next).toOption =
      (get fields' name (entries read) [] >>= next').toOption := by
  unfold get
  have found := Fields.find?_name_alike alike name
  generalize find? fields name = here, find? fields' name = there at found
  cases found with
  | none => exact rest [] [] rfl
  | @some value value' own =>
      have same := orderless_ofList orderless value value' own
      rw [toOption_map, toOption_map] at same
      dsimp only
      generalize entries read value = known, entries read value' = known' at same ⊢
      cases known with
      | error mismatch =>
          cases known' with
          | error mismatch' => rfl
          | ok values' => cases same
      | ok values =>
          cases known' with
          | error mismatch' => cases same
          | ok values' => exact rest values values' (Option.some.inj same)

end Decode
end ImageLock
