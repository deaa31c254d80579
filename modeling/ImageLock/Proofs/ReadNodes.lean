/-
What the reader makes. At every depth of a document that was read, the keys of a mapping
differ, and the numbers are numbers of the format.
-/
import ImageLock.Proofs.NumberText
import ImageLock.Proofs.Permuted

namespace ImageLock

/-- A document as the reader makes them. -/
inductive Node.Regular : Node → Prop where
  | null : Regular .null
  | bool (value : Bool) : Regular (.bool value)
  | int (value : Int) : Regular (.int value)
  | real {x : Number.Binary64} (proper : x.Proper) : Regular (.real x)
  | text (value : String) : Regular (.text value)
  | list {items : List Node} (each : ∀ item ∈ items, Regular item) : Regular (.list items)
  | map {fields : Fields} (distinct : fields.Distinct) (keys : ∀ e ∈ fields, Regular e.1)
      (values : ∀ e ∈ fields, Regular e.2) : Regular (.map fields)
  | tagged (tag : String) {value : Node} (own : Regular value) : Regular (.tagged tag value)

namespace Node.Regular

theorem values {fields : Fields} (regular : Regular (.map fields)) {e : Node × Node}
    (member : e ∈ fields) : e.2.Regular := by
  cases regular with
  | map _ _ values => exact values e member

theorem distinct {fields : Fields} (regular : Regular (.map fields)) : fields.Distinct := by
  cases regular with
  | map distinct _ _ => exact distinct

theorem untagged {node : Node} (regular : Regular node) : node.untagged.Regular := by
  induction regular with
  | tagged tag own ih => exact ih
  | null => exact .null
  | bool value => exact .bool value
  | int value => exact .int value
  | real proper => exact .real proper
  | text value => exact .text value
  | list each => exact .list each
  | map distinct keys values => exact .map distinct keys values

end Node.Regular

namespace Yaml

/-! Scalars. -/

theorem proper_finite? {text : List Char} {x : Number.Binary64}
    (read : Number.finite? text = some x) : x.Proper := by
  unfold Number.finite? at read
  dsimp only at read
  obtain ⟨⟨digits, places, exponent⟩, -, read⟩ := Option.bind_eq_some_iff.mp read
  split at read
  next found =>
    rw [← Option.some.inj read, ← found]
    exact Number.Binary64.proper_ofDecimal _ _ _
  next => cases read

theorem proper_real? {text : List Char} {x : Number.Binary64} (read : real? text = some x) :
    x.Proper := by
  unfold real? at read
  dsimp only at read
  repeat' split at read
  all_goals first
    | exact proper_finite? read
    | (cases read; trivial)
    | cases read

theorem regular_plainValue? {text : String} {node : Node} (read : plainValue? text = some node) :
    node.Regular := by
  have number : ∀ x, real? text.toList = some x → (Node.real x).Regular :=
    fun x found => .real (proper_real? found)
  unfold plainValue? at read
  dsimp only at read
  repeat' split at read
  all_goals first
    | (cases read; exact number _ (by assumption))
    | (cases read; constructor)
    | cases read

theorem regular_plainOrFault {text : String} {node : Node} (read : plainOrFault text = .ok node) :
    node.Regular := by
  unfold plainOrFault at read
  split at read
  next value found =>
    rw [← Except.ok.inj read]
    exact regular_plainValue? found
  next => cases read

theorem regular_scalarValue {tag : Option TagText} {text : String} {plain : Bool} {node : Node}
    (read : scalarValue tag text plain = .ok node) : node.Regular := by
  have made {α : Type} {make : α → Node} {value? : Option α} {value : Node}
      (regular : ∀ own, value? = some own → (make own).Regular)
      (found : value?.map make = some value) : value.Regular := by
    obtain ⟨own, there, rfl⟩ := Option.map_eq_some_iff.mp found
    exact regular own there
  unfold scalarValue at read
  dsimp only at read
  split at read
  next =>
    split at read
    next => exact regular_plainOrFault read
    next =>
      cases read
      exact .text text
  next tag =>
    split at read
    next =>
      split at read
      next value found =>
        cases read
        exact made (fun own _ => .bool own) found
      next => cases read
    next =>
      split at read
      next =>
        split at read
        next value found =>
          cases read
          exact made (fun own _ => .int own) found
        next => cases read
      next =>
        split at read
        next =>
          split at read
          next value found =>
            cases read
            exact made (fun own there => .real (proper_real? there)) found
          next => cases read
        next =>
          split at read
          next =>
            by_cases word : isNullWord text = true
            · rw [if_pos word] at read
              cases read
              exact .null
            · rw [if_neg word] at read
              cases read
          next =>
            split at read
            next => exact regular_plainOrFault read
            next =>
              cases read
              exact .text text

/-! Collections. -/

theorem Reading.mapM_ok {α β : Type} (holds : β → Prop) {step : α → Reading β}
    (made : ∀ item first result last, step item first = .ok (result, last) → holds result)
    {items : List α} {results : List β} {first last : Nat}
    (run : (items.mapM step : Reading (List β)) first = .ok (results, last)) :
    ∀ result ∈ results, holds result := by
  induction items generalizing results first last with
  | nil =>
      obtain ⟨rfl, _⟩ := Reading.pure_ok.mp run
      simp
  | cons item rest ih =>
      rw [List.mapM_cons] at run
      obtain ⟨result, _, head, run⟩ := Reading.bind_ok.mp run
      obtain ⟨others, _, tail, run⟩ := Reading.bind_ok.mp run
      obtain ⟨rfl, _⟩ := Reading.pure_ok.mp run
      intro r member
      rcases List.mem_cons.mp member with rfl | later
      · exact made _ _ _ _ head
      · exact ih tail r later

theorem regular_tagged {name? : Option String} {marked own : Reading Node}
    (regular : ∀ first node last, marked first = .ok (node, last) → node.Regular)
    (regular' : ∀ first node last, own first = .ok (node, last) → node.Regular)
    {node : Node} {first last : Nat}
    (run : (match name? with
      | some name => (do return .tagged name (← marked) : Reading Node)
      | none => own) first = .ok (node, last)) : node.Regular := by
  cases name? with
  | none => exact regular' _ _ _ run
  | some name =>
      obtain ⟨value, _, read, run⟩ := Reading.bind_ok.mp run
      rw [(Reading.pure_ok.mp run).1]
      exact .tagged name (regular _ _ _ read)

/-- The fields of a mapping, where the reader of one level less is known. -/
theorem regular_readFields {doc : Linked} {limit fuel depth : Nat} {isTagged : Bool}
    {entries : List (Anchored × Anchored)} {fields : Fields} {first last : Nat}
    (regular : ∀ isTagged node first value last,
      readNode doc limit fuel (depth - 1) isTagged node first = .ok (value, last) →
      value.Regular)
    (read : (entries.foldlM (fun (read : Fields) (entry : Anchored × Anchored) => do
        let key ← readNode doc limit fuel (depth - 1) isTagged entry.1
        if read.any fun e => e.1.same key then throw .duplicateKey
        let value ← readNode doc limit fuel (depth - 1) false entry.2
        return (key, value) :: read) [] : Reading Fields) first = .ok (fields, last)) :
    Node.Regular (.map fields.reverse) := by
  have inside : ∀ e ∈ fields, e.1.Regular ∧ e.2.Regular := by
    refine Reading.foldlM_ok (fun fields => ∀ e ∈ fields, e.1.Regular ∧ e.2.Regular) ?_ (by simp)
      read
    intro done entry first done' last known step
    obtain ⟨key, _, keyRead, step⟩ := Reading.bind_ok.mp step
    obtain ⟨_, step⟩ := Reading.guard_ok.mp step
    obtain ⟨value, _, valueRead, step⟩ := Reading.bind_ok.mp step
    rw [(Reading.pure_ok.mp step).1]
    intro e member
    rcases List.mem_cons.mp member with rfl | earlier
    · exact ⟨regular _ _ _ _ _ keyRead, regular _ _ _ _ _ valueRead⟩
    · exact known e earlier
  exact .map (readFields_distinct read) (fun e member => (inside e (List.mem_reverse.mp member)).1)
    fun e member => (inside e (List.mem_reverse.mp member)).2

theorem regular_readNode {doc : Linked} {limit fuel depth : Nat} {isTagged : Bool}
    {node : Anchored} {value : Node} {first last : Nat}
    (read : readNode doc limit fuel depth isTagged node first = .ok (value, last)) :
    value.Regular := by
  induction fuel generalizing depth isTagged node value first last with
  | zero => cases read
  | succ fuel ih =>
      cases node with
      | «alias» slot =>
          rw [readNode] at read
          obtain ⟨_, _, _, read⟩ := Reading.bind_ok.mp read
          obtain ⟨_, _, _, read⟩ := Reading.bind_ok.mp read
          obtain ⟨_, read⟩ := Reading.guard_ok.mp read
          cases target : doc.follow? slot with
          | none =>
              simp only [target] at read
              exact (Reading.throw_ok.mp read).elim
          | some node =>
              simp only [target] at read
              exact ih read
      | scalar tag text plain =>
          rw [readNode] at read
          have scalar (isTagged : Bool) (first : Nat) (node : Node) (last : Nat)
              (run : ((if isTagged then (if plain then plainOrFault text else pure (.text text))
                else scalarValue tag text plain : Reading Node)) first = .ok (node, last)) :
              node.Regular := by
            cases isTagged <;> cases plain
            · exact regular_scalarValue (Reading.lift_ok.mp run).1
            · exact regular_scalarValue (Reading.lift_ok.mp run).1
            · rw [(Reading.pure_ok.mp run).1]
              exact .text text
            · exact regular_plainOrFault (Reading.lift_ok.mp run).1
          exact regular_tagged (scalar true) (scalar isTagged) read
      | sequence tag items =>
          rw [readNode] at read
          refine regular_tagged ?both ?both read
          intro first node last run
          obtain ⟨_, run⟩ := Reading.guard_ok.mp run
          obtain ⟨own, _, entered, run⟩ := Reading.bind_ok.mp run
          rw [(Reading.pure_ok.mp run).1]
          exact .list (Reading.mapM_ok Node.Regular (fun _ _ _ _ => ih) entered)
      | mapping tag entries =>
          rw [readNode] at read
          refine regular_tagged ?marked ?own read
          case marked =>
            intro first node last run
            obtain ⟨_, run⟩ := Reading.guard_ok.mp run
            obtain ⟨own, _, entered, run⟩ := Reading.bind_ok.mp run
            rw [(Reading.pure_ok.mp run).1]
            exact regular_readFields (fun _ _ _ _ _ => ih) entered
          case own =>
            intro first node last run
            obtain ⟨_, run⟩ := Reading.guard_ok.mp run
            obtain ⟨own, _, entered, run⟩ := Reading.bind_ok.mp run
            rw [(Reading.pure_ok.mp run).1]
            exact regular_readFields (fun _ _ _ _ _ => ih) entered

theorem regular_parse {content : ByteArray} {node : Node} (parsed : parse content = .ok node) :
    node.Regular := by
  simp only [parse, bind, Except.bind] at parsed
  repeat' split at parsed
  all_goals try cases parsed
  next linked _ =>
    simp only [readLinked, StateT.run', Functor.map, Except.map] at parsed
    split at parsed
    next => cases parsed
    next answer outcome =>
      rw [← Except.ok.inj parsed]
      exact regular_readNode outcome
  next => exact .null

end Yaml

/-! Definitions. -/

theorem Definition.parseFields_regular {file : String} {content : ByteArray} {fields : Fields}
    (parsed : parseFields file content = .ok fields) : (Node.map fields).Regular := by
  unfold parseFields at parsed
  split at parsed
  next => cases parsed
  next own read =>
    rw [← Except.ok.inj parsed]
    exact Yaml.regular_parse read
  next =>
    rw [← Except.ok.inj parsed]
    exact .map List.Pairwise.nil (by simp) (by simp)
  next => cases parsed

/-- A definition is its file, with the kind put first. -/
theorem Definition.parse_ok {file : String} {content : ByteArray} {d : Definition}
    (parsed : parse file content = .ok d) : ∃ fields, parseFields file content = .ok fields ∧
      fields.Perm ((.text "kind", .text d.kind) :: d.config) := by
  simp only [parse, bind, Except.bind] at parsed
  split at parsed
  next => cases parsed
  next fields read =>
    refine ⟨fields, read, ?_⟩
    unfold Fields.take at parsed
    cases found : fields.find? "kind" with
    | none => simp [found] at parsed
    | some value =>
        simp only [found] at parsed
        cases value with
        | text kind =>
            dsimp only at parsed
            split at parsed
            next => cases parsed
            next =>
              cases parsed
              exact Fields.perm_cons_remove found
        | _ => cases parsed

/-- Every value of the configuration is one that the reader makes. -/
def Definition.IsRegular (d : Definition) : Prop := ∀ e ∈ d.config, e.2.Regular

theorem Definition.parse_regular {file : String} {content : ByteArray} {d : Definition}
    (parsed : parse file content = .ok d) : d.IsRegular := by
  obtain ⟨fields, read, same⟩ := parse_ok parsed
  intro e member
  exact (parseFields_regular read).values (same.mem_iff.mpr (List.mem_cons_of_mem _ member))

theorem Loads.isRegular {backend : Backend} {request : Request} {d : Definition}
    (loads : Loads backend request d) : d.IsRegular := by
  obtain ⟨_, bare, _, parsed, same⟩ := loads.definition
  have regular := Definition.parse_regular parsed
  rwa [same]

end ImageLock
