/-
Mappings have distinct keys: those that are read from a document, and those that
an update writes, whose keys are texts besides.
-/
import ImageLock.Proofs.Updating
import ImageLock.Proofs.WrittenLocks

namespace ImageLock

/-! Keys that are texts. -/

namespace Node

variable {key : Node} {name : String}

theorem isText_iff : key.isText name = true ↔ key = .text name := by
  cases key <;> simp [isText]

theorem same_text_iff : key.same (.text name) = true ↔ key = .text name := by
  cases key <;> simp [same]

end Node

namespace Fields

variable {fields : Fields} {name : String} {value : Node}

def Distinct (fields : Fields) : Prop := fields.Pairwise fun a b => a.1.same b.1 = false

/-- A mapping from distinct texts. -/
def IsRecord (fields : Fields) : Prop :=
  ∃ names : List String, names.Nodup ∧ fields.keys = names.map .text

/-- Of two fields of one key there is only one. -/
theorem Distinct.find?_of_mem (distinct : fields.Distinct) (member : (.text name, value) ∈ fields) :
    fields.find? name = some value := by
  induction fields with
  | nil => cases member
  | cons e rest ih =>
      obtain ⟨first, later⟩ := List.pairwise_cons.mp distinct
      rcases List.mem_cons.mp member with rfl | member
      · simp [find?, Node.isText]
      · have other : e.1.isText name = false := by
          refine Bool.eq_false_iff.mpr fun here => ?_
          have differ := first _ member
          rw [Node.isText_iff.mp here] at differ
          simp [Node.same] at differ
        simpa [find?, other] using ih later member

theorem mem_of_find? (found : fields.find? name = some value) :
    (.text name, value) ∈ fields := by
  obtain ⟨e, hit, rfl⟩ := Option.map_eq_some_iff.mp found
  have named : e.1.isText name = true := by simpa using List.find?_some hit
  have key : e.1 = .text name := Node.isText_iff.mp named
  rw [← key]
  exact List.mem_of_find?_eq_some hit

theorem Distinct.mem_iff (distinct : fields.Distinct) :
    (.text name, value) ∈ fields ↔ fields.find? name = some value :=
  ⟨distinct.find?_of_mem, mem_of_find?⟩

theorem Distinct.filter (distinct : fields.Distinct) (keeps : Node × Node → Bool) :
    Distinct (List.filter keeps fields) :=
  List.Pairwise.filter _ distinct

namespace IsRecord

theorem of_values (values : List (String × Node)) (distinct : (values.map (·.1)).Nodup) :
    IsRecord (values.map fun e => (.text e.1, e.2)) :=
  ⟨values.map (·.1), distinct, by simp [keys]⟩

theorem key (record : fields.IsRecord) {e : Node × Node} (member : e ∈ fields) :
    ∃ name, e.1 = .text name := by
  obtain ⟨names, _, keys_eq⟩ := record
  have there : e.1 ∈ fields.keys := List.mem_map.mpr ⟨e, member, rfl⟩
  rw [keys_eq] at there
  obtain ⟨name, _, same⟩ := List.mem_map.mp there
  exact ⟨name, same.symm⟩

theorem distinct (record : fields.IsRecord) : fields.Distinct := by
  obtain ⟨names, nodup, keys_eq⟩ := record
  have apart : (fields.map (·.1)).Pairwise fun a b => a.same b = false := by
    rw [← keys, keys_eq]
    refine List.pairwise_map.mpr (nodup.imp fun differ => ?_)
    simpa [Node.same] using differ
  exact List.pairwise_map.mp apart

theorem keys_insert (fields : Fields) (name : String) (value : Node) :
    (fields.insert name value).keys =
      if fields.has name then fields.keys else fields.keys ++ [.text name] := by
  induction fields with
  | nil => simp [insert, keys, has]
  | cons e rest ih =>
      by_cases here : e.1.isText name
      · simp [insert, here, keys, has]
      · simp only [keys, has] at ih
        simp only [insert, here, keys, has, Bool.false_eq_true, if_false, List.map_cons,
          List.any_cons, Bool.false_or, ih]
        split
        next there => simp [there]
        next absent => simp [absent]

theorem insert (record : fields.IsRecord) (name : String) (value : Node) :
    (Fields.insert name value fields).IsRecord := by
  obtain ⟨names, nodup, keys_eq⟩ := record
  by_cases there : fields.has name
  · exact ⟨names, nodup, by rw [keys_insert, if_pos there, keys_eq]⟩
  · have new : name ∉ names := by
      intro member
      have key : Node.text name ∈ fields.keys := by
        rw [keys_eq]
        exact List.mem_map.mpr ⟨name, member, rfl⟩
      obtain ⟨e, member, same⟩ := List.mem_map.mp key
      exact there (List.any_eq_true.mpr ⟨e, member, by simp [same, Node.isText]⟩)
    refine ⟨names ++ [name], ?_, ?_⟩
    · refine List.nodup_append.mpr ⟨nodup, by simp, ?_⟩
      intro a member b single same
      rw [List.mem_singleton.mp single] at same
      exact new (same ▸ member)
    · rw [keys_insert, if_neg there, keys_eq, List.map_append, List.map_singleton]

end IsRecord
end Fields

/-! Mappings that are read. -/

namespace Yaml

theorem Reading.bind_ok {α β : Type} {step : Reading α} {next : α → Reading β} {result : β}
    {first last : Nat} :
    (step >>= next) first = .ok (result, last) ↔
      ∃ value middle, step first = .ok (value, middle) ∧
        next value middle = .ok (result, last) := by
  simp only [bind, StateT.bind, Except.bind]
  cases step first with
  | error fault => simp
  | ok answer =>
      obtain ⟨value, middle⟩ := answer
      constructor
      · exact fun run => ⟨value, middle, rfl, run⟩
      · rintro ⟨_, _, same, run⟩
        cases same
        exact run

theorem Reading.foldlM_ok {α β : Type} (holds : β → Prop) {step : β → α → Reading β}
    (keeps : ∀ done item first done' last, holds done →
      step done item first = .ok (done', last) → holds done')
    {items : List α} {start result : β} {first last : Nat} (begins : holds start)
    (run : (items.foldlM step start : Reading β) first = .ok (result, last)) : holds result := by
  induction items generalizing start first with
  | nil =>
      obtain ⟨rfl, _⟩ := Prod.mk.inj (Except.ok.inj run)
      exact begins
  | cons item rest ih =>
      rw [List.foldlM_cons, bind_ok] at run
      obtain ⟨done, middle, step_ok, run⟩ := run
      exact ih (keeps _ _ _ _ _ begins step_ok) run

theorem Reading.lift_ok {α : Type} {answer : Except Fault α} {result : α} {first last : Nat} :
    (liftM answer : Reading α) first = .ok (result, last) ↔
      answer = .ok result ∧ last = first := by
  cases answer with
  | error fault => simp [liftM, monadLift, MonadLift.monadLift, StateT.lift, bind, Except.bind]
  | ok value =>
      simp [liftM, monadLift, MonadLift.monadLift, StateT.lift, bind, Except.bind, pure,
        Except.pure, eq_comm]

theorem Reading.pure_ok {α : Type} {value result : α} {first last : Nat} :
    (pure value : Reading α) first = .ok (result, last) ↔ result = value ∧ last = first := by
  have run : (pure value : Reading α) first = .ok (value, first) := rfl
  simp [run, eq_comm]

theorem Reading.throw_ok {α : Type} {fault : Fault} {result : α} {first last : Nat} :
    (throw fault : Reading α) first = .ok (result, last) ↔ False := by
  simp [throw, throwThe, MonadExceptOf.throw, StateT.lift, bind, Except.bind]

theorem Reading.guard_ok {α β : Type} {stops : Prop} [Decidable stops] {fault : Fault}
    {next : α → Reading β} {rest : Reading β} {result : β} {first last : Nat} :
    (if stops then throw fault >>= next else rest) first = .ok (result, last) ↔
      ¬ stops ∧ rest first = .ok (result, last) := by
  by_cases here : stops
  · simp only [here, if_true, not_true, false_and, iff_false]
    intro run
    obtain ⟨_, _, thrown, _⟩ := bind_ok.mp run
    exact throw_ok.mp thrown
  · simp [here]

/-- A value with a tag is no mapping. -/
theorem Reading.untagged_ok {name? : Option String} {marked own : Reading Node}
    {fields : Fields} {first last : Nat}
    (run : (match name? with
      | some name => (do return .tagged name (← marked) : Reading Node)
      | none => own) first = .ok (.map fields, last)) :
    own first = .ok (.map fields, last) := by
  cases name? with
  | none => exact run
  | some name =>
      obtain ⟨_, _, _, run⟩ := bind_ok.mp run
      cases (pure_ok.mp run).1

/-! Scalars are no mappings. -/

theorem plainValue?_ne_map {text : String} {fields : Fields} :
    plainValue? text ≠ some (.map fields) := by
  unfold plainValue?
  dsimp only
  repeat' split
  all_goals simp

theorem plainOrFault_ne_map {text : String} {fields : Fields} :
    plainOrFault text ≠ .ok (.map fields) := by
  unfold plainOrFault
  split
  next value found =>
    intro same
    rw [Except.ok.inj same] at found
    exact plainValue?_ne_map found
  next => simp

theorem scalarValue_ne_map {tag : Option TagText} {text : String} {plain : Bool}
    {fields : Fields} : scalarValue tag text plain ≠ .ok (.map fields) := by
  unfold scalarValue
  dsimp only
  repeat' split
  all_goals first
    | exact plainOrFault_ne_map
    | grind [Option.map_eq_some_iff]

/-- A new field has a key that no earlier one has. -/
theorem readFields_distinct {doc : Linked} {limit fuel depth : Nat} {isTagged : Bool}
    {entries : List (Anchored × Anchored)} {fields : Fields} {first last : Nat}
    (read : (entries.foldlM (fun (read : Fields) (entry : Anchored × Anchored) => do
        let key ← readNode doc limit fuel (depth - 1) isTagged entry.1
        if read.any fun e => e.1.same key then throw .duplicateKey
        let value ← readNode doc limit fuel (depth - 1) false entry.2
        return (key, value) :: read) [] : Reading Fields) first = .ok (fields, last)) :
    Fields.Distinct fields.reverse := by
  have empty : Fields.Distinct (List.reverse []) := List.Pairwise.nil
  refine Reading.foldlM_ok (fun fields => Fields.Distinct fields.reverse) ?_ empty read
  intro done entry first done' last distinct step
  obtain ⟨key, _, _, step⟩ := Reading.bind_ok.mp step
  obtain ⟨new, step⟩ := Reading.guard_ok.mp step
  obtain ⟨value, _, _, step⟩ := Reading.bind_ok.mp step
  rw [(Reading.pure_ok.mp step).1, List.reverse_cons]
  refine List.pairwise_append.mpr ⟨distinct, List.pairwise_singleton _ _, ?_⟩
  intro e member last single
  rw [List.mem_singleton.mp single]
  refine Bool.eq_false_iff.mpr fun same => new ?_
  exact List.any_eq_true.mpr ⟨e, List.mem_reverse.mp member, same⟩

theorem readNode_distinct {doc : Linked} {limit fuel depth : Nat} {isTagged : Bool}
    {node : Anchored} {fields : Fields} {first last : Nat}
    (read : readNode doc limit fuel depth isTagged node first = .ok (.map fields, last)) :
    fields.Distinct := by
  -- Only an alias is read as the node that it stands for.
  induction fuel generalizing depth isTagged node first with
  | zero => cases read
  | succ fuel ih =>
      cases node with
      | «alias» slot =>
          rw [readNode] at read
          obtain ⟨_, _, _, read⟩ := Reading.bind_ok.mp read
          obtain ⟨_, _, _, read⟩ := Reading.bind_ok.mp read
          obtain ⟨_, read⟩ := Reading.guard_ok.mp read
          cases target : doc.follow? slot with
          | none =>
              simp only [target] at read
              exact (Reading.throw_ok.mp read).elim
          | some node =>
              simp only [target] at read
              exact ih read
      | scalar tag text plain =>
          rw [readNode] at read
          have read := Reading.untagged_ok read
          cases isTagged <;> cases plain
          · exact (scalarValue_ne_map (Reading.lift_ok.mp read).1).elim
          · exact (scalarValue_ne_map (Reading.lift_ok.mp read).1).elim
          · cases (Reading.pure_ok.mp read).1
          · exact (plainOrFault_ne_map (Reading.lift_ok.mp read).1).elim
      | sequence tag items =>
          rw [readNode] at read
          obtain ⟨_, read⟩ := Reading.guard_ok.mp (Reading.untagged_ok read)
          obtain ⟨_, _, _, read⟩ := Reading.bind_ok.mp read
          cases (Reading.pure_ok.mp read).1
      | mapping tag entries =>
          rw [readNode] at read
          obtain ⟨_, read⟩ := Reading.guard_ok.mp (Reading.untagged_ok read)
          obtain ⟨own, _, entered, read⟩ := Reading.bind_ok.mp read
          rw [Node.map.inj (Reading.pure_ok.mp read).1]
          exact readFields_distinct entered

theorem readLinked_distinct {doc : Linked} {fields : Fields}
    (read : readLinked doc = .ok (.map fields)) : fields.Distinct := by
  simp only [readLinked, StateT.run', Functor.map, Except.map] at read
  split at read
  next => cases read
  next answer outcome =>
    obtain ⟨node, last⟩ := answer
    have node_eq : node = .map fields := Except.ok.inj read
    rw [node_eq] at outcome
    exact readNode_distinct outcome

theorem parse_distinct {content : ByteArray} {fields : Fields}
    (parsed : parse content = .ok (.map fields)) : fields.Distinct := by
  simp only [parse, bind, Except.bind] at parsed
  repeat' split at parsed
  all_goals try cases parsed
  next linked _ => exact readLinked_distinct parsed

end Yaml

theorem Definition.parseFields_distinct {file : String} {content : ByteArray} {fields : Fields}
    (parsed : parseFields file content = .ok fields) : fields.Distinct := by
  unfold parseFields at parsed
  split at parsed
  next => cases parsed
  next own read =>
    rw [← Except.ok.inj parsed]
    exact Yaml.parse_distinct read
  next =>
    rw [← Except.ok.inj parsed]
    exact List.Pairwise.nil
  next => cases parsed

theorem Loads.distinct {backend : Backend} {request : Request} {d : Definition}
    (loads : Loads backend request d) : d.locks.Distinct := by
  have held := loads.locks
  unfold HoldsLocks at held
  split at held
  next => exact Definition.parseFields_distinct held
  next =>
    rw [held.2]
    exact List.Pairwise.nil

/-! Mappings that are written. -/

theorem StagedLocks.isRecord {S : Type} (stageNode : S → Node) (locks : StagedLocks S) :
    (lockFields (.record (toFields stageNode locks))).IsRecord := by
  refine Fields.IsRecord.of_values (toFields stageNode locks) ?_
  cases source : locks.source <;> simp [toFields, Node.optional, source]

theorem Webserver.Locks.isRecord (locks : Webserver.Locks) :
    (lockFields locks.toNode).IsRecord :=
  Fields.IsRecord.of_values [("base_image", .text locks.image),
    ("osrelease", locks.os.toNode), ("system_packages", locks.systemPackages.toNode)] (by simp)

variable {world : World} {request : Request} {refresh : Refresh} {d : Definition}
  {first last : Trail}

theorem Kind.lock_isRecord {kind : Kind} {own : Fields}
    (locked : (kind.lock world request refresh d).after first = (.ok own, last)) :
    own.IsRecord := by
  cases kind with
  | php =>
      obtain ⟨locks, _, _, done⟩ := Act.bind_ok.mp locked
      rw [(Act.pure_ok.mp done).1]
      exact StagedLocks.isRecord _ locks
  | nodeJs =>
      obtain ⟨locks, _, _, done⟩ := Act.bind_ok.mp locked
      rw [(Act.pure_ok.mp done).1]
      exact StagedLocks.isRecord _ locks
  | webserver =>
      obtain ⟨locks, _, _, done⟩ := Act.bind_ok.mp locked
      rw [(Act.pure_ok.mp done).1]
      exact locks.isRecord

theorem Update.Wrote.isRecord {registry : Registry Kind} {written : Fields}
    (wrote : Wrote registry world request refresh d first written last) : written.IsRecord := by
  obtain ⟨own, hash, locked, _, rfl⟩ := wrote
  obtain ⟨kind, fields, middle, _, kindLocked, beside⟩ := locks_ok.mp locked
  have record := Kind.lock_isRecord kindLocked
  unfold ServerLocked at beside
  split at beside
  next =>
    obtain ⟨_, server, _, _, rfl⟩ := beside
    exact (record.insert _ _).insert _ _
  next =>
    rw [beside.1]
    exact record.insert _ _

end ImageLock
