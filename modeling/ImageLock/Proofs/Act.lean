/-
What programs that ask the outside answer with, and what they leave behind.

A program that succeeds is taken apart at its binds: each step answers, and the
next one goes on from the trail that is left. A program that only reads answers
the same whatever was asked before it. Programs that agree cannot be told apart
by their answers.
-/
import ImageLock.Access.Act

namespace ImageLock.Act

variable {ε ε' α β : Type}

/-- The outcome of a program that goes on from a trail. -/
def after (act : Act ε α) (trail : Trail) : Except ε α × Trail := act.run.run trail

/-- A program that only reads: it answers the same from every trail, and stores
nothing. -/
def Answers (act : Act ε α) (answer : Except ε α) : Prop :=
  ∀ trail, (act.after trail).1 = answer ∧ (act.after trail).2.indexes = trail.indexes

theorem runFrom_eq (act : Act ε α) (indexes : IndexStore) :
    act.runFrom indexes = act.after (Trail.start indexes) := rfl

/-! Results. -/

@[simp] theorem ok_mapError (change : ε → ε') (value : α) :
    (Except.ok value : Except ε α).mapError change = .ok value := rfl

@[simp] theorem error_mapError (change : ε → ε') (error : ε) :
    (Except.error error : Except ε α).mapError change = .error (change error) := rfl

theorem eq_ok_of_toOption {result : Except ε α} {value : α}
    (known : result.toOption = some value) : result = .ok value := by
  cases result with
  | error error => cases known
  | ok own => exact congrArg _ (Option.some.inj known)

/-- An outcome that passes a check is a success. -/
theorem exists_of_any {outcome : Except ε α × Trail} {check : α → Bool}
    (passes : outcome.1.toOption.any check = true) :
    ∃ value, outcome = (.ok value, outcome.2) ∧ check value = true := by
  obtain ⟨result, trail⟩ := outcome
  cases result with
  | error error => simp [Except.toOption] at passes
  | ok value => exact ⟨value, rfl, by simpa [Except.toOption] using passes⟩

/-- The error that a program failed with. -/
def failure? : Except ε α → Option ε
  | .ok _ => none
  | .error error => some error

theorem eq_error_of_failure? {result : Except ε α} {error : ε}
    (known : failure? result = some error) : result = .error error := by
  cases result with
  | error own => exact congrArg _ (Option.some.inj known)
  | ok value => cases known

/-! One equation for each way to build a program. -/

theorem after_pure (value : α) (trail : Trail) :
    after (pure value : Act ε α) trail = (.ok value, trail) := rfl

theorem after_fail (error : ε) (trail : Trail) :
    after (fail error : Act ε α) trail = (.error error, trail) := rfl

theorem after_ofExcept (result : Except ε α) (trail : Trail) :
    after (ofExcept result) trail = (result, trail) := rfl

theorem after_ofReply (reply : Reply ε α) (trail : Trail) :
    after (ofReply reply) trail =
      (reply.1, { trail with events := trail.events ++ reply.2 }) := rfl

theorem after_attempt (act : Act ε α) (trail : Trail) :
    after (attempt act : Act ε' (Except ε α)) trail =
      (.ok (act.after trail).1, (act.after trail).2) := rfl

theorem after_mapError (change : ε → ε') (act : Act ε α) (trail : Trail) :
    after (mapError change act) trail =
      ((act.after trail).1.mapError change, (act.after trail).2) := rfl

theorem after_bind (act : Act ε α) (next : α → Act ε β) (trail : Trail) :
    after (act >>= next) trail =
      match act.after trail with
      | (.ok value, trail) => after (next value) trail
      | (.error error, trail) => (.error error, trail) := by
  simp only [after, bind, ExceptT.bind, ExceptT.mk, ExceptT.run, StateT.run, StateT.bind]
  cases act trail with
  | mk result trail => cases result <;> rfl

theorem ofExcept_ok_bind (value : α) (next : α → Act ε β) :
    (ofExcept (.ok value) >>= next) = next value := rfl

/-! Programs that succeed. -/

theorem bind_ok {act : Act ε α} {next : α → Act ε β} {first last : Trail} {result : β} :
    after (act >>= next) first = (.ok result, last) ↔
      ∃ value middle, act.after first = (.ok value, middle) ∧
        after (next value) middle = (.ok result, last) := by
  rw [after_bind]
  constructor
  · intro succeeded
    cases step : act.after first with
    | mk answer middle =>
        cases answer with
        | error error => simp [step] at succeeded
        -- Only a first step that answers lets the second one answer.
        | ok value => exact ⟨value, middle, rfl, by simpa [step] using succeeded⟩
  · rintro ⟨value, middle, step, rest⟩
    simpa [step] using rest

theorem pure_ok {value result : α} {first last : Trail} :
    after (pure value : Act ε α) first = (.ok result, last) ↔ result = value ∧ last = first := by
  simp [after_pure, eq_comm]

theorem fail_ok {error : ε} {result : α} {first last : Trail} :
    after (fail error : Act ε α) first = (.ok result, last) ↔ False := by
  simp [after_fail]

theorem ofExcept_ok {answer : Except ε α} {result : α} {first last : Trail} :
    after (ofExcept answer) first = (.ok result, last) ↔
      answer = .ok result ∧ last = first := by
  simp [after_ofExcept, eq_comm]

theorem mapError_ok {change : ε → ε'} {act : Act ε α} {result : α} {first last : Trail} :
    after (mapError change act) first = (.ok result, last) ↔
      act.after first = (.ok result, last) := by
  rw [after_mapError]
  cases act.after first with
  | mk answer middle => cases answer <;> simp

/-- An attempt at a reply succeeds with whatever the reply is. -/
theorem attempt_ofReply_ok {reply : Reply ε α} {result : Except ε α} {first last : Trail} :
    after (attempt (ofReply reply) : Act ε' (Except ε α)) first = (.ok result, last) ↔
      result = reply.1 ∧ last = { first with events := first.events ++ reply.2 } := by
  simp [after_attempt, after_ofReply, eq_comm]

theorem getIndexes_ok {store : IndexStore} {first last : Trail} :
    (getIndexes : Act ε IndexStore).after first = (.ok store, last) ↔
      store = first.indexes ∧ last = first := by
  have run : (getIndexes : Act ε IndexStore).after first = (.ok first.indexes, first) := rfl
  rw [run]
  constructor
  · intro same
    obtain ⟨value_eq, trail_eq⟩ := Prod.mk.inj same
    exact ⟨(Except.ok.inj value_eq).symm, trail_eq.symm⟩
  · rintro ⟨rfl, rfl⟩
    rfl

theorem setIndexes_ok {store : IndexStore} {first last : Trail} :
    (setIndexes store : Act ε Unit).after first = (.ok (), last) ↔
      last = { first with indexes := store } := by
  have run : (setIndexes store : Act ε Unit).after first =
      (.ok (), { first with indexes := store }) := rfl
  rw [run]
  constructor
  · exact fun same => (Prod.mk.inj same).2.symm
  · rintro rfl
    rfl

/-! Programs that only read. -/

theorem answers_pure (value : α) : Answers (pure value : Act ε α) (.ok value) :=
  fun _ => ⟨rfl, rfl⟩

theorem answers_fail (error : ε) : Answers (fail error : Act ε α) (.error error) :=
  fun _ => ⟨rfl, rfl⟩

theorem answers_ofExcept {result answer : Except ε α} (known : result = answer) :
    Answers (ofExcept result) answer := by
  intro trail
  rw [after_ofExcept, known]
  exact ⟨rfl, rfl⟩

theorem answers_ofReply (reply : Reply ε α) : Answers (ofReply reply) reply.1 :=
  fun _ => ⟨rfl, rfl⟩

theorem answers_attempt (ε' : Type) {act : Act ε α} {answer : Except ε α}
    (known : Answers act answer) : Answers (attempt act : Act ε' (Except ε α)) (.ok answer) := by
  intro trail
  obtain ⟨same, indexes⟩ := known trail
  rw [after_attempt, same]
  exact ⟨rfl, indexes⟩

theorem answers_mapError {act : Act ε α} {answer : Except ε α} (change : ε → ε')
    (known : Answers act answer) : Answers (mapError change act) (answer.mapError change) := by
  intro trail
  obtain ⟨same, indexes⟩ := known trail
  rw [after_mapError, same]
  exact ⟨rfl, indexes⟩

theorem answers_bind {act : Act ε α} {next : α → Act ε β} {value : α} {answer : Except ε β}
    (first : Answers act (.ok value)) (rest : Answers (next value) answer) :
    Answers (act >>= next) answer := by
  intro trail
  rw [after_bind]
  obtain ⟨same, indexes⟩ := first trail
  cases outcome : act.after trail with
  | mk result middle =>
      rw [outcome] at same indexes
      subst same
      obtain ⟨answered, kept⟩ := rest middle
      exact ⟨answered, kept.trans indexes⟩

theorem answers_bind_error {act : Act ε α} {next : α → Act ε β} {error : ε}
    (first : Answers act (.error error)) : Answers (act >>= next) (.error error) := by
  intro trail
  rw [after_bind]
  obtain ⟨same, indexes⟩ := first trail
  cases outcome : act.after trail with
  | mk result middle =>
      rw [outcome] at same indexes
      subst same
      exact ⟨rfl, indexes⟩

/-- The answer of a program that only reads is the one that a run shows. -/
theorem answer_of_ok {act : Act ε α} {answer : Except ε α} {value : α} {first last : Trail}
    (known : Answers act answer) (run : act.after first = (.ok value, last)) :
    answer = .ok value := by
  rw [← (known first).1, run]

/-- A program that only reads, whatever it answers. -/
def Reads (act : Act ε α) : Prop := ∃ answer, Answers act answer

theorem reads_pure (value : α) : Reads (pure value : Act ε α) := ⟨_, answers_pure value⟩

theorem reads_fail (error : ε) : Reads (fail error : Act ε α) := ⟨_, answers_fail error⟩

theorem reads_ofExcept (result : Except ε α) : Reads (ofExcept result) :=
  ⟨_, answers_ofExcept rfl⟩

theorem reads_ofReply (reply : Reply ε α) : Reads (ofReply reply) := ⟨_, answers_ofReply reply⟩

theorem reads_attempt {act : Act ε α} (reads : Reads act) :
    Reads (attempt act : Act ε' (Except ε α)) := by
  obtain ⟨_, known⟩ := reads
  exact ⟨_, answers_attempt ε' known⟩

theorem reads_mapError {act : Act ε α} (change : ε → ε') (reads : Reads act) :
    Reads (mapError change act) := by
  obtain ⟨_, known⟩ := reads
  exact ⟨_, answers_mapError change known⟩

theorem reads_bind {act : Act ε α} {next : α → Act ε β} (first : Reads act)
    (rest : ∀ value, Reads (next value)) : Reads (act >>= next) := by
  obtain ⟨answer, known⟩ := first
  cases answer with
  | error error => exact ⟨_, answers_bind_error known⟩
  | ok value =>
      obtain ⟨answer, later⟩ := rest value
      exact ⟨answer, answers_bind known later⟩

/-! Programs that agree. -/

/-- Two programs that answer alike, and store alike, from the same store. What
they ask may differ. -/
def Agree (act act' : Act ε α) : Prop :=
  ∀ trail trail', trail.indexes = trail'.indexes →
    (act.after trail).1 = (act'.after trail').1 ∧
      (act.after trail).2.indexes = (act'.after trail').2.indexes

theorem agree_pure (value : α) : Agree (pure value : Act ε α) (pure value) :=
  fun _ _ stored => ⟨rfl, stored⟩

theorem agree_fail (error : ε) : Agree (fail error : Act ε α) (fail error) :=
  fun _ _ stored => ⟨rfl, stored⟩

theorem agree_ofExcept (result : Except ε α) : Agree (ofExcept result) (ofExcept result) :=
  fun _ _ stored => ⟨rfl, stored⟩

theorem agree_ofReply {reply reply' : Reply ε α} (same : reply.1 = reply'.1) :
    Agree (ofReply reply) (ofReply reply') :=
  fun _ _ stored => ⟨same, stored⟩

theorem agree_getIndexes : Agree (getIndexes : Act ε IndexStore) getIndexes := by
  intro trail trail' stored
  have before : (getIndexes : Act ε IndexStore).after trail = (.ok trail.indexes, trail) := rfl
  have before' : (getIndexes : Act ε IndexStore).after trail' = (.ok trail'.indexes, trail') := rfl
  rw [before, before', stored]
  exact ⟨rfl, rfl⟩

theorem agree_setIndexes (indexes : IndexStore) :
    Agree (setIndexes indexes : Act ε Unit) (setIndexes indexes) :=
  fun _ _ _ => ⟨rfl, rfl⟩

theorem agree_attempt (ε' : Type) {act act' : Act ε α} (agree : Agree act act') :
    Agree (attempt act : Act ε' (Except ε α)) (attempt act') := by
  intro trail trail' stored
  obtain ⟨same, kept⟩ := agree trail trail' stored
  rw [after_attempt, after_attempt, same]
  exact ⟨rfl, kept⟩

theorem agree_mapError {act act' : Act ε α} (change : ε → ε') (agree : Agree act act') :
    Agree (mapError change act) (mapError change act') := by
  intro trail trail' stored
  obtain ⟨same, kept⟩ := agree trail trail' stored
  rw [after_mapError, after_mapError, same]
  exact ⟨rfl, kept⟩

/-- What is done next has to agree on values that the first program can answer
with. -/
theorem agree_bind_ok {act act' : Act ε α} {next next' : α → Act ε β} (first : Agree act act')
    (rest : ∀ value before after, act.after before = (.ok value, after) →
      Agree (next value) (next' value)) :
    Agree (act >>= next) (act' >>= next') := by
  intro trail trail' stored
  obtain ⟨same, kept⟩ := first trail trail' stored
  rw [after_bind, after_bind]
  cases outcome : act.after trail with
  | mk result middle =>
      cases outcome' : act'.after trail' with
      | mk result' middle' =>
          rw [outcome, outcome'] at same kept
          subst same
          cases result with
          | error error => exact ⟨rfl, kept⟩
          -- Both go on with one value, from trails that store the same.
          | ok value => exact rest value trail middle outcome middle middle' kept

theorem agree_bind {act act' : Act ε α} {next next' : α → Act ε β} (first : Agree act act')
    (rest : ∀ value, Agree (next value) (next' value)) :
    Agree (act >>= next) (act' >>= next') :=
  agree_bind_ok first fun value _ _ _ => rest value

theorem agree_foldlM {step step' : β → α → Act ε β}
    (each : ∀ done item, Agree (step done item) (step' done item)) (items : List α) (start : β) :
    Agree (items.foldlM step start) (items.foldlM step' start) := by
  induction items generalizing start with
  | nil => exact agree_pure start
  | cons item rest ih =>
      rw [List.foldlM_cons, List.foldlM_cons]
      exact agree_bind (each start item) ih

/-- What one of two programs that agree comes to, the other comes to as well. -/
theorem Agree.ok {act act' : Act ε α} (agree : Agree act act') {first first' last : Trail}
    {value : α} (stored : first.indexes = first'.indexes)
    (run : act.after first = (.ok value, last)) :
    ∃ last', act'.after first' = (.ok value, last') ∧ last.indexes = last'.indexes := by
  obtain ⟨same, kept⟩ := agree first first' stored
  rw [run] at same kept
  exact ⟨(act'.after first').2, Prod.ext same.symm rfl, kept⟩

/-- A program that agrees with one that only reads only reads as well. -/
theorem Agree.answers {act act' : Act ε α} {answer : Except ε α} (agree : Agree act act')
    (known : Answers act answer) : Answers act' answer := by
  intro trail
  obtain ⟨same, kept⟩ := agree trail trail rfl
  obtain ⟨answered, unchanged⟩ := known trail
  exact ⟨same.symm.trans answered, kept.symm.trans unchanged⟩

end ImageLock.Act
