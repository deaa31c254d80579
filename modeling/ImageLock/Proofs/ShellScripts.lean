/-
Scripts of a shell, taken apart.

A script is read one character after the other into commands of words and redirections. What is
quoted counts for itself. Expansions, patterns, pipes and groups are more than words, and a script
with one of them is not read.

Every character makes what was read longer by one at most, and one that quotes does not. So a
script of words that says no less than it is long has nothing quoted in it.
-/
import ImageLock.Proofs.Pieces

namespace ImageLock.Shell

/-! Reading. -/

/-- Where the output of a descriptor goes: to a file, or where that of another one goes. -/
inductive Direction where
  | file
  | copy
deriving DecidableEq, Repr

/-- A redirection; the descriptor is empty if none is written. -/
structure Redirection where
  descriptor : String
  direction : Direction
  target : String
deriving DecidableEq, Repr

structure Command where
  words : List String
  redirections : List Redirection
deriving DecidableEq, Repr

namespace Command

def empty : Command := ⟨[], []⟩

def withWord (command : Command) (word : String) : Command :=
  { command with words := command.words ++ [word] }

def withRedirection (command : Command) (redirection : Redirection) : Command :=
  { command with redirections := command.redirections ++ [redirection] }

end Command

/-- What a character is for the shell where nothing is quoted. -/
inductive Role where
  | blank
  | feed
  | separator
  | redirection
  | singleQuote
  | doubleQuote
  | escape
  | unread
  | plain
deriving DecidableEq, Repr

def role (c : Char) : Role :=
  if c = ' ' ∨ c = '\t' then .blank
  else if c = '\n' then .feed
  else if c = ';' then .separator
  else if c = '>' then .redirection
  else if c = '\'' then .singleQuote
  else if c = '"' then .doubleQuote
  else if c = '\\' then .escape
  else if "|&()<$\x60*?[".toList.contains c then .unread
  else .plain

inductive Mode where
  | bare
  | escaped
  | single
  | double
  | doubleEscaped
  | comment
  | redirecting
deriving DecidableEq, Repr

/-- What was read: whole commands, the one that is being read, and its last word or redirection as
far as it goes. -/
structure Reader where
  mode : Mode
  word : Option (List Char)
  quoted : Bool
  awaited : Option (String × Direction)
  command : Command
  commands : List Command
deriving DecidableEq, Repr

namespace Reader

/-- Behind some words of a command. -/
def between (commands : List Command) (words : List String) : Reader :=
  ⟨.bare, none, false, none, ⟨words, []⟩, commands⟩

def start : Reader := between [] []

def add (r : Reader) (text : List Char) : Reader :=
  { r with word := some (r.word.getD [] ++ text) }

/-- A word that ends is the target of a redirection that waits for one. -/
def endWord (r : Reader) : Reader :=
  match r.word, r.awaited with
  | none, _ => r
  | some text, none =>
      { r with word := none, quoted := false, command := r.command.withWord (String.ofList text) }
  | some text, some (descriptor, direction) =>
      { r with
        word := none, quoted := false, awaited := none
        command := r.command.withRedirection ⟨descriptor, direction, String.ofList text⟩ }

/-- There must be a command to end, and its redirections must have targets. -/
def endCommand (r : Reader) : Option Reader :=
  let r := r.endWord
  if r.awaited.isSome ∨ r.command = .empty then none
  else some { r with mode := .bare, command := .empty, commands := r.commands ++ [r.command] }

/-- A line may be empty. -/
def endLine (r : Reader) : Option Reader :=
  if r.word.isNone ∧ r.awaited.isNone ∧ r.command = .empty then some { r with mode := .bare }
  else r.endCommand

/-- Waits for the target of a redirection. -/
def await (r : Reader) (descriptor : String) : Option Reader :=
  if r.awaited.isSome then none
  else some { r with mode := .redirecting, awaited := some (descriptor, .file) }

/-- Digits right in front of a redirection are its descriptor. -/
def redirect (r : Reader) : Option Reader :=
  match r.word.filter fun text => !r.quoted && text.all Text.isDigit with
  | some digits => { r with word := none }.await (String.ofList digits)
  | none => r.endWord.await ""

/-- A comment or a home directory can only begin where a word does. -/
def stepBare (r : Reader) (c : Char) : Option Reader :=
  match role c with
  | .blank => some r.endWord
  | .feed => r.endLine
  | .separator => r.endCommand
  | .redirection => r.redirect
  | .singleQuote => some { r.add [] with mode := .single, quoted := true }
  | .doubleQuote => some { r.add [] with mode := .double, quoted := true }
  | .escape => some { r with mode := .escaped }
  | .unread => none
  | .plain =>
      if r.word.isSome then some (r.add [c])
      else if c = '#' then some { r with mode := .comment }
      else if c = '~' then none
      else some (r.add [c])

def step (r : Reader) (c : Char) : Option Reader :=
  match r.mode with
  | .bare => r.stepBare c
  | .redirecting =>
      if c = '&' then
        some { r with mode := .bare, awaited := r.awaited.map fun (descriptor, _) => (descriptor, .copy) }
      else { r with mode := .bare }.stepBare c
  | .escaped =>
      if c = '\n' then some { r with mode := .bare }
      else some { r.add [c] with mode := .bare, quoted := true }
  | .single => if c = '\'' then some { r with mode := .bare } else some (r.add [c])
  | .double =>
      if c = '"' then some { r with mode := .bare }
      else if c = '\\' then some { r with mode := .doubleEscaped }
      else if c = '$' ∨ c = '\x60' then none
      else some (r.add [c])
  | .doubleEscaped =>
      if c = '\n' then some { r with mode := .double }
      else if "$\x60\"\\".toList.contains c then some { r.add [c] with mode := .double }
      else some { r.add ['\\', c] with mode := .double }
  | .comment => if c = '\n' then r.endLine else some r

/-- A last command need not be ended. -/
def finish (r : Reader) : Option (List Command) :=
  if r.mode ∈ [.escaped, .single, .double, .doubleEscaped] then none
  else
    let r := r.endWord
    if r.awaited.isSome then none
    else some (r.commands ++ if r.command = .empty then [] else [r.command])

end Reader

def read? (script : String) : Option (List Command) :=
  (script.toList.foldlM Reader.step Reader.start).bind Reader.finish

/-- A text that is a word of its own as it stands. -/
structure IsBare (text : List Char) : Prop where
  filled : text ≠ []
  plain : ∀ c ∈ text, role c = .plain
  opens : text.head? ≠ some '#' ∧ text.head? ≠ some '~'

/-! Lengths. -/

/-- Words with a blank behind each. -/
def spaced (words : List String) : List Char := words.flatMap fun word => word.toList ++ [' ']

theorem spaced_append (words more : List String) : spaced (words ++ more) =
    spaced words ++ spaced more :=
  List.flatMap_append

theorem length_spaced_cons (word : String) (words : List String) :
    (spaced (word :: words)).length = word.toList.length + 1 + (spaced words).length := by
  rw [spaced, List.flatMap_cons, List.length_append, List.length_append]
  rfl

theorem length_join {names : List String} (any : names ≠ []) :
    (Text.join " " names).toList.length + 1 = (spaced names).length := by
  induction names with
  | nil => exact absurd rfl any
  | cons name rest ih =>
      rw [length_spaced_cons]
      by_cases single : rest = []
      · subst single
        rfl
      · have later := ih single
        have blank : " ".toList.length = 1 := rfl
        rw [Text.toList_join_cons " " name single, List.length_append, List.length_append, blank]
        omega

namespace Command

def weight (command : Command) : Nat := (spaced command.words).length

theorem weight_withWord (command : Command) (text : List Char) :
    (command.withWord (String.ofList text)).weight = command.weight + (text.length + 1) := by
  rw [weight, withWord, spaced_append, List.length_append, length_spaced_cons,
    String.toList_ofList]
  rfl

theorem weight_withRedirection (command : Command) (redirection : Redirection) :
    (command.withRedirection redirection).weight = command.weight := rfl

theorem weight_pos {command : Command} (any : command.words ≠ []) : 0 < command.weight := by
  obtain ⟨first, others, same⟩ := List.exists_cons_of_ne_nil any
  rw [weight, same, length_spaced_cons]
  omega

end Command

/-- Commands without the blank behind the last word of each. -/
def endedWeight (commands : List Command) : Nat :=
  (commands.flatMap fun command => (spaced command.words).tail).length

theorem endedWeight_concat (commands : List Command) (last : Command) :
    endedWeight (commands ++ [last]) = endedWeight commands + (last.weight - 1) := by
  rw [endedWeight, List.flatMap_append, List.length_append, List.flatMap_singleton,
    List.length_tail]
  rfl

/-- The escape inside double quotes may yet count as a character. -/
def Mode.weight : Mode → Nat
  | .doubleEscaped => 1
  | _ => 0

namespace Reader

variable {r r' : Reader} {c : Char}

/-- What was read so far. A redirection that waits for its target counts less than none. -/
def weight (r : Reader) : Nat :=
  endedWeight r.commands + r.command.weight +
    (if r.awaited.isSome then 0 else (r.word.getD []).length + 1) + r.mode.weight

theorem weight_add (r : Reader) (text : List Char) :
    (r.add text).weight ≤ r.weight + text.length := by
  unfold weight add
  split
  · simp
  · simp
    omega

theorem weight_endWord (r : Reader) : r.endWord.weight ≤ r.weight + 1 := by
  obtain ⟨mode, word, quoted, awaited, command, commands⟩ := r
  cases word with
  | none => exact Nat.le_succ _
  | some text =>
      cases awaited with
      | none =>
          simp [weight, endWord, Command.weight_withWord]
          omega
      | some waiting =>
          simp [weight, endWord, Command.weight_withRedirection]
          omega

theorem weight_mode (r : Reader) {mode : Mode} (light : mode.weight = 0) :
    { r with mode }.weight ≤ r.weight := by
  simp only [weight, light]
  omega

theorem weight_quote (r : Reader) {mode : Mode} (light : mode.weight = 0) :
    { r.add [] with mode, quoted := true }.weight ≤ r.weight :=
  Nat.le_trans (weight_mode { r.add [] with quoted := true } light) (weight_add r [])

theorem weight_endCommand (ended : r.endCommand = some r') :
    r'.weight + min r.endWord.command.weight 1 ≤ r.endWord.weight := by
  simp only [endCommand] at ended
  split at ended
  · cases ended
  · obtain rfl := Option.some.inj ended
    have none : Command.empty.weight = 0 := rfl
    simp only [weight, endedWeight_concat, none, Mode.weight]
    omega

theorem weight_endLine (ended : r.endLine = some r') : r'.weight ≤ r.weight + 1 := by
  unfold endLine at ended
  split at ended
  · obtain rfl := Option.some.inj ended
    exact Nat.le_succ_of_le (weight_mode r rfl)
  · have left := weight_endCommand ended
    have word := weight_endWord r
    omega

theorem weight_await {descriptor : String} (waits : r.await descriptor = some r') :
    r'.weight + 1 ≤ r.weight := by
  unfold await at waits
  split at waits
  · cases waits
  · next waiting =>
      obtain rfl := Option.some.inj waits
      simp only [weight, if_neg waiting, Option.isSome_some, if_true, Mode.weight]
      omega

/-- What waits for a target takes back what its word has counted. -/
theorem weight_redirect (redirected : r.redirect = some r') : r'.weight ≤ r.weight := by
  unfold redirect at redirected
  split at redirected
  · have waits := weight_await redirected
    have dropped : { r with word := none }.weight ≤ r.weight := by
      simp only [weight]
      split <;> simp
    omega
  · have waits := weight_await redirected
    have word := weight_endWord r
    omega

theorem weight_stepBare (stepped : r.stepBare c = some r') : r'.weight ≤ r.weight + 1 := by
  have added := weight_add r [c]
  cases kind : role c <;> simp only [stepBare, kind] at stepped
  case blank =>
    obtain rfl := Option.some.inj stepped
    exact weight_endWord r
  case feed => exact weight_endLine stepped
  case separator =>
    have left := weight_endCommand stepped
    have word := weight_endWord r
    omega
  case redirection => exact Nat.le_succ_of_le (weight_redirect stepped)
  case singleQuote =>
    obtain rfl := Option.some.inj stepped
    exact Nat.le_succ_of_le (weight_quote r rfl)
  case doubleQuote =>
    obtain rfl := Option.some.inj stepped
    exact Nat.le_succ_of_le (weight_quote r rfl)
  case escape =>
    obtain rfl := Option.some.inj stepped
    exact Nat.le_succ_of_le (weight_mode r rfl)
  case unread => cases stepped
  case plain =>
    split at stepped
    · obtain rfl := Option.some.inj stepped
      exact added
    · split at stepped
      · obtain rfl := Option.some.inj stepped
        exact Nat.le_succ_of_le (weight_mode r rfl)
      · split at stepped
        · cases stepped
        · obtain rfl := Option.some.inj stepped
          exact added

/-- A character makes it longer by one at most. -/
theorem weight_step (stepped : r.step c = some r') : r'.weight ≤ r.weight + 1 := by
  have added := weight_add r [c]
  have bare : { r with mode := .bare }.weight ≤ r.weight := weight_mode r rfl
  cases mode : r.mode <;> simp only [step, mode] at stepped
  case bare => exact weight_stepBare stepped
  case redirecting =>
    split at stepped
    · obtain rfl := Option.some.inj stepped
      refine Nat.le_succ_of_le (Nat.le_trans (Nat.le_of_eq ?_) bare)
      simp only [weight, Option.isSome_map]
    · exact Nat.le_trans (weight_stepBare stepped) (Nat.succ_le_succ bare)
  case escaped =>
    split at stepped
    · obtain rfl := Option.some.inj stepped
      exact Nat.le_succ_of_le bare
    · obtain rfl := Option.some.inj stepped
      exact Nat.le_trans (weight_mode _ rfl) added
  case single =>
    split at stepped
    · obtain rfl := Option.some.inj stepped
      exact Nat.le_succ_of_le bare
    · obtain rfl := Option.some.inj stepped
      exact added
  case double =>
    split at stepped
    · obtain rfl := Option.some.inj stepped
      exact Nat.le_succ_of_le bare
    · split at stepped
      · obtain rfl := Option.some.inj stepped
        simp [weight, mode, Mode.weight]
      · split at stepped
        · cases stepped
        · obtain rfl := Option.some.inj stepped
          exact added
  case doubleEscaped =>
    -- The escape has counted one already, so there may be two characters more.
    have left (text : List Char) :
        { r.add text with mode := .double }.weight + 1 ≤ r.weight + text.length := by
      have longer := weight_add r text
      simp [weight, add, mode, Mode.weight] at longer ⊢
      omega
    split at stepped
    · obtain rfl := Option.some.inj stepped
      exact Nat.le_succ_of_le (weight_mode r rfl)
    · split at stepped
      · obtain rfl := Option.some.inj stepped
        exact Nat.le_of_lt_succ (Nat.lt_succ_of_lt (left [c]))
      · obtain rfl := Option.some.inj stepped
        exact Nat.le_of_succ_le_succ (left ['\\', c])
  case comment =>
    split at stepped
    · exact weight_endLine stepped
    · obtain rfl := Option.some.inj stepped
      exact Nat.le_succ _

/-- A text makes it longer by as many characters as it has at most. -/
theorem weight_run {text : List Char} (run : text.foldlM step r = some r') :
    r'.weight ≤ r.weight + text.length := by
  induction text generalizing r with
  | nil => exact Nat.le_of_eq (congrArg weight (Option.some.inj run).symm)
  | cons c text ih =>
      obtain ⟨middle, stepped, rest⟩ := Option.bind_eq_some_iff.mp run
      have first := weight_step stepped
      have later := ih rest
      rw [List.length_cons]
      omega

end Reader

/-! Bare words. -/

namespace IsBare

theorem single {c : Char} (plain : role c = .plain) (opens : c ≠ '#' ∧ c ≠ '~') : IsBare [c] :=
  ⟨List.cons_ne_nil c [], by simpa using plain, by simpa using opens⟩

theorem concat {text : List Char} (bare : IsBare text) {c : Char} (plain : role c = .plain) :
    IsBare (text ++ [c]) := by
  obtain ⟨d, rest, rfl⟩ := List.exists_cons_of_ne_nil bare.filled
  refine ⟨List.cons_ne_nil _ _, fun e member => ?_, bare.opens⟩
  rcases List.mem_append.mp member with inside | last
  · exact bare.plain e inside
  · rwa [List.mem_singleton.mp last]

end IsBare

namespace Reader

/-- Bare words so far, behind what a command begins with. -/
structure Continues (commands : List Command) (words : List String) (r : Reader) : Prop where
  mode : r.mode = .bare
  awaited : r.awaited = none
  commands : r.commands = commands
  command : ∃ names, r.command = ⟨words ++ names, []⟩ ∧ ∀ name ∈ names, IsBare name.toList
  word : ∀ text, r.word = some text → IsBare text

variable {r r' : Reader} {c : Char} {commands : List Command} {words : List String}

theorem Continues.present (continues : r.Continues commands words) (any : words ≠ []) :
    r.command ≠ .empty := by
  obtain ⟨names, command, -⟩ := continues.command
  rw [command]
  exact fun none => any (List.append_eq_nil_iff.mp (congrArg Command.words none)).1

theorem Continues.endWord (continues : r.Continues commands words) :
    r.endWord.Continues commands words := by
  obtain ⟨names, command, bare⟩ := continues.command
  unfold Reader.endWord
  split
  · exact continues
  · next text ended _ =>
      refine ⟨continues.mode, continues.awaited, continues.commands,
        ⟨names ++ [String.ofList text], ?_, fun name member => ?_⟩, nofun⟩
      · simp [Command.withWord, command]
      · rcases List.mem_append.mp member with inside | last
        · exact bare name inside
        · rw [List.mem_singleton.mp last, String.toList_ofList]
          exact continues.word text ended
  · next waiting => cases continues.awaited.symm.trans waiting

theorem Continues.weight_endCommand (continues : r.Continues commands words) (any : words ≠ [])
    (ended : r.endCommand = some r') : r'.weight ≤ r.weight := by
  obtain ⟨names, command, -⟩ := continues.endWord.command
  have counts : 0 < r.endWord.command.weight := by
    rw [command]
    exact Command.weight_pos (List.append_ne_nil_of_left_ne_nil any names)
  have left := Reader.weight_endCommand ended
  have word := weight_endWord r
  omega

/-- A character that makes it longer goes on with a bare word or ends one. -/
theorem Continues.step (continues : r.Continues commands words) (any : words ≠ [])
    (stepped : r.step c = some r') (longer : r.weight + 1 ≤ r'.weight) :
    r'.Continues commands words := by
  have grows {next : Reader} (lighter : next.weight ≤ r.weight) (same : next = r') : False := by
    subst same
    omega
  have ends (ended : r.endCommand = some r') : False :=
    grows (continues.weight_endCommand any ended) rfl
  rw [Reader.step, continues.mode] at stepped
  cases kind : role c <;> simp only [stepBare, kind] at stepped
  case blank =>
    obtain rfl := Option.some.inj stepped
    exact continues.endWord
  -- All that follows but a plain character leaves it no longer than it was.
  case feed =>
    rw [endLine, if_neg fun none => continues.present any none.2.2] at stepped
    exact (ends stepped).elim
  case separator => exact (ends stepped).elim
  case redirection => exact (grows (weight_redirect stepped) rfl).elim
  case singleQuote => exact (grows (weight_quote r rfl) (Option.some.inj stepped)).elim
  case doubleQuote => exact (grows (weight_quote r rfl) (Option.some.inj stepped)).elim
  case escape => exact (grows (weight_mode r rfl) (Option.some.inj stepped)).elim
  case unread => cases stepped
  case plain =>
    have goesOn (bare : IsBare (r.word.getD [] ++ [c])) : (r.add [c]).Continues commands words :=
      ⟨continues.mode, continues.awaited, continues.commands, continues.command,
        fun text same => Option.some.inj same ▸ bare⟩
    split at stepped
    · next begun =>
        obtain ⟨text, word⟩ := Option.isSome_iff_exists.mp begun
        obtain rfl := Option.some.inj stepped
        exact goesOn (word ▸ (continues.word text word).concat kind)
    · next fresh =>
        have none : r.word = none := by simpa using fresh
        split at stepped
        · exact (grows (weight_mode r rfl) (Option.some.inj stepped)).elim
        · next noComment =>
            split at stepped
            · cases stepped
            · next noHome =>
                obtain rfl := Option.some.inj stepped
                exact goesOn (none ▸ .single kind ⟨noComment, noHome⟩)

theorem Continues.run (continues : r.Continues commands words) (any : words ≠ [])
    {text : List Char} (run : text.foldlM Reader.step r = some r')
    (longer : r.weight + text.length ≤ r'.weight) : r'.Continues commands words := by
  induction text generalizing r with
  | nil => exact Option.some.inj run ▸ continues
  | cons c text ih =>
      obtain ⟨middle, stepped, rest⟩ := Option.bind_eq_some_iff.mp run
      have first := weight_step stepped
      have later := weight_run rest
      rw [List.length_cons] at longer
      exact ih (continues.step any stepped (by omega)) rest (by omega)

theorem word_endWord (r : Reader) : r.endWord.word = none := by
  unfold Reader.endWord
  split
  · assumption
  · rfl
  · rfl

theorem finish_eq (whole : r.mode ∉ [.escaped, .single, .double, .doubleEscaped])
    (complete : r.endWord.awaited = none) (present : r.endWord.command ≠ .empty) :
    r.finish = some (r.endWord.commands ++ [r.endWord.command]) := by
  simp only [Reader.finish, if_neg whole, complete, Option.isSome_none, Bool.false_eq_true,
    if_false, if_neg present]

/-- Where no command is left, no word was. -/
theorem endWord_of_empty (idle : r.endWord.command = .empty) : r.endWord = r := by
  unfold Reader.endWord at idle ⊢
  split at idle
  · rfl
  · exact absurd (congrArg Command.words idle) (by simp [Command.withWord, Command.empty])
  · exact absurd (congrArg Command.redirections idle)
      (by simp [Command.withRedirection, Command.empty])

/-- What was read has at least what there is in the end. -/
theorem weight_finish {last : Command} (any : last.words ≠ [])
    (finished : r.finish = some (commands ++ [last])) :
    endedWeight commands + last.weight ≤ r.weight := by
  have word := weight_endWord r
  have counts := Command.weight_pos any
  simp only [Reader.finish] at finished
  split at finished
  · cases finished
  · split at finished
    · cases finished
    · next complete =>
        have read := Option.some.inj finished
        split at read
        · next idle =>
            rw [List.append_nil, endWord_of_empty idle] at read
            rw [endWord_of_empty idle] at complete
            rw [weight, read, if_neg complete, endedWeight_concat]
            omega
        · obtain ⟨rfl, same⟩ := List.append_inj' read rfl
          obtain rfl := List.singleton_inj.mp same
          rw [weight, if_neg complete, word_endWord] at word
          simp only [Option.getD_none, List.length_nil] at word
          omega

/-- What bare words were read comes last. -/
theorem Continues.finish (continues : r.Continues commands words) (any : words ≠ []) :
    ∃ names, r.finish = some (commands ++ [⟨words ++ names, []⟩]) ∧
      ∀ name ∈ names, IsBare name.toList := by
  obtain ⟨names, command, bare⟩ := continues.endWord.command
  refine ⟨names, ?_, bare⟩
  have read := Reader.finish_eq (r := r) (by simp [continues.mode]) continues.endWord.awaited
    (continues.endWord.present any)
  rw [read, continues.endWord.commands, command]

/-! Words that are there. -/

theorem step_plain (mode : r.mode = .bare) (plain : role c = .plain)
    (opens : r.word = none → c ≠ '#' ∧ c ≠ '~') : r.step c = some (r.add [c]) := by
  simp only [Reader.step, mode, stepBare, plain]
  cases word : r.word with
  | some text => rfl
  | none => simp [opens word]

theorem run_plain {front text : List Char} (plain : ∀ c ∈ text, role c = .plain)
    (mode : r.mode = .bare) (begun : r.word = some front) :
    text.foldlM Reader.step r = some { r with word := some (front ++ text) } := by
  induction text generalizing r front with
  | nil =>
      rw [List.append_nil, ← begun]
      rfl
  | cons c text ih =>
      obtain ⟨first, later⟩ := List.forall_mem_cons.mp plain
      have stepped := step_plain mode first fun none => by cases begun.symm.trans none
      have added : (r.add [c]).word = some (front ++ [c]) := by rw [add, begun, Option.getD_some]
      rw [List.foldlM_cons, stepped]
      refine (ih later (r := r.add [c]) mode added).trans ?_
      rw [List.append_assoc]
      rfl

theorem run_bare {text : List Char} (bare : IsBare text) (mode : r.mode = .bare)
    (fresh : r.word = none) : text.foldlM Reader.step r = some { r with word := some text } := by
  obtain ⟨filled, plain, opens⟩ := bare
  obtain ⟨c, text, rfl⟩ := List.exists_cons_of_ne_nil filled
  obtain ⟨first, later⟩ := List.forall_mem_cons.mp plain
  have stepped := step_plain mode first fun _ => by simpa using opens
  have added : (r.add [c]).word = some [c] := by
    rw [add, fresh]
    rfl
  rw [List.foldlM_cons, stepped]
  exact run_plain later (r := r.add [c]) mode added

theorem finish_between (any : words ≠ []) :
    (between commands words).finish = some (commands ++ [⟨words, []⟩]) :=
  finish_eq (by simp [between]) rfl fun none => any (congrArg Command.words none)

theorem weight_between (commands : List Command) (words : List String) :
    (between commands words).weight =
      endedWeight commands + (spaced words).length + 1 := rfl

/-- A bare word is one more word, whether the command ends behind it or goes on. -/
theorem run_word (commands : List Command) (words : List String) {name : String}
    (bare : IsBare name.toList) :
    ∃ r, name.toList.foldlM Reader.step (between commands words) = some r ∧
      r.finish = (between commands (words ++ [name])).finish ∧
      r.step ' ' = some (between commands (words ++ [name])) := by
  have ended : { between commands words with word := some name.toList }.endWord =
      between commands (words ++ [name]) := by
    simp [Reader.endWord, between, Command.withWord]
  refine ⟨_, run_bare bare rfl rfl, ?_, congrArg some ended⟩
  simp only [Reader.finish, ended]
  rfl

/-- Bare words are read as they are. -/
theorem run_words {names : List String} (bare : ∀ name ∈ names, IsBare name.toList)
    (any : words ≠ []) :
    ((Text.join " " names).toList.foldlM Reader.step (between commands words)).bind
      Reader.finish = some (commands ++ [⟨words ++ names, []⟩]) := by
  induction names generalizing words with
  | nil =>
      rw [List.append_nil]
      exact finish_between any
  | cons name rest ih =>
      obtain ⟨first, later⟩ := List.forall_mem_cons.mp bare
      obtain ⟨r, read, last, blank⟩ := run_word commands words first
      have more : words ++ [name] ≠ [] := List.append_ne_nil_of_left_ne_nil any [name]
      by_cases single : rest = []
      · subst single
        rw [Text.join, read]
        exact last.trans (finish_between more)
      · rw [Text.toList_join_cons " " name single, List.foldlM_append, List.foldlM_append, read,
          List.append_cons]
        simpa [blank] using ih later more

end Reader

/-- Names behind the beginning of a command are read as its further words exactly if they are
bare. -/
theorem read?_words {lead : String} {commands : List Command} {words : List String}
    (leads : lead.toList.foldlM Reader.step Reader.start =
      some (.between commands words))
    (any : words ≠ []) (names : List String) :
    read? (lead ++ Text.join " " names) = some (commands ++ [⟨words ++ names, []⟩]) ↔
      ∀ name ∈ names, IsBare name.toList := by
  have reads : read? (lead ++ Text.join " " names) =
      ((Text.join " " names).toList.foldlM Reader.step (.between commands words)).bind
        Reader.finish := by
    rw [read?, String.toList_append, List.foldlM_append, leads]
    rfl
  rw [reads]
  refine ⟨fun read => ?_, fun bare => Reader.run_words bare any⟩
  by_cases none : names = []
  · simp [none]
  obtain ⟨r, run, finished⟩ := Option.bind_eq_some_iff.mp read
  have begun : Reader.Continues commands words (.between commands words) :=
    ⟨rfl, rfl, rfl, ⟨[], by simp [Reader.between]⟩, nofun⟩
  -- The words are as long as their text, so that nothing in it was for the shell.
  have whole := Reader.weight_finish (by simp [any]) finished
  have continues := begun.run any run (by
    have length := length_join none
    rw [Command.weight, spaced_append, List.length_append] at whole
    rw [Reader.weight_between]
    omega)
  obtain ⟨own, finish, bare⟩ := continues.finish any
  have same := Option.some.inj (finish.symm.trans finished)
  simp at same
  exact same ▸ bare

/-- Quotes in two names make one word of them. -/
example : read? ("id " ++ Text.join " " ["'a", "b'"]) = some [⟨["id", "a b"], []⟩] := by decide

end ImageLock.Shell
