/-
Scripts that look into a repository.

What comes from a context stands in them as quoted words. A quoted word is one word of the shell,
whatever it says, so the scripts are read as exactly the commands that are meant.
-/
import ImageLock.Proofs.LockPlace
import ImageLock.Proofs.ToolScripts
import Mathlib.Data.List.Forall2

namespace ImageLock

open Act

namespace Shell

/-! Quoted words. -/

theorem role_of_plain {c : Char} (plain : Text.isShellSpecial c = false) :
    role c = .plain ∧ c ≠ '#' ∧ c ≠ '~' := by
  simp [Text.isShellSpecial] at plain
  simp [role, plain]

/-- A text without special characters is a word as it stands. -/
theorem isBare_of_plain {text : List Char} (filled : text ≠ [])
    (plain : ∀ c ∈ text, Text.isShellSpecial c = false) : IsBare text := by
  obtain ⟨c, rest, rfl⟩ := List.exists_cons_of_ne_nil filled
  obtain ⟨-, noComment, noHome⟩ := role_of_plain (plain c List.mem_cons_self)
  exact ⟨filled, fun d member => (role_of_plain (plain d member)).1, by simpa using noComment,
    by simpa using noHome⟩

namespace Reader

variable {r : Reader} {commands : List Command} {words : List String}

/-- Between single quotes every character is written so that it comes to itself. -/
theorem run_shellQuote {front : List Char} (mode : r.mode = .single) (begun : r.word = some front)
    (quoted : r.quoted = true) (c : Char) :
    (Text.shellQuote c).foldlM Reader.step r = some { r with word := some (front ++ [c]) } := by
  obtain ⟨_, _, _, awaited, command, commands⟩ := r
  cases mode
  cases begun
  cases quoted
  by_cases quote : c = '\''
  · subst quote
    simp [Text.shellQuote, step, stepBare, role, add]
  · simp [Text.shellQuote, quote, step, add]

theorem run_quoted {front : List Char} (mode : r.mode = .single) (begun : r.word = some front)
    (quoted : r.quoted = true) (text : List Char) :
    (text.flatMap Text.shellQuote).foldlM Reader.step r =
      some { r with word := some (front ++ text) } := by
  induction text generalizing r front with
  | nil =>
      rw [List.append_nil, ← begun]
      rfl
  | cons c text ih =>
      rw [List.flatMap_cons, List.foldlM_append, run_shellQuote mode begun quoted]
      have later : (text.flatMap Text.shellQuote).foldlM Reader.step
          { r with word := some (front ++ [c]) } =
            some { r with word := some (front ++ [c] ++ text) } := ih mode rfl quoted
      rw [Option.bind_eq_bind, Option.bind_some, later, List.append_assoc]
      rfl

/-- The last of some words was just read, and something has to end it. -/
structure Ends (commands : List Command) (words : List String) (r : Reader) : Prop where
  mode : r.mode = .bare
  word : r.endWord = between commands words

namespace Ends

theorem step_blank (ends : r.Ends commands words) : r.step ' ' = some (between commands words) := by
  have stepped : r.step ' ' = some r.endWord := by
    rw [step, ends.mode]
    rfl
  rw [stepped, ends.word]

theorem step_separator (ends : r.Ends commands words) (any : words ≠ []) :
    r.step ';' = some (between (commands ++ [⟨words, []⟩]) []) := by
  have stepped : r.step ';' = r.endCommand := by
    rw [step, ends.mode]
    rfl
  have present : (⟨words, []⟩ : Command) ≠ .empty := fun none => any (congrArg Command.words none)
  rw [stepped, endCommand, ends.word]
  simp [between, Command.empty, any]

theorem finish (ends : r.Ends commands words) (any : words ≠ []) :
    r.finish = some (commands ++ [⟨words, []⟩]) := by
  have present : (between commands words).command ≠ .empty :=
    fun none => any (congrArg Command.words none)
  rw [finish_eq (by simp [ends.mode]) (by rw [ends.word]; rfl) (ends.word ▸ present), ends.word]
  rfl

end Ends

/-- What is written as a word is read as one word that says the same. -/
theorem run_shellWord (commands : List Command) (words : List String) (text : String) :
    ∃ r, (Text.shellWord text).toList.foldlM Reader.step (between commands words) = some r ∧
      r.Ends commands (words ++ [text]) := by
  have ended (quoted : Bool) : Ends commands (words ++ [text])
      { between commands words with word := some text.toList, quoted } :=
    ⟨rfl, by simp [endWord, between, Command.withWord]⟩
  unfold Text.shellWord
  dsimp only
  split
  · next plain =>
      have bare : IsBare text.toList := isBare_of_plain (by simp_all) (by simp_all)
      exact ⟨_, run_bare bare rfl rfl, ended false⟩
  · refine ⟨_, ?_, ended true⟩
    -- The quote in front opens an empty word, and the one behind it only closes it.
    have opened : (between commands words).step '\'' =
        some { between commands words with mode := .single, word := some [], quoted := true } := rfl
    rw [String.toList_ofList, List.cons_append, List.foldlM_cons, opened, Option.bind_eq_bind,
      Option.bind_some, List.foldlM_append, run_quoted rfl rfl rfl]
    rfl

/-- Behind a quoted word and a blank the command goes on. -/
theorem run_shellWord_blank {r : Reader} {lead rest : String} {behind : List Char}
    (leads : lead.toList.foldlM Reader.step r = some (between commands words))
    (apart : rest.toList = ' ' :: behind) (text : String) :
    (lead ++ Text.shellWord text ++ rest).toList.foldlM Reader.step r =
      behind.foldlM Reader.step (between commands (words ++ [text])) := by
  obtain ⟨word, read, ends⟩ := run_shellWord commands words text
  simp [leads, read, apart, ends.step_blank]

end Reader

/-! Commands in a script. -/

/-- A text that says one command, wherever a command can begin: at its end the command is there,
whether the script ends as well or goes on. -/
def Issues (text : String) (command : Command) : Prop :=
  ∀ commands, ∃ r, text.toList.foldlM Reader.step (.between commands []) = some r ∧
    r.finish = some (commands ++ [command]) ∧
    r.step ';' = some (.between (commands ++ [command]) [])

theorem Issues.read? {text : String} {command : Command} (issues : Issues text command) :
    read? text = some [command] := by
  obtain ⟨r, read, finished, -⟩ := issues []
  rw [Shell.read?, Reader.start, read]
  exact finished

/-- A quoted word is the next one of a command. -/
theorem issues_shellWord {lead : String} (words : List String)
    (leads : ∀ commands, lead.toList.foldlM Reader.step (.between commands []) =
      some (.between commands words)) (text : String) :
    Issues (lead ++ Text.shellWord text) ⟨words ++ [text], []⟩ := by
  intro commands
  obtain ⟨r, read, ends⟩ := Reader.run_shellWord commands words text
  have any : words ++ [text] ≠ [] := List.append_ne_nil_of_right_ne_nil words (by simp)
  refine ⟨r, ?_, ends.finish any, ends.step_separator any⟩
  rw [String.toList_append, List.foldlM_append, leads]
  exact read

/-- A word keeps what it has for the shell. -/
example : read? ("git show " ++ Text.shellWord "x' $(id) ':a b") =
    some [⟨["git", "show", "x' $(id) ':a b"], []⟩] := by decide

/-- Texts that say one command each, and the same ones in one script. -/
structure Tell (texts : List String) (meant : List Command) : Prop where
  each : texts.map read? = meant.map fun command => some [command]
  script : read? (Text.join "; " texts) = some meant

theorem run_script {texts : List String} {meant : List Command}
    (issues : List.Forall₂ Issues texts meant) (any : texts ≠ []) (commands : List Command) :
    ((Text.join "; " texts).toList.foldlM Reader.step (.between commands [])).bind Reader.finish =
      some (commands ++ meant) := by
  induction issues generalizing commands with
  | nil => exact absurd rfl any
  | @cons text command texts meant first later ih =>
      obtain ⟨r, read, finished, goesOn⟩ := first commands
      by_cases last : texts = []
      · subst last
        cases later
        rw [Text.join, read]
        exact finished
      · have between : "; ".toList.foldlM Reader.step r =
            some (.between (commands ++ [command]) []) := by
          simp [goesOn]
          rfl
        rw [Text.toList_join_cons "; " text last, List.append_assoc, List.foldlM_append, read,
          Option.bind_eq_bind, Option.bind_some, List.foldlM_append, between]
        simpa using ih last (commands ++ [command])

theorem tell_of_issues {texts : List String} {meant : List Command}
    (issues : List.Forall₂ Issues texts meant) (any : texts ≠ []) : Tell texts meant where
  each := by
    clear any
    induction issues with
    | nil => rfl
    | cons first _ ih => rw [List.map_cons, List.map_cons, first.read?, ih]
  script := run_script issues any []

end Shell

namespace GitContext

open Shell

/-! The commands of the scripts. -/

/-- Getting the repository, silently. -/
def clone (uri : String) : Shell.Command :=
  ⟨["git", "clone", "--quiet", uri, "/tmp/repo"],
    [⟨"1", .file, "/dev/null"⟩, ⟨"2", .copy, "1"⟩]⟩

def enter : Shell.Command := ⟨["cd", "/tmp/repo"], []⟩

/-- What reference a revision is told of. -/
def verify (revision : String) : Shell.Command :=
  ⟨["git", "rev-parse", "-q", "--verify", revision], []⟩

/-- What is shown of a file at a revision. -/
def showFile (revision file : String) : Shell.Command :=
  ⟨["git", "show", revision ++ ":" ++ file], []⟩

theorem issues_clone (uri : String) :
    Issues ("git clone --quiet " ++ Text.shellWord uri ++ " /tmp/repo 1>/dev/null 2>&1")
      (clone uri) := by
  intro commands
  have leads : "git clone --quiet ".toList.foldlM Reader.step (.between commands []) =
      some (.between commands ["git", "clone", "--quiet"]) := rfl
  have apart : " /tmp/repo 1>/dev/null 2>&1".toList =
      ' ' :: "/tmp/repo 1>/dev/null 2>&1".toList := rfl
  rw [Reader.run_shellWord_blank leads apart]
  exact ⟨_, rfl, rfl, rfl⟩

theorem issues_enter : Issues "cd /tmp/repo" enter := fun _ => ⟨_, rfl, rfl, rfl⟩

theorem tell_revisionCommands (context : Context) :
    Tell (revisionCommands context)
      [clone (address context), enter, verify (reference context)] := by
  have last : Issues ("git rev-parse -q --verify " ++ Text.shellWord (reference context))
      (verify (reference context)) :=
    issues_shellWord ["git", "rev-parse", "-q", "--verify"] (fun _ => rfl) _
  exact tell_of_issues (.cons (issues_clone (address context)) (.cons issues_enter (.cons last .nil)))
    (List.cons_ne_nil _ _)

theorem tell_showCommands (context : Context) (path : String) :
    Tell (showCommands context path) [clone (address context), enter,
      showFile (reference context) (Path.join context.path (withoutSlashes path))] := by
  have last (object : String) : Issues ("git show " ++ Text.shellWord object)
      ⟨["git", "show", object], []⟩ :=
    issues_shellWord ["git", "show"] (fun _ => rfl) object
  exact tell_of_issues
    (.cons (issues_clone (address context)) (.cons issues_enter (.cons (last _) .nil)))
    (List.cons_ne_nil _ _)

/-! What the words say. -/

/-- The words that a context and a path are looked up by: a path is inside the directory of the
context, whatever slashes are in front of it. -/
structure Names (context : Context) (path uri revision file : String) : Prop where
  uri : uri = if "git://".toList <+: context.source.toList then context.source
    else "git://" ++ context.source
  revision : revision = if context.reference = "" then "HEAD" else context.reference
  file : ∃ slashes inner, (∀ c ∈ slashes, c = '/') ∧ inner.head? ≠ some '/' ∧
    path.toList = slashes ++ inner ∧ file.toList = Path.lead context.path ++ inner

theorem names (context : Context) (path : String) : Names context path (address context)
    (reference context) (Path.join context.path (withoutSlashes path)) where
  uri := by simp only [address, Text.startsWith, List.isPrefixOf_iff_prefix]
  revision := by simp only [reference, String.isEmpty_iff]
  file := by
    have relative : (withoutSlashes path).toList.head? ≠ some '/' := by
      have stops := List.head?_dropWhile_not (· == '/') path.toList
      rw [withoutSlashes, Text.dropStartWhile, String.toList_ofList]
      intro slash
      rw [slash] at stops
      simp at stops
    refine ⟨path.toList.takeWhile (· == '/'), (withoutSlashes path).toList, ?_, relative, ?_,
      Path.toList_join context.path relative⟩
    · intro c member
      simpa using List.all_eq_true.mp List.all_takeWhile c member
    · rw [withoutSlashes, Text.dropStartWhile, String.toList_ofList,
        List.takeWhile_append_dropWhile]

/-! What is asked. -/

theorem after_lock (backend : Backend) (context : Context) (first : Trail) :
    (lock backend context).after first =
      if context.isGit then
        let reply := backend.run image (revisionCommands context)
        (reply.1.map fun out => { context with reference := Text.trim out },
          first.asking reply.2)
      else (.ok context, first) := by
  by_cases git : context.isGit = true
  · simp only [lock, git, Bool.not_true, Bool.false_eq_true, if_false, if_true, after_bind,
      after_ofReply]
    cases (backend.run image (revisionCommands context)).1 <;> rfl
  · simp only [lock, git, Bool.not_false, if_true]
    rfl

/-- A file of a repository is shown by a script. -/
theorem read_backend (d : Docker) (disk : Disk) (root : String) (isCancelled : Bool)
    {context : Context} (path : String) (git : context.isGit = true) :
    (d.backend disk root isCancelled).read path (.buildContext context) =
      d.readGit isCancelled context path := if_pos git

theorem events_readGit (d : Docker) (isCancelled : Bool) (context : Context) (path : String) :
    (d.readGit isCancelled context path).2 =
      (d.runScript isCancelled image (showCommands context path)).2 := by
  unfold Docker.readGit
  split
  next result events reply =>
    rw [reply]
    split
    · rfl
    · split <;> rfl
    · rfl

/-- What a context says is never more than words. Each command of the two scripts that are run for
a repository, by itself and in its script, is read by the shell as the one that is meant: the
repository, its revision and the file are one word each, and nothing else depends on the context.
Pinning a context changes its reference alone, to what the script prints; for a directory nothing
is asked and nothing changes. -/
theorem scripts_meant (d : Docker) (disk : Disk) (root : String) (isCancelled : Bool)
    (context : Context) (path : String) (first : Trail) :
    if context.isGit then
      ∃ uri revision file revisions shows, Names context path uri revision file ∧
        Tell revisions [clone uri, enter, verify revision] ∧
        Tell shows [clone uri, enter, showFile revision file] ∧
        (∀ backend : Backend, (lock backend context).after first =
          ((backend.run image revisions).1.map fun out =>
              { context with reference := Text.trim out },
            first.asking (backend.run image revisions).2)) ∧
        let backend := d.backend disk root isCancelled
        (backend.run image revisions).2 ∈
            [[], [Docker.shellCall image (Text.join "; " revisions)]] ∧
          (backend.read path (.buildContext context)).2 ∈
            [[], [Docker.shellCall image (Text.join "; " shows)]]
    else ∀ backend : Backend, (lock backend context).after first = (.ok context, first) := by
  split
  next git =>
    refine ⟨_, _, _, _, _, names context path, tell_revisionCommands context,
      tell_showCommands context path, fun backend => ?_, d.events_runScript isCancelled image _, ?_⟩
    · rw [after_lock, if_pos git]
    · rw [read_backend d disk root isCancelled path git, events_readGit]
      exact d.events_runScript isCancelled image _
  next directory =>
    intro backend
    rw [after_lock, if_neg directory]

end GitContext
end ImageLock
