/-
Repositories that cannot be reached.

A script that looks for a file in a repository stops at the first command that fails, and ends with
the exit code of that command. A file counts as missing by this exit code alone, so one that was
not looked for, because its repository could not be got, counts as missing too.
-/
import ImageLock.Php.Composer
import ImageLock.Proofs.HashedDefinitions
import ImageLock.Proofs.RepositoryScripts

namespace ImageLock

open Act

namespace Docker

/-! Scripts that stop at the first command that fails. -/

/-- What commands leave together. -/
def sequence : List Output → Output
  | [] => ⟨some 0, .empty, .empty⟩
  | out :: rest =>
      if succeeded out then
        let later := sequence rest
        ⟨later.code, out.stdout ++ later.stdout, out.stderr ++ later.stderr⟩
      else out

/-- A command that prints into nothing. -/
def silenced (out : Output) : Output := { out with stdout := .empty, stderr := .empty }

theorem succeeded_iff {out : Output} : succeeded out = true ↔ out.code = some 0 := beq_iff_eq

theorem succeeded_sequence {outs : List Output} :
    succeeded (sequence outs) = true ↔ ∀ out ∈ outs, succeeded out = true := by
  induction outs with
  | nil => simp [sequence, succeeded]
  | cons out rest ih =>
      rw [sequence, List.forall_mem_cons, ← ih]
      split
      next own => exact (and_iff_right own).symm
      next failed => simp [failed]

/-- An exit code that tells a failure is the one of the first command that failed. -/
theorem code_sequence_cons {out : Output} {rest : List Output} {code : Int} (fails : code ≠ 0) :
    (sequence (out :: rest)).code = some code ↔
      out.code = some code ∨ succeeded out = true ∧ (sequence rest).code = some code := by
  by_cases own : succeeded out = true
  -- A command that succeeds has the code 0, so the script goes on to one that fails.
  · have other : out.code ≠ some code := by
      rw [succeeded_iff.mp own]
      simpa using fails.symm
    simp [sequence, own, other]
  · simp [sequence, own]

theorem code_sequence_nil {code : Int} (fails : code ≠ 0) :
    (sequence []).code ≠ some code := by
  simpa [sequence] using fails.symm

/-! Looking for a file in a repository. -/

/-- What is left by the commands that look for a file. -/
structure Lookup where
  clone : Output
  enter : Output
  shown : Output

namespace Lookup

/-- What the script leaves that they are in. -/
def output (l : Lookup) : Output := sequence [silenced l.clone, l.enter, l.shown]

def Succeeds (l : Lookup) : Prop :=
  succeeded l.clone = true ∧ succeeded l.enter = true ∧ succeeded l.shown = true

/-- The first command that fails ends with the exit code of a missing file. The version control
tool ends so whenever it cannot go on: for a file that is not there, for a reference that is not
known, and for a repository that cannot be reached. -/
def EndsAsMissing (l : Lookup) : Prop :=
  l.clone.code = some gitNotFound ∨ succeeded l.clone = true ∧
    (l.enter.code = some gitNotFound ∨
      succeeded l.enter = true ∧ l.shown.code = some gitNotFound)

theorem succeeded_output {l : Lookup} : succeeded l.output = true ↔ l.Succeeds := by
  simp only [output, succeeded_sequence, List.forall_mem_cons, List.not_mem_nil, false_imp_iff,
    implies_true, and_true]
  rfl

theorem code_output {l : Lookup} : l.output.code = some gitNotFound ↔ l.EndsAsMissing := by
  have fails : gitNotFound ≠ 0 := by decide
  simp only [output, EndsAsMissing, code_sequence_cons fails, code_sequence_nil fails, and_false,
    or_false]
  rfl

end Lookup

/-- The call that runs the script for a file. -/
def showCall (context : Context) (path : String) : List String :=
  ["run", "--rm", "--entrypoint", "/bin/sh", GitContext.image, "-o", "errexit", "-c",
    Text.join "; " (GitContext.showCommands context path)]

/-- The script that looks for a file was run, and left this. -/
def Showed (d : Docker) (isCancelled : Bool) (context : Context) (path : String)
    (out : Output) : Prop :=
  (d.invoke isCancelled (showCall context path)).1 = .ok out

/-- The error of a script that failed. -/
def scriptFailed (context : Context) (path : String) (out : Output) : AccessError :=
  .exitStatus GitContext.image (Text.join "; " (GitContext.showCommands context path)) out.code
    (Text.ofBytesLenient out.stdout) (Text.ofBytesLenient out.stderr)

variable {d : Docker} {isCancelled : Bool} {context : Context} {path : String} {out : Output}

theorem runScript_of_showed (showed : d.Showed isCancelled context path out) :
    (d.runScript isCancelled GitContext.image (GitContext.showCommands context path)).1 =
      if succeeded out then .ok (Text.ofBytesLenient out.stdout)
      else .error (scriptFailed context path out) := by
  unfold Showed showCall at showed
  simp only [runScript, scriptFailed, showed]
  rfl

/-- Nothing but the exit code tells a file that is missing from other failures. -/
theorem readGit_of_showed (showed : d.Showed isCancelled context path out) :
    (d.readGit isCancelled context path).1 =
      if succeeded out then .ok (Text.ofBytesLenient out.stdout).toUTF8
      else if out.code = some gitNotFound then
        .error (.fileNotFound path (Source.buildContext context).display)
      else .error (scriptFailed context path out) := by
  have ran := runScript_of_showed showed
  unfold readGit
  cases reply : d.runScript isCancelled GitContext.image
      (GitContext.showCommands context path) with
  | mk result events =>
      rw [reply] at ran
      dsimp only at ran ⊢
      by_cases done : succeeded out = true
      · rw [if_pos done] at ran ⊢
        rw [ran]
      · rw [if_neg done, scriptFailed] at ran
        rw [if_neg done, ran]
        dsimp only
        split <;> rfl

theorem Showed.unique {other : Output} (one : d.Showed isCancelled context path out)
    (two : d.Showed isCancelled context path other) : other = out :=
  Except.ok.inj (two.symm.trans one)

/-- Only a script that was run tells a file as missing. -/
theorem showed_of_missing (missing : (d.readGit isCancelled context path).1 =
      .error (.fileNotFound path (Source.buildContext context).display)) :
    ∃ out, d.Showed isCancelled context path out := by
  cases invoked : d.invoke isCancelled (showCall context path) with
  | mk answer events =>
      cases answer with
      | ok out => exact ⟨out, by rw [Showed, invoked]⟩
      | error error =>
          -- A tool that does not start, and a call that was cancelled, have errors of their own.
          have other : error = .spawn d.binary ∨ error = .cancelled := by
            unfold invoke at invoked
            split at invoked
            · cases invoked
              exact .inl rfl
            · cases isCancelled <;> cases invoked
              exact .inr rfl
          rcases other with rfl | rfl <;>
            · unfold showCall at invoked
              simp [readGit, runScript, invoked, Except.bind] at missing

/-- A file is missing exactly if the script was run and ended with one exit code. -/
theorem missing_iff :
    (d.readGit isCancelled context path).1 =
        .error (.fileNotFound path (Source.buildContext context).display) ↔
      ∃ out, d.Showed isCancelled context path out ∧ out.code = some gitNotFound := by
  constructor
  · intro missing
    obtain ⟨out, showed⟩ := showed_of_missing missing
    refine ⟨out, showed, ?_⟩
    rw [readGit_of_showed showed] at missing
    split_ifs at missing with _ code
    · exact code
    · cases missing
  · rintro ⟨out, showed, code⟩
    have failed : ¬ succeeded out = true := by
      rw [succeeded_iff, code]
      decide
    rw [readGit_of_showed showed, if_neg failed, if_pos code]

end Docker

/-! What is made of a file that is refused. -/

namespace Backend

/-- A file of a context is answered for with an error. -/
def Refuses (backend : Backend) (context : Context) (path : String) (error : AccessError) : Prop :=
  (backend.read path (.buildContext context)).1 = .error error

/-- A request that has its locks in this file, and whose definition file is read. -/
structure Bares (backend : Backend) (context : Context) (path : String) (request : Request)
    (bare : Definition) : Prop where
  context : request.context = context
  lockFile : request.lockFile = path
  definition : ∃ content,
    (backend.read request.file (.buildContext request.context)).1 = .ok content ∧
      Definition.parse request.file content = .ok bare

/-- Nobody hears of the error: a project requires nothing, and a definition has no locks. -/
structure Overlooks (backend : Backend) (context : Context) (path : String) : Prop where
  requirements : path = Php.lockFile → ∀ first,
    ((Php.platformRequirements backend context).after first).1 = .ok .empty
  loads : ∀ request bare, backend.Bares context path request bare → ∀ first,
    ((load backend request).after first).1 = .ok bare

/-- The error is told by everybody. -/
structure Reports (backend : Backend) (context : Context) (path : String)
    (error : AccessError) : Prop where
  requirements : path = Php.lockFile → ∀ first,
    ((Php.platformRequirements backend context).after first).1 = .error (.access error)
  loads : ∀ request bare, backend.Bares context path request bare → ∀ first,
    ((load backend request).after first).1 = .error (.read path error)

variable {backend : Backend} {context : Context} {path : String} {error : AccessError}

theorem Refuses.requirements (refuses : backend.Refuses context Php.lockFile error)
    (first : Trail) :
    ((Php.platformRequirements backend context).after first).1 =
      if error.isNotFound then .ok .empty else .error (.access error) := by
  unfold Refuses at refuses
  simp only [Php.platformRequirements, after_bind, after_attempt, after_ofReply, refuses]
  split <;> rfl

theorem Refuses.loads {request : Request} {bare : Definition}
    (refuses : backend.Refuses context path error)
    (bares : backend.Bares context path request bare) (first : Trail) :
    ((load backend request).after first).1 =
      if error.isNotFound then .ok bare else .error (.read path error) := by
  obtain ⟨rfl, rfl, content, read, parsed⟩ := bares
  unfold Refuses at refuses
  simp only [load, after_bind, after_attempt, after_ofReply, after_mapError, after_ofExcept, read,
    parsed, refuses, ok_mapError]
  split <;> rfl

theorem Refuses.overlooks (refuses : backend.Refuses context path error)
    (missing : error.isNotFound = true) : backend.Overlooks context path where
  requirements := by
    rintro rfl first
    rw [refuses.requirements, if_pos missing]
  loads request bare bares first := by rw [refuses.loads bares, if_pos missing]

theorem Refuses.reports (refuses : backend.Refuses context path error)
    (there : ¬ error.isNotFound = true) : backend.Reports context path error where
  requirements := by
    rintro rfl first
    rw [refuses.requirements, if_neg there]
  loads request bare bares first := by rw [refuses.loads bares, if_neg there]

end Backend

namespace Docker

variable {isCancelled : Bool} {context : Context} {path : String}

theorem refuses_missing_iff {d : Docker} {disk : Disk} {root : String} {out : Output}
    (git : context.isGit = true) (showed : d.Showed isCancelled context path out) :
    (d.backend disk root isCancelled).Refuses context path
        (.fileNotFound path (Source.buildContext context).display) ↔
      out.code = some gitNotFound := by
  rw [Backend.Refuses, GitContext.read_backend d disk root isCancelled path git, missing_iff]
  exact ⟨fun ⟨_, shown, code⟩ => showed.unique shown ▸ code, fun code => ⟨out, showed, code⟩⟩

/-- What is told of a file of a repository depends on the exit codes of its commands alone. It is
shown if all of them succeed; it is missing if the first one that fails ends with the exit code of
a missing file, also where this is the one that gets the repository, and then it is overlooked;
any other failure is an error of its own, and told as one. -/
theorem missing_iff_endsAsMissing (d : Docker) (disk : Disk) (root : String) (isCancelled : Bool)
    {l : Lookup} (git : context.isGit = true)
    (showed : d.Showed isCancelled context path l.output) :
    let backend := d.backend disk root isCancelled
    let source := Source.buildContext context
    let failed := scriptFailed context path l.output
    (l.Succeeds → (backend.read path source).1 =
      .ok (Text.ofBytesLenient l.output.stdout).toUTF8) ∧
    (backend.Refuses context path (.fileNotFound path source.display) ↔ l.EndsAsMissing) ∧
    (l.EndsAsMissing → backend.Overlooks context path) ∧
    (¬ l.Succeeds → ¬ l.EndsAsMissing →
      backend.Refuses context path failed ∧ backend.Reports context path failed) := by
  intro backend source failed
  have read := GitContext.read_backend d disk root isCancelled path git
  have answer := readGit_of_showed showed
  have missing : backend.Refuses context path (.fileNotFound path source.display) ↔
      l.EndsAsMissing := (refuses_missing_iff git showed).trans Lookup.code_output
  refine ⟨fun done => ?_, missing, fun ends => (missing.mpr ends).overlooks rfl,
    fun undone other => ?_⟩
  · rw [read, answer, if_pos (Lookup.succeeded_output.mpr done)]
  · have refuses : backend.Refuses context path failed := by
      rw [Backend.Refuses, read, answer, if_neg (undone ∘ Lookup.succeeded_output.mp),
        if_neg (other ∘ Lookup.code_output.mp)]
    exact ⟨refuses, refuses.reports Bool.false_ne_true⟩

/-! A repository that is reached once only. -/

/-- The repository is not reached, so nothing was looked for. -/
def Lookup.unreached : Lookup where
  clone := ⟨some gitNotFound, .empty, "fatal: unable to connect to github.com\n".toUTF8⟩
  enter := ⟨some 0, .empty, .empty⟩
  shown := ⟨some 0, .empty, .empty⟩

def repository : Context := ⟨.git, "github.com/some/repo", "", ""⟩

def shownServer : Output := ⟨some 0, "kind: webserver\n".toUTF8, .empty⟩

/-- The definition of a webserver is shown, and nothing else. -/
def onceOnly : Docker where
  binary := "docker"
  execute words :=
    if words = showCall repository "zbuild.yml" then some shownServer
    else some Lookup.unreached.output

def onceOnlyRequest : Request := ⟨"zbuild.yml", "zbuild.lock", "", repository⟩

theorem execute_onceOnly (words : List String) :
    onceOnly.execute words =
      if words = showCall repository "zbuild.yml" then some shownServer
      else some Lookup.unreached.output := rfl

theorem showed_onceOnly {path : String} {out : Output}
    (allowed : ("docker" :: showCall repository path).all canBeWord = true)
    (ran : onceOnly.execute (showCall repository path) = some out) :
    onceOnly.Showed false repository path out := by
  rw [Showed, invoke, if_pos (show (onceOnly.binary :: _).all canBeWord = true from allowed), ran]
  rfl

theorem showed_unreached :
    onceOnly.Showed false repository "composer.lock" Lookup.unreached.output ∧
      onceOnly.Showed false repository "zbuild.lock" Lookup.unreached.output := by
  constructor <;>
    exact showed_onceOnly (by decide +kernel) ((execute_onceOnly _).trans (if_neg (by decide +kernel)))

theorem missing_iff_endsAsMissing_unreached :
    repository.isGit = true ∧
    onceOnly.Showed false repository "composer.lock" Lookup.unreached.output ∧
    (onceOnly.backend (Disk.empty "/") "." false).Overlooks repository "composer.lock" := by
  have git : repository.isGit = true := rfl
  have ends : Lookup.unreached.EndsAsMissing := .inl rfl
  refine ⟨git, showed_unreached.1, ?_⟩
  exact (missing_iff_endsAsMissing onceOnly (Disk.empty "/") "." false git
    showed_unreached.1).2.2.1 ends

/-- A webserver without locks. -/
def bareServer : Definition := ⟨Webserver.kind, [], []⟩

theorem bares_bareServer :
    (onceOnly.backend (Disk.empty "/") "." false).Bares repository "zbuild.lock" onceOnlyRequest
      bareServer where
  context := rfl
  lockFile := rfl
  definition := by
    have showed : onceOnly.Showed false repository "zbuild.yml" shownServer :=
      showed_onceOnly (by decide +kernel) ((execute_onceOnly _).trans (if_pos rfl))
    have read := readGit_of_showed showed
    rw [if_pos (by decide), ← GitContext.read_backend onceOnly (Disk.empty "/") "." false "zbuild.yml" rfl] at read
    have text : Text.ofBytesLenient shownServer.stdout = "kind: webserver\n" := by decide +kernel
    refine ⟨_, read, ?_⟩
    rw [text]
    exact parse_of_readsAs (by decide +kernel) rfl

/-- A repository that could not be cloned: both files count as missing, so that nothing is required
and the definition is loaded without locks. -/
theorem missing_unreached :
    let backend := onceOnly.backend (Disk.empty "/") "." false
    Lookup.unreached.clone.code = some gitNotFound ∧
    onceOnly.Showed false repository "composer.lock" Lookup.unreached.output ∧
    onceOnly.Showed false repository "zbuild.lock" Lookup.unreached.output ∧
    backend.Refuses repository "composer.lock"
      (.fileNotFound "composer.lock" (Source.buildContext repository).display) ∧
    ((Php.platformRequirements backend repository).after (Trail.start .empty)).1 = .ok .empty ∧
    ((load backend onceOnlyRequest).after (Trail.start .empty)).1 = .ok bareServer := by
  intro backend
  obtain ⟨composer, locks⟩ := showed_unreached
  have noComposer : backend.Refuses repository "composer.lock"
      (.fileNotFound "composer.lock" (Source.buildContext repository).display) :=
    (refuses_missing_iff rfl composer).mpr rfl
  have noLocks : backend.Refuses repository "zbuild.lock"
      (.fileNotFound "zbuild.lock" (Source.buildContext repository).display) :=
    (refuses_missing_iff rfl locks).mpr rfl
  exact ⟨rfl, composer, locks, noComposer, (noComposer.overlooks rfl).requirements rfl _,
    (noLocks.overlooks rfl).loads _ _ bares_bareServer _⟩

end Docker
end ImageLock
