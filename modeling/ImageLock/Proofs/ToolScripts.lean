/-
Scripts that ask a package manager.

The names stand in the script as they are. So what the shell makes of it are the commands that are
meant exactly if every name is a word by itself.
-/
import ImageLock.Access.Docker
import ImageLock.Proofs.PackageVersions
import ImageLock.Proofs.ShellScripts

namespace ImageLock

open Act

namespace Docker

/-- A script is handed to the shell of an image. -/
def shellCall (image script : String) : Event :=
  .call ["run", "--rm", "--entrypoint", "/bin/sh", image, "-o", "errexit", "-c", script]

theorem events_runScript (d : Docker) (isCancelled : Bool) (image : String)
    (commands : List String) :
    (d.runScript isCancelled image commands).2 ∈
      [[], [shellCall image (Text.join "; " commands)]] := by
  unfold runScript invoke shellCall
  simp only
  split <;> simp

end Docker

namespace PackageManager

/-- The tool of an image itself. -/
def source : PackageManager → PackageSource
  | .apt => .apt
  | .apk => .apk

def commands : PackageManager → List String → List String
  | .apt => Apt.commands
  | .apk => Apk.commands

def script (manager : PackageManager) (names : List String) : String :=
  Text.join "; " (manager.commands names)

/-- What comes before the last command. -/
def preparation : PackageManager → List Shell.Command
  | .apt => [⟨["apt-get", "update"], [⟨"1", .file, "/dev/null"⟩, ⟨"2", .copy, "1"⟩]⟩]
  | .apk => []

/-- The last command without names. -/
def question : PackageManager → List String
  | .apt => ["apt-cache", "madison"]
  | .apk => ["apk", "--no-cache", "info", "--description"]

/-- The commands that are to run: each name is one more word of the last. -/
def meant (manager : PackageManager) (names : List String) : List Shell.Command :=
  manager.preparation ++ [⟨manager.question ++ names, []⟩]

/-- The script in front of the names. -/
def lead : PackageManager → String
  | .apt => "apt-get update 1>/dev/null 2>&1; apt-cache madison "
  | .apk => "apk --no-cache info --description "

theorem script_eq (manager : PackageManager) (names : List String) :
    manager.script names = manager.lead ++ Text.join " " names := by
  cases manager with
  | apt =>
      apply String.toList_inj.mp
      simp [script, commands, Apt.commands, Text.join, lead]
  | apk => rfl

theorem run_lead (manager : PackageManager) :
    manager.lead.toList.foldlM Shell.Reader.step Shell.Reader.start =
      some (.between manager.preparation manager.question) := by
  cases manager <;> decide

theorem read?_script (manager : PackageManager) (names : List String) :
    Shell.read? (manager.script names) = some (manager.meant names) ↔
      ∀ name ∈ names, Shell.IsBare name.toList := by
  rw [script_eq]
  exact Shell.read?_words manager.run_lead (by cases manager <;> decide) names

/-- Only where something is open the tool is asked, with one script. -/
theorem after_resolve (manager : PackageManager) (backend : Backend) (isCancelled : Bool)
    (image : String) (packages : VersionMap) (first : Trail) :
    let names := Packages.openNames packages
    ((manager.source.resolve backend isCancelled image packages).after first).2 =
      if names = [] then first
      else first.asking (backend.run image (manager.commands names)).2 := by
  simp only
  split
  next closed => rw [PackageSource.resolve_closed _ backend isCancelled image first closed]
  next opened =>
    rcases manager.source.resolve_cases backend isCancelled image first opened with
      ⟨error, last, refuses, run⟩ | ⟨gives, last, resolved, tells, holds, run⟩
    · rw [run]
      cases manager with
      | apt =>
          obtain ⟨cause, events, reply, -, rfl⟩ := refuses
          rw [commands, reply]
      | apk =>
          obtain ⟨cause, events, reply, -, -, rfl⟩ := refuses
          rw [commands, reply]
    · rw [run]
      cases manager with
      | apt =>
          obtain ⟨out, events, reply, -, rfl⟩ := tells
          rw [commands, reply]
      | apk =>
          obtain ⟨result, out, events, reply, -, -, rfl⟩ := tells
          rw [commands, reply]

/-- The shell of an image is asked once at most, for the open names in order, and what it runs are
the commands that are meant exactly if every name is a word as it stands. -/
theorem script_meant_iff (manager : PackageManager) (d : Docker) (disk : Disk) (root : String)
    (isCancelled : Bool) (image : String) (packages : VersionMap) (first : Trail) :
    let names := Packages.openNames packages
    let backend := d.backend disk root isCancelled
    let last := ((manager.source.resolve backend isCancelled image packages).after first).2
    names.Pairwise (· < ·) ∧
      (if names = [] then last = first
        else ∃ asked ∈ [[], [Docker.shellCall image (manager.script names)]],
          last = first.asking asked) ∧
      (Shell.read? (manager.script names) = some (manager.meant names) ↔
        ∀ name ∈ names, Shell.IsBare name.toList) := by
  refine ⟨Packages.openNames_sorted packages, ?_, manager.read?_script _⟩
  rw [after_resolve]
  split
  · rfl
  · exact ⟨_, d.events_runScript isCancelled image _, rfl⟩

/-- What is behind a separator in a name is run as a command of its own. -/
theorem script_runs_name :
    let packages : VersionMap := .ofList [("curl;id", "*")]
    let script := PackageManager.apt.script (Packages.openNames packages)
    let d : Docker := ⟨"docker", fun _ => some ⟨some 0, .empty, .empty⟩⟩
    let backend := d.backend (.empty "") "" false
    let run := (PackageManager.apt.source.resolve backend false "debian:buster" packages).after
      (Trail.start .empty)
    run.2.events = [Docker.shellCall "debian:buster" script] ∧
      Shell.read? script = some (PackageManager.apt.preparation ++
        [⟨["apt-cache", "madison", "curl"], []⟩, ⟨["id"], []⟩]) ∧
      Shell.read? script ≠ some (PackageManager.apt.meant (Packages.openNames packages)) := by
  exact ⟨by decide, by decide, by decide⟩

end PackageManager
end ImageLock
