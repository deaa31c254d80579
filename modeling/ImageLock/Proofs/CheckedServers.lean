/-
Webservers that are checked.

The check of a webserver needs a tool, which is added to the packages that are declared. Packages
that are declared as nothing take nothing, so such a server is checked without the tool.
-/
import ImageLock.Proofs.Coverage
import ImageLock.Proofs.HashedDefinitions
import ImageLock.Proofs.LockRoundTrip
import ImageLock.Proofs.NothingIgnored
import ImageLock.Proofs.PackageVersions

namespace ImageLock

open Act

/-! Packages that are declared as nothing. -/

theorem Decode.option_eq_none {α : Type} (read : Reader α) (node : Node) :
    option read node = .ok none ↔ node = .null := by
  unfold option
  split
  next => simp
  next other =>
    have there : node ≠ .null := other
    cases read node <;> simp [Except.map, there]

theorem VersionMap.isSome_of_read {node : Node} {m : VersionMap}
    (read : VersionMap.read node = .ok m) : m.content.isSome = true ↔ node ≠ .null := by
  obtain ⟨entries, found, made⟩ := except_bind_ok.mp read
  rw [Ne, ← Decode.option_eq_none (Decode.entries Decode.scalar), found]
  cases entries <;> cases made <;> simp [ofList, ofNames, nil]

theorem World.resolvePackages_nil {world : World} {image : String} {os : OsRelease}
    {locked : VersionMap} {first last : Trail}
    (run : (world.resolvePackages image os .nil).after first = (.ok locked, last)) :
    locked = .empty := by
  obtain ⟨source, _, _, run⟩ := bind_ok.mp run
  rw [PackageSource.resolve_closed source _ _ image _ rfl] at run
  exact (Except.ok.inj (Prod.mk.inj run).1).symm

namespace Webserver

/-- What a definition declares of its packages and of its check, each by default if it declares nothing. -/
structure Declares (config : Fields) (packages : VersionMap) (check : Option Bool) : Prop where
  packages : Decode.get config "system_packages" VersionMap.read .empty = .ok packages
  check : Decode.get config "healthcheck" (Decode.option Decode.boolean) none = .ok check

/-- The packages are declared as nothing. -/
def DeclaresNull (config : Fields) : Prop :=
  Decode.find? config "system_packages" = some .null

theorem Declares.isSome_iff {config : Fields} {packages : VersionMap} {check : Option Bool}
    (declares : Declares config packages check) :
    packages.content.isSome = true ↔ ¬ DeclaresNull config := by
  have read := declares.packages
  unfold Decode.get at read
  unfold DeclaresNull
  cases found : Decode.find? config "system_packages" with
  | none =>
      rw [found] at read
      cases read
      simp [VersionMap.empty]
  | some node =>
      rw [found] at read
      rw [VersionMap.isSome_of_read read]
      simp

theorem Declares.eq_nil {config : Fields} {packages : VersionMap} {check : Option Bool}
    (declares : Declares config packages check) (null : DeclaresNull config) : packages = .nil := by
  have none := declares.isSome_iff.not_left.mpr null
  obtain ⟨content⟩ := packages
  cases content with
  | none => rfl
  | some names => exact absurd rfl none

/-- What is read of a definition: the declared packages, with the tool for its check. -/
theorem Definition.declares_of_read {config : Fields} {w : Definition}
    (read : Definition.read (.map config) = .ok w) :
    ∃ packages check, Declares config packages check ∧ w.healthcheck = check.getD true ∧
      w.systemPackages = addChecker packages w.healthcheck := by
  obtain ⟨fields, known, read⟩ := except_bind_ok.mp read
  obtain ⟨own, -, -⟩ := Decode.record_ok known
  cases own
  obtain ⟨check, checked, read⟩ := except_bind_ok.mp read
  obtain ⟨packages, declared, read⟩ := except_bind_ok.mp read
  obtain ⟨server, -, read⟩ := except_bind_ok.mp read
  obtain ⟨configFile, -, read⟩ := except_bind_ok.mp read
  obtain ⟨assets, -, read⟩ := except_bind_ok.mp read
  cases read
  exact ⟨packages, check, ⟨declared, checked⟩, rfl, rfl⟩

theorem Definition.declares_of_ok {d : ImageLock.Definition} {w : Definition} {previous : Locks}
    (known : Definition.ofDefinition d = .ok (w, previous)) :
    ∃ packages check, Declares d.config packages check ∧ w.healthcheck = check.getD true ∧
      w.systemPackages = addChecker packages w.healthcheck :=
  declares_of_read (ImageLock.Definition.decode_ok.mp (ofDefinition_ok.mp known).1)

theorem Definition.get?_addChecker {packages : VersionMap}
    (there : packages.content.isSome = true) (checked : Bool) (name : String) :
    (addChecker packages checked).get? name =
      if checked = true ∧ name = "curl" ∧ packages.has "curl" = false then some "*"
      else packages.get? name := by
  cases checked with
  | false => simp [addChecker]
  | true =>
      rw [addChecker, if_pos rfl, VersionMap.get?_add there, ← VersionMap.isSome_get?]
      by_cases tool : name = "curl"
      · subst tool
        cases packages.get? "curl" <;> simp
      · simp [tool, Ne.symm tool]

theorem Definition.has_addChecker {packages : VersionMap} (there : packages.content.isSome = true) :
    (addChecker packages true).has "curl" = true := by
  rw [← VersionMap.isSome_get?, Definition.get?_addChecker there, ← VersionMap.isSome_get?]
  cases packages.get? "curl" <;> simp

/-! What is locked. -/

/-- Locks have the tool of a webserver that is checked, exactly if its packages are not declared
as nothing. -/
def ToolLocked (config : Fields) (w : Definition) (locks : Locks) : Prop :=
  w.healthcheck = true → (locks.systemPackages.has "curl" = true ↔ ¬ DeclaresNull config)

theorem lock_checks {world : World} {request : Request} {refresh : Refresh}
    {d : ImageLock.Definition} {fields : Fields} {first last : Trail}
    (refreshed : refresh.packages = true)
    (run : (Kind.webserver.lock world request refresh d).after first = (.ok fields, last)) :
    ∃ w previous, ∃ locks : Locks, Definition.ofDefinition d = .ok (w, previous) ∧
      fields = lockFields locks.toNode ∧ ToolLocked d.config w locks := by
  obtain ⟨locks, _, locked, answer⟩ := bind_ok.mp run
  obtain ⟨w, previous, known, _, _, packages⟩ := lockDefinition_ok.mp (mapError_ok.mp locked)
  rw [refreshed, settled_refresh] at packages
  refine ⟨w, previous, locks, known, (pure_ok.mp answer).1, fun checked => ?_⟩
  obtain ⟨declared, check, declares, -, wanted⟩ := Definition.declares_of_ok known
  rw [wanted, checked] at packages
  constructor
  · intro has null
    -- The nil map ignored the tool, so there was nothing to look up.
    rw [declares.eq_nil null] at packages
    rw [World.resolvePackages_nil packages] at has
    cases has
  · intro stated
    exact World.resolvePackages_covers packages "curl"
      (Definition.has_addChecker (declares.isSome_iff.mpr stated))

/-- Where a definition of a webserver is found. -/
inductive Stand where
  | alone
  | inside

namespace Stand

/-- The definition of the webserver, with its locks. -/
def server : Stand → ImageLock.Definition → ImageLock.Definition
  | .alone, d => d
  | .inside, d => d.webserver

/-- A definition has a webserver there. -/
def IsOf (d : ImageLock.Definition) : Stand → Prop
  | .alone => d.kind = Webserver.kind
  | .inside => Update.holdsWebserver Kind.registry d = true

end Stand

theorem not_holdsWebserver {d : ImageLock.Definition} (alone : d.kind = Webserver.kind) :
    ¬ Update.holdsWebserver Kind.registry d = true := by
  have refuses : Kind.registry.embedsWebserver Webserver.kind = false := rfl
  simp [Update.holdsWebserver, alone, refuses]

/-- What an update writes, each webserver reads back as its locks. -/
theorem wrote_checks {world : World} {request : Request} {refresh : Refresh}
    {d : ImageLock.Definition} {written : Fields} {first last : Trail}
    (refreshed : refresh.packages = true)
    (wrote : Update.Wrote Kind.registry world request refresh d first written last)
    (stand : Stand) (present : stand.IsOf d) :
    ∃ w previous locks, Definition.ofDefinition (stand.server d) = .ok (w, previous) ∧
      ImageLock.Definition.decodeLocks Locks.read Locks.empty
        (stand.server { d with locks := written }).locks = .ok locks ∧
      ToolLocked (stand.server d).config w locks := by
  obtain ⟨all, hash, locked, -, rfl⟩ := wrote
  obtain ⟨kind, own, middle, known, lock, beside⟩ := Update.locks_ok.mp locked
  unfold Update.ServerLocked at beside
  cases stand with
  | alone =>
      -- It holds no other webserver, so its locks are all that is written beside the hash.
      rw [if_neg (not_holdsWebserver present)] at beside
      obtain ⟨rfl, -⟩ := beside
      rw [present] at known
      cases Kind.webserver_of_findKind known
      obtain ⟨w, previous, locks, read, rfl, checks⟩ := lock_checks refreshed lock
      refine ⟨w, previous, locks, read, ?_, checks⟩
      obtain ⟨filled, noHash, noServer⟩ := locks.ofKind
      exact (Update.decodeLocks_hashed Locks.read Locks.empty filled noHash noServer hash).trans
        (ImageLock.Definition.decode_ok.mpr locks.read_toNode)
  | inside =>
      rw [if_pos (show Update.holdsWebserver Kind.registry d = true from present)] at beside
      obtain ⟨serverKind, server, serverKnown, serverLock, rfl⟩ := beside
      cases Kind.webserver_of_findKind serverKnown
      obtain ⟨w, previous, locks, read, rfl, checks⟩ := lock_checks refreshed serverLock
      refine ⟨w, previous, locks, read, ?_, checks⟩
      -- Its locks stand in a field of their own, whatever the outer definition locked.
      have nested := Update.webserver_embedded d own (lockFields locks.toNode) hash
      rw [Stand.server, nested]
      exact locks.ofKind.decodeLocks locks.read_toNode _

/-- A webserver asks for the packages that it declares, and for the tool of its check if it is
checked and declares no version of it; only packages that are declared as nothing stay nothing.
So an update that looks packages up locks the tool for every webserver that is checked, one by
itself or one inside another definition, exactly if its packages are not declared as nothing. -/
theorem checked_server_has_tool {refresh : Refresh} (refreshed : refresh.packages = true)
    (world : World) (disk : Disk) (request : Request) (first : Trail) :
    (∀ d w previous, Definition.ofDefinition d = .ok (w, previous) →
      ∃ packages check, Declares d.config packages check ∧ w.healthcheck = check.getD true ∧
        (DeclaresNull d.config → w.systemPackages = .nil) ∧
        (¬ DeclaresNull d.config → ∀ name, w.systemPackages.get? name =
          if w.healthcheck = true ∧ name = "curl" ∧ packages.has "curl" = false then some "*"
          else packages.get? name)) ∧
    ∀ report disk' last,
      (Update.run Kind.registry world disk request refresh).after first =
        (.ok (report, disk'), last) →
      ∃ d written, Loads world.backend request d ∧
        Update.put disk report.path (Update.content written) = .ok disk' ∧
        ∀ stand : Stand, stand.IsOf d →
          ∃ w previous locks, Definition.ofDefinition (stand.server d) = .ok (w, previous) ∧
            ImageLock.Definition.decodeLocks Locks.read Locks.empty
              (stand.server { d with locks := written }).locks = .ok locks ∧
            ToolLocked (stand.server d).config w locks := by
  constructor
  · intro d w previous known
    obtain ⟨packages, check, declares, checked, wanted⟩ := Definition.declares_of_ok known
    refine ⟨packages, check, declares, checked, fun null => ?_, fun stated name => ?_⟩
    · rw [wanted, declares.eq_nil null]
      cases w.healthcheck <;> rfl
    · rw [wanted, Definition.get?_addChecker (declares.isSome_iff.mpr stated)]
  · intro report disk' last run
    obtain ⟨written, prepared, put⟩ := Update.run_ok.mp run
    obtain ⟨-, d, middle, loaded, wrote⟩ := Update.prepare_ok prepared
    exact ⟨d, written, loadDefinition_ok loaded, put, wrote_checks refreshed wrote⟩

/-! A machine that finds the tool. -/

/-- Its images hold one system, which has the tool. -/
def finding : Machine where
  docker :=
    { binary := "docker"
      execute := fun words =>
        let told := if "cat" ∈ words then "ID=alpine\n"
          else if "inspect" ∈ words then "nginx@sha256:1\n"
          else "curl-7.66.0-r0 description:\n"
        some ⟨some 0, told.toUTF8, .empty⟩ }
  root := "/src"
  isCancelled := false
  packages := .tools
  extensions := ExtensionIndex.ofList []

/-- A project with a webserver, with packages that are declared as nothing or not at all. -/
def serverProject (null : Bool) : Disk :=
  Machine.project "zbuild.yml"
    ("kind: webserver\n" ++ if null then "system_packages: ~\n" else "")

/-- Whether a definition is one of a webserver that is checked, with packages that are declared as
nothing or not. -/
def isChecked (null : Bool) (d : ImageLock.Definition) : Bool :=
  d.kind == Webserver.kind && (Definition.read (.map d.config)).toOption.any (·.healthcheck) &&
    match Decode.find? d.config "system_packages" with
    | some .null => null
    | _ => !null

theorem of_isChecked {null : Bool} {d : ImageLock.Definition} {w : Definition} {previous : Locks}
    (passes : isChecked null d = true)
    (known : Definition.ofDefinition d = .ok (w, previous)) :
    w.healthcheck = true ∧ (DeclaresNull d.config ↔ null = true) := by
  have read := ImageLock.Definition.decode_ok.mp (Definition.ofDefinition_ok.mp known).1
  simp only [isChecked, read, Except.toOption, Option.any_some, Bool.and_eq_true] at passes
  obtain ⟨⟨-, checked⟩, declared⟩ := passes
  refine ⟨checked, ?_⟩
  unfold DeclaresNull
  split at declared
  next found => simp [found, declared]
  next other =>
    have apart : Decode.find? d.config "system_packages" ≠ some .null := other
    have stated : null = false := by simpa using declared
    simp [stated, apart]

theorem isOf_of_isChecked {null : Bool} {d : ImageLock.Definition}
    (passes : isChecked null d = true) : Stand.alone.IsOf d := by
  simp only [isChecked, Bool.and_eq_true, beq_iff_eq] at passes
  exact passes.1.1

/-- The project is loaded as what it says. -/
theorem isChecked_of_loads {null : Bool} {d : ImageLock.Definition}
    (loads : Loads (finding.world (serverProject null)).backend (Machine.prodOf "zbuild.yml") d) :
    isChecked null d = true := by
  have declared : declares (finding.world (serverProject null)).backend
      (Machine.prodOf "zbuild.yml") (isChecked null) = true := by
    cases null <;> decide +kernel
  exact loads.check declared

theorem serverProject_run (null : Bool) :
    ∃ report disk' last,
      (Update.run Kind.registry (finding.world (serverProject null)) (serverProject null)
        (Machine.prodOf "zbuild.yml") .all).after (Trail.start .empty) =
          (.ok (report, disk'), last) := by
  have done : Update.succeeds (finding.world (serverProject null)) (serverProject null)
      (Machine.prodOf "zbuild.yml") .all .empty = true := by
    cases null <;> decide +kernel
  obtain ⟨written, report, disk', last, prepared, put⟩ := Update.succeeds_iff.mp done
  exact ⟨report, disk', last, Update.run_ok.mpr ⟨written, prepared, put⟩⟩

/-- A webserver that declares nothing is locked with the tool for its check. -/
theorem checked_server_has_tool_nginx :
    Refresh.all.packages = true ∧
    ∃ report disk' last,
      (Update.run Kind.registry (finding.world (serverProject false)) (serverProject false)
        (Machine.prodOf "zbuild.yml") .all).after (Trail.start .empty) =
          (.ok (report, disk'), last) ∧
      ∃ d written locks,
        Loads (finding.world (serverProject false)).backend (Machine.prodOf "zbuild.yml") d ∧
        Update.put (serverProject false) report.path (Update.content written) = .ok disk' ∧
        ImageLock.Definition.decodeLocks Locks.read Locks.empty
          (Stand.alone.server { d with locks := written }).locks = .ok locks ∧
        locks.systemPackages.has "curl" = true := by
  have refreshed : Refresh.all.packages = true := rfl
  obtain ⟨report, disk', last, run⟩ := serverProject_run false
  obtain ⟨-, locked⟩ := checked_server_has_tool refreshed (finding.world (serverProject false))
    (serverProject false) (Machine.prodOf "zbuild.yml") (Trail.start .empty)
  obtain ⟨d, written, loads, put, servers⟩ := locked report disk' last run
  have passes := isChecked_of_loads loads
  obtain ⟨w, previous, locks, known, stored, tool⟩ := servers .alone (isOf_of_isChecked passes)
  obtain ⟨checked, null⟩ := of_isChecked passes known
  refine ⟨refreshed, report, disk', last, run, d, written, locks, loads, put, stored,
    (tool checked).mpr ?_⟩
  intro stated
  cases null.mp stated

/-- Packages that are declared as nothing: the webserver is checked, and neither asks for the tool
nor is locked with it. -/
theorem checked_server_lacks_tool :
    ∃ report disk' last,
      (Update.run Kind.registry (finding.world (serverProject true)) (serverProject true)
        (Machine.prodOf "zbuild.yml") .all).after (Trail.start .empty) =
          (.ok (report, disk'), last) ∧
      ∃ d written w previous locks,
        Loads (finding.world (serverProject true)).backend (Machine.prodOf "zbuild.yml") d ∧
        Update.put (serverProject true) report.path (Update.content written) = .ok disk' ∧
        Definition.ofDefinition d = .ok (w, previous) ∧ w.healthcheck = true ∧
        w.systemPackages = .nil ∧
        ImageLock.Definition.decodeLocks Locks.read Locks.empty
          (Stand.alone.server { d with locks := written }).locks = .ok locks ∧
        locks.systemPackages.has "curl" = false := by
  obtain ⟨report, disk', last, run⟩ := serverProject_run true
  obtain ⟨written, prepared, put⟩ := Update.run_ok.mp run
  obtain ⟨-, d, middle, loaded, wrote⟩ := Update.prepare_ok prepared
  have loads := loadDefinition_ok loaded
  have passes := isChecked_of_loads loads
  obtain ⟨w, previous, locks, known, stored, tool⟩ :=
    wrote_checks rfl wrote .alone (isOf_of_isChecked passes)
  obtain ⟨checked, null⟩ := of_isChecked passes known
  obtain ⟨packages, check, declares, -, wanted⟩ := Definition.declares_of_ok known
  have nothing : w.systemPackages = .nil := by
    rw [wanted, checked, declares.eq_nil (null.mpr rfl)]
    rfl
  have lacks : ¬ locks.systemPackages.has "curl" = true :=
    fun has => (tool checked).mp has (null.mpr rfl)
  exact ⟨report, disk', last, run, d, written, w, previous, locks, loads, put, known, checked,
    nothing, stored, Bool.eq_false_iff.mpr lacks⟩

end Webserver
end ImageLock
