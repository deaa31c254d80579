/-
Plans of webservers that stand inside other definitions. Each of them is the plan
of the nested definition, built on one production plan of the outer one.
-/
import ImageLock.Proofs.History

namespace ImageLock

/-! What follows a lead. -/

namespace Text

theorem after?_eq_some {lead text rest : String} :
    after? lead text = some rest ↔ text = lead ++ rest := by
  simp only [after?, dropLeading, Option.map_eq_some_iff]
  constructor
  · rintro ⟨chars, dropped, rfl⟩
    split at dropped
    next isLead =>
      obtain ⟨more, text_eq⟩ := List.isPrefixOf_iff_prefix.mp isLead
      obtain rfl := Option.some.inj dropped
      rw [← String.toList_inj, String.toList_append, String.toList_ofList, ← text_eq]
      simp
    next => cases dropped
  · rintro rfl
    exact ⟨rest.toList, by simp, String.ofList_toList⟩

theorem after?_eq_none {lead text : String} :
    after? lead text = none ↔ startsWith lead text = false := by
  cases isLead : lead.toList.isPrefixOf text.toList <;>
    simp [after?, dropLeading, startsWith, isLead]

end Text

/-! Planning only reads. -/

namespace Act

variable {ε α : Type}

/-- A program that only reads answers from every trail what it answered once. -/
theorem Reads.answers {act : Act ε α} (reads : Reads act) {value : α} {first last : Trail}
    (run : act.after first = (.ok value, last)) : Answers act (.ok value) := by
  obtain ⟨answer, known⟩ := reads
  rwa [answer_of_ok known run] at known

theorem Answers.run {act : Act ε α} {value : α} (known : Answers act (.ok value))
    (first : Trail) : ∃ last, act.after first = (.ok value, last) :=
  ⟨_, Prod.ext (known first).1 rfl⟩

/-- It has one answer. -/
theorem Answers.unique {act : Act ε α} {one other : Except ε α} (known : Answers act one)
    (known' : Answers act other) : one = other :=
  (known (Trail.start .empty)).1.symm.trans (known' (Trail.start .empty)).1

end Act

open Act

variable {world : World} {request : Request} {d : Definition} {plan : BuildPlan}
  {first last : Trail}

theorem Php.reads_resolve (world : World) (request : Request) (d : ImageLock.Definition) :
    Reads (Php.resolve world request d) := by
  refine reads_bind (reads_ofExcept _) fun php => ?_
  obtain ⟨answer, known⟩ := answers_platformRequirements world.backend
    (php.locks.source.getD request.context)
  refine reads_bind (reads_mapError _ ⟨answer, known⟩) fun required => ?_
  exact reads_bind (reads_ofExcept _) fun resolved => reads_pure _

theorem Php.reads_plan (world : World) (request : Request) (d : ImageLock.Definition) :
    Reads (Php.plan world request d) := by
  refine reads_bind (reads_resolve world request d) fun (php, resolved) => ?_
  dsimp only
  split
  next => exact reads_fail _
  next => exact reads_bind (reads_ofExcept _) fun plan => reads_pure _

theorem NodeJs.reads_plan (world : World) (request : Request) (d : ImageLock.Definition) :
    Reads (NodeJs.plan world request d) := by
  refine reads_bind (reads_ofExcept _) fun nodeJs => ?_
  refine reads_bind (reads_ofExcept _) fun resolved => ?_
  split
  next => exact reads_fail _
  next =>
    refine reads_bind (reads_mapError _ ?_) fun installer => reads_pure _
    exact answers_detectAmong _ _ _

/-! Plans that copy from no other. -/

theorem BuildPlan.withSource_unsourced {parent : BuildPlan} (unsourced : plan.source = none) :
    { plan.withSource parent with source := none } = plan := by
  cases plan
  cases unsourced
  rfl

theorem Php.withDumpOptions_source {bare : BuildPlan} {resolved : Resolved}
    (made : withDumpOptions bare resolved = .ok plan) : plan.source = bare.source := by
  unfold withDumpOptions at made
  split at made
  next => rw [← Except.ok.inj made]
  next =>
    cases options : resolved.dumpOptions with
    | error error => simp [options, Except.map] at made
    | ok options' =>
        rw [options] at made
        rw [← Except.ok.inj made]
        rfl

theorem Php.withHealthcheck_source (plan : BuildPlan) (resolved : Resolved) :
    (withHealthcheck plan resolved).source = plan.source := by
  unfold withHealthcheck
  split <;> rfl

theorem Php.plan_source {d : ImageLock.Definition}
    (run : (Php.plan world request d).after first = (.ok plan, last)) : plan.source = none := by
  obtain ⟨⟨php, resolved⟩, _, _, run⟩ := bind_ok.mp run
  dsimp only at run
  split at run
  next => exact (fail_ok.mp run).elim
  next =>
    obtain ⟨bare, _, options, run⟩ := bind_ok.mp run
    obtain ⟨rfl, _⟩ := pure_ok.mp run
    rw [withHealthcheck_source, withDumpOptions_source (ofExcept_ok.mp options).1]
    rfl

theorem NodeJs.plan_source {d : ImageLock.Definition}
    (run : (NodeJs.plan world request d).after first = (.ok plan, last)) :
    plan.source = none := by
  obtain ⟨nodeJs, _, _, run⟩ := bind_ok.mp run
  obtain ⟨resolved, _, _, run⟩ := bind_ok.mp run
  split at run
  next => exact (fail_ok.mp run).elim
  next =>
    obtain ⟨installer, _, _, run⟩ := bind_ok.mp run
    obtain ⟨rfl, _⟩ := pure_ok.mp run
    split <;> rfl

/-! Plans of webservers. -/

namespace Webserver

/-- The plan of a webserver that is locked. -/
def planOf (d : Definition) (locks : Locks) (context : Context) : BuildPlan :=
  (BuildPlan.make kind kind locks.image context false (Json.ofNode d.toNode)
    (Json.ofNode locks.toNode)).withArgument "config_path" d.server.configPath

/-- A webserver can be planned if it and its locks can be decoded, and there are
locks. -/
theorem plan_ok {request : Request} {d : ImageLock.Definition} {plan : BuildPlan} :
    Webserver.plan request d = .ok plan ↔
      ∃ server locks, Definition.ofDefinition d = .ok (server, locks) ∧ locks.image ≠ "" ∧
        plan = planOf server locks request.context := by
  cases known : Definition.ofDefinition d with
  | error error => simp [Webserver.plan, known, bind, Except.bind]
  | ok own =>
      obtain ⟨server, locks⟩ := own
      by_cases unlocked : locks.image = ""
      · simp [Webserver.plan, known, unlocked, bind, Except.bind, throw, throwThe,
          MonadExceptOf.throw]
      · have made : Webserver.plan request d = .ok (planOf server locks request.context) := by
          simp [Webserver.plan, known, unlocked, bind, Except.bind, pure, Except.pure, planOf]
        rw [made]
        constructor
        · intro same
          exact ⟨server, locks, rfl, unlocked, (Except.ok.inj same).symm⟩
        · rintro ⟨_, _, same, _, rfl⟩
          cases same
          rfl

theorem plan_isOk {request : Request} {d : ImageLock.Definition} :
    (∃ plan, Webserver.plan request d = .ok plan) ↔
      (∃ server, ImageLock.Definition.decode "webserver definition" Definition.read d.config =
        .ok server) ∧
      ∃ locks, ImageLock.Definition.decodeLocks Locks.read Locks.empty d.locks = .ok locks ∧
        locks.image ≠ "" := by
  constructor
  · rintro ⟨plan, planned⟩
    obtain ⟨server, locks, known, filled, _⟩ := plan_ok.mp planned
    obtain ⟨decoded, locked⟩ := Definition.ofDefinition_ok.mp known
    exact ⟨⟨server, decoded⟩, locks, locked, filled⟩
  · rintro ⟨⟨server, decoded⟩, locks, locked, filled⟩
    have known := Definition.ofDefinition_ok.mpr ⟨decoded, locked⟩
    exact ⟨_, plan_ok.mpr ⟨server, locks, known, filled, rfl⟩⟩

end Webserver

/-! Plans of kinds. -/

namespace Kind

theorem reads_plan (kind : Kind) (world : World) (request : Request) (d : Definition) :
    Reads (kind.plan world request d) := by
  cases kind with
  | php => exact reads_mapError _ (Php.reads_plan world request d)
  | nodeJs => exact reads_mapError _ (NodeJs.reads_plan world request d)
  | webserver => exact reads_mapError _ (reads_ofExcept _)

theorem webserver_of_findKind {kind : Kind}
    (known : Build.findKind registry Webserver.kind = .ok kind) : kind = .webserver :=
  (Except.ok.inj known).symm

/-- The plan of a kind copies from no other. -/
theorem plan_source {kind : Kind}
    (run : (kind.plan world request d).after first = (.ok plan, last)) : plan.source = none := by
  cases kind with
  | php => exact Php.plan_source (mapError_ok.mp run)
  | nodeJs => exact NodeJs.plan_source (mapError_ok.mp run)
  | webserver =>
      obtain ⟨_, _, _, _, rfl⟩ :=
        Webserver.plan_ok.mp (ofExcept_ok.mp (mapError_ok.mp run)).1
      rfl

end Kind

namespace Build

theorem findEmbedding_ok {name : String} {kind : Kind} :
    findEmbedding Kind.registry name = .ok kind ↔
      findKind Kind.registry name = .ok kind ∧ Kind.registry.embedsWebserver name = true := by
  cases known : findKind Kind.registry name with
  | error error => simp [findEmbedding, known, bind, Except.bind]
  | ok found =>
      cases embeds : Kind.registry.embedsWebserver name <;>
        simp [findEmbedding, known, embeds, bind, Except.bind, pure, Except.pure, throw,
          throwThe, MonadExceptOf.throw]

/-- What a plan of a webserver was made of. -/
structure BuiltOn (world : World) (request : Request) (plan : BuildPlan) (d : Definition)
    (stage : String) (parent : BuildPlan) : Prop where
  loads : Loads world.backend request d
  inSync : checkLockSync d = .ok ()
  named : request.stage = webserverStageLead ++ stage
  embeds : Kind.registry.embedsWebserver d.kind = true
  planned : ∃ kind, findKind Kind.registry d.kind = .ok kind ∧
    Answers (kind.plan world { request with stage } d) (.ok parent)
  isProduction : parent.isDev = false
  server : Webserver.plan { request with stage := Webserver.kind } d.webserver =
    .ok { plan with source := none }
  source : plan.source = some parent

/-- A plan is the one of a kind, or that of a webserver. -/
theorem plan_cases (run : (Build.plan Kind.registry world request).after first = (.ok plan, last)) :
    (plan.source = none ∧ Text.startsWith webserverStageLead request.stage = false) ∨
      ∃ d stage parent, BuiltOn world request plan d stage parent := by
  obtain ⟨d, _, loaded, run⟩ := bind_ok.mp run
  obtain ⟨_, _, synced, run⟩ := bind_ok.mp run
  cases lead : Text.after? webserverStageLead request.stage with
  | none =>
      simp only [lead] at run
      obtain ⟨kind, _, _, run⟩ := bind_ok.mp run
      exact .inl ⟨Kind.plan_source (mapError_ok.mp run), Text.after?_eq_none.mp lead⟩
  | some stage =>
      simp only [lead] at run
      obtain ⟨kind, _, found, run⟩ := bind_ok.mp run
      obtain ⟨known, embeds⟩ := findEmbedding_ok.mp (ofExcept_ok.mp found).1
      obtain ⟨parent, _, planned, run⟩ := bind_ok.mp run
      have built := (kind.reads_plan _ _ _).answers (mapError_ok.mp planned)
      split at run
      next => exact (fail_ok.mp run).elim
      next isProduction =>
        obtain ⟨server, _, serverKnown, run⟩ := bind_ok.mp run
        obtain rfl := Kind.webserver_of_findKind (ofExcept_ok.mp serverKnown).1
        obtain ⟨bare, _, planned, run⟩ := bind_ok.mp run
        obtain ⟨rfl, _⟩ := pure_ok.mp run
        have bare_source := Kind.plan_source (mapError_ok.mp planned)
        have own := (ofExcept_ok.mp (mapError_ok.mp (mapError_ok.mp planned))).1
        refine .inr ⟨d, stage, parent, loadDefinition_ok loaded, (ofExcept_ok.mp synced).1,
          Text.after?_eq_some.mp lead, embeds, ⟨kind, known, built⟩, by simpa using isProduction,
          ?_, rfl⟩
        rw [own, BuildPlan.withSource_unsourced bare_source]

/-- The stage that a webserver is built on has the same plan by its own name, unless
that name would be a webserver's as well. -/
theorem BuiltOn.answers {stage : String} {parent : BuildPlan}
    (built : BuiltOn world request plan d stage parent)
    (plain : Text.startsWith webserverStageLead stage = false) :
    Answers (Build.plan Kind.registry world { request with stage }) (.ok parent) := by
  obtain ⟨kind, known, planned⟩ := built.planned
  exact answers_plan (built.loads.withStage stage) built.inSync (Text.after?_eq_none.mpr plain)
    known planned

/-- What planning a webserver comes to, once the stage it is built on is planned. -/
def webserverOn (stage : String) (parent : BuildPlan) (server : Except Webserver.Error BuildPlan) :
    Except BuildError BuildPlan :=
  if parent.isDev then .error (.webserverFromDev stage)
  else match server with
    | .ok plan => .ok (plan.withSource parent)
    | .error error => .error (.kind (.webserver error))

theorem webserverOn_isOk (stage : String) {parent : BuildPlan}
    (server : Except Webserver.Error BuildPlan) (isProduction : parent.isDev = false) :
    (∃ plan, webserverOn stage parent server = .ok plan) ↔ ∃ plan, server = .ok plan := by
  cases server <;> simp [webserverOn, isProduction]

theorem answers_webserver {kind : Kind} {stage : String} {parent : BuildPlan}
    (loads : Loads world.backend request d) (inSync : checkLockSync d = .ok ())
    (known : findKind Kind.registry d.kind = .ok kind)
    (embeds : Kind.registry.embedsWebserver d.kind = true)
    (planned : Answers (kind.plan world { request with stage } d) (.ok parent)) :
    Answers (Build.plan Kind.registry world
        { request with stage := webserverStageLead ++ stage })
      (webserverOn stage parent
        (Webserver.plan { request with stage := Webserver.kind } d.webserver)) := by
  refine answers_bind (answers_loadDefinition (loads.withStage _)) ?_
  refine answers_bind (answers_ofExcept inSync) ?_
  simp only [Text.after?_eq_some.mpr rfl, webserverOn]
  refine answers_bind (answers_ofExcept (findEmbedding_ok.mpr ⟨known, embeds⟩)) ?_
  refine answers_bind (answers_mapError BuildError.kind planned) ?_
  split
  next => exact answers_fail _
  next =>
    have registered : findKind Kind.registry Webserver.kind = .ok .webserver :=
      Kind.findKind_iff.mpr rfl
    refine answers_bind (answers_ofExcept registered) ?_
    have server (answer : Except Webserver.Error BuildPlan)
        (outcome : Webserver.plan { request with stage := Webserver.kind } d.webserver = answer) :=
      answers_mapError BuildError.kind
        (answers_mapError KindError.webserver (answers_ofExcept outcome))
    split
    next bare outcome => exact answers_bind (server _ outcome) (answers_pure _)
    next error outcome => exact answers_bind_error (server _ outcome)

/-- What a plan says of its definition and of the locks. -/
theorem plan_ok_plain {stage : String} {parent : BuildPlan}
    (plain : Text.startsWith webserverStageLead stage = false)
    (run : (Build.plan Kind.registry world { request with stage }).after first =
      (.ok parent, last)) :
    ∃ d kind, Loads world.backend request d ∧ checkLockSync d = .ok () ∧
      findKind Kind.registry d.kind = .ok kind ∧
      Answers (kind.plan world { request with stage } d) (.ok parent) := by
  obtain ⟨d, _, loaded, run⟩ := bind_ok.mp run
  obtain ⟨_, _, synced, run⟩ := bind_ok.mp run
  simp only [Text.after?_eq_none.mpr plain] at run
  obtain ⟨kind, _, known, run⟩ := bind_ok.mp run
  exact ⟨d, kind, (loadDefinition_ok loaded).withStage request.stage, (ofExcept_ok.mp synced).1,
    (ofExcept_ok.mp known).1, (kind.reads_plan _ _ _).answers (mapError_ok.mp run)⟩

/-- A plan that copies from another one is that of a webserver, made of the nested
definition and the nested locks, and what it copies from is a production plan of
the stage that its name is made of. A stage whose name is not a webserver's has a
webserver built on it unless it is for development, and then exactly if the nested
definition and locks can be decoded and name an image. -/
theorem webserver_plans (world : World) (request : Request) (first : Trail) :
    (∀ plan source last,
      (Build.plan Kind.registry world request).after first = (.ok plan, last) →
      plan.source = some source →
      ∃ d stage kind, Loads world.backend request d ∧
        request.stage = webserverStageLead ++ stage ∧
        findKind Kind.registry d.kind = .ok kind ∧
        Kind.registry.embedsWebserver d.kind = true ∧
        source.isDev = false ∧ source.source = none ∧
        Answers (kind.plan world { request with stage } d) (.ok source) ∧
        (Text.startsWith webserverStageLead stage = false →
          Answers (Build.plan Kind.registry world { request with stage }) (.ok source)) ∧
        Webserver.plan { request with stage := Webserver.kind }
          ⟨Webserver.kind, Definition.nestedFields d.config Definition.webserverField,
            Definition.nestedFields d.locks Definition.webserverField⟩ =
          .ok { plan with source := none }) ∧
    (∀ d stage parent last, Text.startsWith webserverStageLead stage = false →
      (Build.plan Kind.registry world { request with stage }).after first = (.ok parent, last) →
      Loads world.backend request d → Kind.registry.embedsWebserver d.kind = true →
      (parent.isDev = true →
        Answers (Build.plan Kind.registry world
          { request with stage := webserverStageLead ++ stage })
          (.error (.webserverFromDev stage))) ∧
      (parent.isDev = false →
        ((∃ plan, Answers (Build.plan Kind.registry world
            { request with stage := webserverStageLead ++ stage }) (.ok plan)) ↔
          (∃ server, Definition.decode "webserver definition" Webserver.Definition.read
            (Definition.nestedFields d.config Definition.webserverField) = .ok server) ∧
          ∃ locks, Definition.decodeLocks Webserver.Locks.read Webserver.Locks.empty
            (Definition.nestedFields d.locks Definition.webserverField) = .ok locks ∧
            locks.image ≠ ""))) := by
  constructor
  · intro plan source last run copies
    rcases plan_cases run with ⟨unsourced, _⟩ | ⟨d, stage, parent, built⟩
    · rw [unsourced] at copies
      cases copies
    · obtain rfl : parent = source := Option.some.inj (built.source.symm.trans copies)
      obtain ⟨kind, known, planned⟩ := built.planned
      obtain ⟨_, ran⟩ := planned.run first
      exact ⟨d, stage, kind, built.loads, built.named, known, built.embeds, built.isProduction,
        Kind.plan_source ran, planned, built.answers, built.server⟩
  · intro d stage parent last plain run loads embeds
    obtain ⟨d', kind, loads', inSync, known, planned⟩ := plan_ok_plain plain run
    obtain rfl := loads.unique loads'
    have answers := answers_webserver loads inSync known embeds planned
    constructor
    · intro isDev
      simpa [webserverOn, isDev] using answers
    · intro isProduction
      have isOk := webserverOn_isOk stage
        (Webserver.plan { request with stage := Webserver.kind } d.webserver) isProduction
      refine Iff.trans ?_ (isOk.trans Webserver.plan_isOk)
      constructor
      · rintro ⟨plan, known⟩
        exact ⟨plan, answers.unique known⟩
      · rintro ⟨plan, outcome⟩
        exact ⟨plan, outcome ▸ answers⟩

end Build

/-! A site that is served. -/

namespace Machine

def site : String := "kind: nodejs\nwebserver:\n  type: nginx\n"

def siteLocks : String :=
  "stages: \x7bprod: , dev: \x7d\nwebserver:\n  base_image: n@sha256:s\n" ++
    "defhash: f983a9a9af0f4c3b2ec061d40c30423febb1889e69158fdce83e64dad59461fb\n"

/-- The site and its lock file. -/
def served : Disk :=
  (project "zbuild.yml" site).write "/src/zbuild.lock" siteLocks.toUTF8

def stageOf (stage : String) : Request := { prodOf "zbuild.yml" with stage }

/-- What the site is served with. -/
def server : Webserver.Definition := ⟨.nginx, .ofList [("curl", "*")], none, true, []⟩

/-- Whether a stage of the site has a plan that passes a check. -/
def plansServed (d : Definition) (stage : String) (check : BuildPlan → Bool) : Bool :=
  ((Kind.nodeJs.plan (alpine.world served) (stageOf stage) d).runFrom .empty).1.toOption.any check

/-- Whether the site is in sync, with a plan for either stage and for its webserver. -/
def isServed (d : Definition) : Bool :=
  (checkLockSync d).toOption.isSome && d.kind == NodeJs.kind &&
    plansServed d "prod" (!·.isDev) && plansServed d "dev" (·.isDev) &&
    (Webserver.Definition.ofDefinition d.webserver).toOption.any fun own =>
      own.1 == server && !own.2.image.isEmpty

/-- The plans of the site and of its webserver. -/
structure Plans (d : Definition) (prod dev bare : BuildPlan) : Prop where
  loads : Loads (alpine.world served).backend (stageOf "webserver-prod") d
  embeds : Kind.registry.embedsWebserver d.kind = true
  ofProd : Answers (Build.plan Kind.registry (alpine.world served) (stageOf "prod")) (.ok prod)
  ofDev : Answers (Build.plan Kind.registry (alpine.world served) (stageOf "dev")) (.ok dev)
  ofServer : Answers (Build.plan Kind.registry (alpine.world served) (stageOf "webserver-prod"))
    (.ok (bare.withSource prod))
  isProduction : prod.isDev = false
  isDev : dev.isDev = true

theorem answers_of_plansServed {stage : String} {check : BuildPlan → Bool}
    (passes : plansServed d stage check = true) :
    ∃ plan, Answers (Kind.nodeJs.plan (alpine.world served) (stageOf stage) d) (.ok plan) ∧
      check plan = true := by
  obtain ⟨plan, planned, checked⟩ := exists_of_any passes
  exact ⟨plan, (Kind.nodeJs.reads_plan _ _ _).answers planned, checked⟩

theorem plans_served : ∃ d prod dev bare, Plans d prod dev bare ∧
    ∃ locks, Webserver.Definition.ofDefinition d.webserver = .ok (server, locks) := by
  have opens : ((load (alpine.world served).backend (stageOf "webserver-prod")).runFrom
      .empty).1.toOption.any isServed = true := by decide +kernel
  obtain ⟨d, loaded, checked⟩ := exists_of_any opens
  have loads := loads_of_ok loaded
  simp only [isServed, Bool.and_eq_true, beq_iff_eq] at checked
  obtain ⟨⟨⟨⟨synced, isNodeJs⟩, forProd⟩, forDev⟩, forServer⟩ := checked
  have inSync : checkLockSync d = .ok () := by
    obtain ⟨_, synced⟩ := Option.isSome_iff_exists.mp synced
    exact eq_ok_of_toOption synced
  have known : Build.findKind Kind.registry d.kind = .ok .nodeJs :=
    Kind.findKind_iff.mpr isNodeJs
  have embeds : Kind.registry.embedsWebserver d.kind = true := by
    rw [isNodeJs]
    rfl
  obtain ⟨prod, planned, isProduction⟩ := answers_of_plansServed forProd
  have isProduction : prod.isDev = false := by simpa using isProduction
  obtain ⟨dev, plannedDev, isDev⟩ := answers_of_plansServed forDev
  obtain ⟨⟨own, locks⟩, decoded, matched⟩ := (Option.any_eq_true ..).mp forServer
  obtain ⟨rfl, filled⟩ : own = server ∧ locks.image ≠ "" := by simpa using matched
  have decoded := eq_ok_of_toOption decoded
  have made : Webserver.plan { stageOf "webserver-prod" with stage := Webserver.kind }
      d.webserver = .ok _ := Webserver.plan_ok.mpr ⟨server, locks, decoded, filled, rfl⟩
  have plans := Build.answers_webserver loads inSync known embeds planned
  rw [made] at plans
  simp only [Build.webserverOn, isProduction, Bool.false_eq_true, if_false] at plans
  refine ⟨d, prod, dev, _, ⟨loads, embeds, ?_, ?_, plans, isProduction, isDev⟩, locks, decoded⟩
  · exact Build.answers_plan (loads.withStage "prod") inSync (by decide) known planned
  · exact Build.answers_plan (loads.withStage "dev") inSync (by decide) known plannedDev

/-- A webserver is built on the production stage of the site, and on no other. -/
theorem webserver_plans_served :
    ∃ plan source, Answers (Build.plan Kind.registry (alpine.world served)
        (stageOf "webserver-prod")) (.ok plan) ∧
      plan.source = some source ∧ source.isDev = false ∧
      Answers (Build.plan Kind.registry (alpine.world served) (stageOf "prod")) (.ok source) ∧
      Answers (Build.plan Kind.registry (alpine.world served) (stageOf "webserver-dev"))
        (.error (.webserverFromDev "dev")) := by
  obtain ⟨d, prod, dev, bare, plans, _⟩ := plans_served
  obtain ⟨_, ran⟩ := plans.ofServer.run (.start .empty)
  obtain ⟨_, stage, _, _, named, _, _, isProduction, _, _, built, _⟩ :=
    (Build.webserver_plans (alpine.world served) (stageOf "webserver-prod") (.start .empty)).1
      (bare.withSource prod) prod _ ran rfl
  obtain rfl : "prod" = stage := by
    refine Option.some.inj (Eq.trans ?_ (Text.after?_eq_some.mpr named))
    decide
  obtain ⟨_, ranDev⟩ := plans.ofDev.run (.start .empty)
  obtain ⟨refused, _⟩ :=
    (Build.webserver_plans (alpine.world served) (stageOf "webserver-prod") (.start .empty)).2 d
      "dev" dev _ (by decide) ranDev plans.loads plans.embeds
  exact ⟨_, prod, plans.ofServer, rfl, isProduction, built (by decide), refused plans.isDev⟩

end Machine
end ImageLock
