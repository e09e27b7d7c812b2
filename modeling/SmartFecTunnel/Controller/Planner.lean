import SmartFecTunnel.Controller.Product
import SmartFecTunnel.Library.IpNetwork

/-!
Contract: the planner of the product controller (`Planner` in controller.rs) and the command
that prints a plan (`bin/smart-gateway-controller.rs`).

A plan names the modules and the ports that a deployment needs, and the ports that are taken.
Nothing is changed.

Owns: `build` with what a plan says and which error there is instead of one, and the output of
the command.

Does not own: the revision that a plan ends in, and reading the arguments of the command.
-/

namespace SmartFecTunnel.Controller

open SmartFecTunnel.Library

inductive TransportProtocol where
  | tcp
  | udp
deriving DecidableEq, Repr

structure PortBinding where
  address : IpAddress
  port : UInt16
  protocol : TransportProtocol
  owner : String
deriving DecidableEq

/-- `current_owner` is for diagnostics only. -/
structure PortConflict where
  requested : PortBinding
  currentOwner : Option String
deriving DecidableEq

inductive PlanAction where
  | enableModule (module : ModuleId)
  | bindPort (binding : PortBinding)
  | stageRevision
  | validateCandidate
  | commitRevision
deriving DecidableEq

structure DeploymentPlan where
  schemaVersion : UInt32
  modules : Finset ModuleId
  actions : List PlanAction
  conflicts : List PortConflict

/-- `ε` is an I/O error. -/
inductive PlanError (ε : Type) where
  | config (error : ConfigError)
  | probe (error : ε)
deriving DecidableEq

/-- `PortProbe::conflict`. -/
abbrev PortProbe (ε : Type) := PortBinding → Except ε (Option PortConflict)

/-- `Ipv4Addr::UNSPECIFIED`. -/
def unspecified : IpAddress := ⟨.v4, 0, by decide⟩

def requestedBindings (config : ProductConfig) (modules : Finset ModuleId) : List PortBinding :=
  (if .tuic ∈ modules ∨ .masque ∈ modules then
    [⟨unspecified, config.server.publicUdpPort, .udp, "smart-gateway-transport"⟩] else []) ++
  [⟨unspecified, config.server.publicTcpPort, .tcp, "smart-gateway-public"⟩]

/-- The conflicts of the bindings in turn. -/
def conflicts {ε : Type} (probe : PortProbe ε) : List PortBinding → Except ε (List PortConflict)
  | [] => .ok []
  | binding :: bindings => do
    let conflict ← probe binding
    let rest ← conflicts probe bindings
    return conflict.toList ++ rest

def build {ε : Type} (probe : PortProbe ε) (config : ProductConfig) :
    Except (PlanError ε) DeploymentPlan := do
  let modules ← config.resolveModules.mapError .config
  let bindings := requestedBindings config modules
  let found ← (conflicts probe bindings).mapError .probe
  return ⟨config.schemaVersion, modules,
    (ascending modules).map .enableModule ++ bindings.map .bindPort ++
      [.stageRevision, .validateCandidate, .commitRevision],
    found⟩

/-! ### The command -/

/-- The arguments; the profile is named by its own type there. -/
structure Cli where
  profile : Profile
  bandwidthMbps : UInt32
  tcpPort : UInt16
  udpPort : UInt16

def Cli.config (cli : Cli) : ProductConfig :=
  { ProductConfig.forProfile cli.profile with
    server := ⟨cli.bandwidthMbps, cli.tcpPort, cli.udpPort⟩ }

inductive BindError (ε : Type) where
  | addrInUse
  | other (error : ε)

/-- `SocketProbe`: a port is tried by binding it. -/
def socketProbe {ε : Type} (bind : PortBinding → Except (BindError ε) Unit) : PortProbe ε :=
  fun requested =>
    match bind requested with
    | .ok () => .ok none
    | .error .addrInUse => .ok (some ⟨requested, none⟩)
    | .error (.other error) => .error error

/-- What the command fails with. -/
inductive MainError (ε : Type) where
  | plan (error : PlanError ε)
  | conflicts (count : Nat)

def MainError.message {ε : Type} (describe : PlanError ε → String) : MainError ε → String
  | .plan error => describe error
  | .conflicts count => "deployment plan has " ++ toString count ++ " port conflict(s)"

def Profile.debug : Profile → String
  | .standard => "Standard"
  | .enhanced => "Enhanced"
  | .lowResource => "LowResource"
  | .laboratory => "Laboratory"

def ModuleId.debug : ModuleId → String
  | .tuic => "Tuic"
  | .masque => "Masque"
  | .adaptiveFec => "AdaptiveFec"
  | .pmtu => "Pmtu"
  | .directEgress => "DirectEgress"
  | .multiWarp => "MultiWarp"
  | .stableGoogleEgress => "StableGoogleEgress"
  | .dnsDoh => "DnsDoh"
  | .dnsDotFallback => "DnsDotFallback"
  | .dnsDoq => "DnsDoq"
  | .observability => "Observability"
  | .automaticRollback => "AutomaticRollback"

def TransportProtocol.debug : TransportProtocol → String
  | .tcp => "Tcp"
  | .udp => "Udp"

/-- The address is the unspecified one in every binding. -/
def PortBinding.line (label : String) (binding : PortBinding) : String :=
  label ++ "=" ++ binding.protocol.debug ++ "/0.0.0.0:" ++ toString binding.port

def PlanAction.line? : PlanAction → Option String
  | .bindPort binding => some (binding.line "bind")
  | _ => none

def statusLine : String := "status=validated-plan-no-changes-applied"

/-- The lines of both streams, and the result. -/
structure Report (ε : Type) where
  stdout : List String
  stderr : List String
  result : Except (MainError ε) Unit

def main {ε : Type} (bind : PortBinding → Except (BindError ε) Unit) (cli : Cli) : Report ε :=
  match build (socketProbe bind) cli.config with
  | .error error => ⟨[], [], .error (.plan error)⟩
  | .ok plan =>
    let lines :=
      ["schema=" ++ toString plan.schemaVersion ++ " profile=" ++ cli.profile.debug,
        "modules=\x7b" ++ ", ".intercalate ((ascending plan.modules).map ModuleId.debug) ++ "\x7d"]
      ++ plan.actions.filterMap PlanAction.line?
    if plan.conflicts = [] then ⟨lines ++ [statusLine], [], .ok ()⟩
    else
      ⟨lines, plan.conflicts.map fun conflict => conflict.requested.line "conflict",
        .error (.conflicts plan.conflicts.length)⟩

/-! ### What a plan is -/

section Meaning

variable {ε : Type}

/-- The selected modules, in their order. -/
structure Enables (config : ProductConfig) (modules : List ModuleId) : Prop where
  ordered : modules.Sublist ModuleId.all
  selected : ∀ module, module ∈ modules ↔ config.Selects module

/-- A transport takes the UDP port, and the TCP port is taken always. -/
inductive Binds (config : ProductConfig) : List PortBinding → Prop where
  | transport (selects : config.Selects .tuic ∨ config.Selects .masque) :
      Binds config
        [⟨unspecified, config.server.publicUdpPort, .udp, "smart-gateway-transport"⟩,
          ⟨unspecified, config.server.publicTcpPort, .tcp, "smart-gateway-public"⟩]
  | noTransport (selects : ¬ (config.Selects .tuic ∨ config.Selects .masque)) :
      Binds config [⟨unspecified, config.server.publicTcpPort, .tcp, "smart-gateway-public"⟩]

structure Planned (probe : PortProbe ε) (config : ProductConfig) (enabled : List ModuleId)
    (bindings : List PortBinding) (plan : DeploymentPlan) : Prop where
  consistent : config.Consistent
  schema : plan.schemaVersion = currentSchemaVersion
  modules : ∀ module, module ∈ plan.modules ↔ config.Selects module
  enables : Enables config enabled
  binds : Binds config bindings
  actions : plan.actions = enabled.map .enableModule ++ bindings.map .bindPort ++
    [.stageRevision, .validateCandidate, .commitRevision]
  answered : ∀ binding ∈ bindings, ∃ answer, probe binding = .ok answer
  conflicts : plan.conflicts = bindings.filterMap fun binding => (probe binding).toOption.join

/-- What the planner answers: a plan, the first error of the configuration, or the first failure
of the probe. -/
def Answers (probe : PortProbe ε) (config : ProductConfig) :
    Except (PlanError ε) DeploymentPlan → Prop
  | .ok plan => ∃ enabled bindings, Planned probe config enabled bindings plan
  | .error (.config error) => config.Violates error ∧
      ∀ other, config.Violates other → ProductConfig.rank error ≤ ProductConfig.rank other
  | .error (.probe error) => config.Consistent ∧ ∃ front binding back,
      Binds config (front ++ binding :: back) ∧
      (∀ earlier ∈ front, ∃ answer, probe earlier = .ok answer) ∧ probe binding = .error error

end Meaning

variable {ε : Type}

theorem enables_iff {config : ProductConfig} {modules : List ModuleId} :
    Enables config modules ↔ modules = ascending config.selected := by
  have distinct : ModuleId.all.Nodup := by decide
  have fewer : (ascending config.selected).Sublist ModuleId.all := List.filter_sublist
  constructor
  · intro enables
    refine (distinct.perm_iff_eq_of_sublist enables.ordered fewer).mp ?_
    rw [List.perm_ext_iff_of_nodup (distinct.sublist enables.ordered) (distinct.sublist fewer)]
    intro module
    rw [enables.selected, mem_ascending, ProductConfig.mem_selected]
  · rintro rfl
    refine ⟨fewer, fun module => ?_⟩
    rw [mem_ascending, ProductConfig.mem_selected]

/-- The bindings of the modules that are selected. -/
def bindings (config : ProductConfig) : List PortBinding :=
  requestedBindings config config.selected

theorem binds_iff {config : ProductConfig} {list : List PortBinding} :
    Binds config list ↔ list = bindings config := by
  have same : ModuleId.tuic ∈ config.selected ∨ ModuleId.masque ∈ config.selected ↔
      config.Selects .tuic ∨ config.Selects .masque :=
    or_congr ProductConfig.mem_selected ProductConfig.mem_selected
  rw [bindings, requestedBindings]
  constructor
  · intro binds
    cases binds with
    | transport selects => rw [if_pos (same.mpr selects)]; rfl
    | noTransport selects => rw [if_neg fun chosen => selects (same.mp chosen)]; rfl
  · rintro rfl
    split
    next chosen => exact .transport (same.mp chosen)
    next chosen => exact .noTransport fun selects => chosen (same.mpr selects)

theorem conflicts_eq_ok_iff {probe : PortProbe ε} {list : List PortBinding}
    {found : List PortConflict} :
    conflicts probe list = .ok found ↔
      (∀ binding ∈ list, ∃ answer, probe binding = .ok answer) ∧
      found = list.filterMap fun binding => (probe binding).toOption.join := by
  induction list generalizing found with
  | nil => simp [conflicts, eq_comm]
  | cons binding rest inductionHypothesis =>
      rw [conflicts, List.forall_mem_cons, bind_eq_ok_iff]
      constructor
      · intro ⟨answer, isAnswer, isRest⟩
        obtain ⟨others, isOthers, isFound⟩ := bind_eq_ok_iff.mp isRest
        cases isFound
        have ⟨answered, same⟩ := inductionHypothesis.mp isOthers
        refine ⟨⟨⟨answer, isAnswer⟩, answered⟩, ?_⟩
        rw [same]
        cases answer with
        | none => rw [List.filterMap_cons_none (by rw [isAnswer]; rfl)]; rfl
        | some conflict => rw [List.filterMap_cons_some (by rw [isAnswer]; rfl)]; rfl
      · intro ⟨⟨⟨answer, isAnswer⟩, answered⟩, same⟩
        refine ⟨answer, isAnswer, bind_eq_ok_iff.mpr ⟨_, inductionHypothesis.mpr ⟨answered, rfl⟩, ?_⟩⟩
        rw [same]
        cases answer with
        | none => rw [List.filterMap_cons_none (by rw [isAnswer]; rfl)]; rfl
        | some conflict => rw [List.filterMap_cons_some (by rw [isAnswer]; rfl)]; rfl

theorem conflicts_eq_error_iff {probe : PortProbe ε} {list : List PortBinding} {error : ε} :
    conflicts probe list = .error error ↔ ∃ front binding back, list = front ++ binding :: back ∧
      (∀ earlier ∈ front, ∃ answer, probe earlier = .ok answer) ∧ probe binding = .error error := by
  induction list with
  | nil =>
      constructor
      · nofun
      · intro ⟨front, binding, back, isList, _⟩
        cases front <;> cases isList
  | cons first rest inductionHypothesis =>
      rw [conflicts, bind_eq_error_iff]
      constructor
      · rintro (isError | ⟨answer, isAnswer, isRest⟩)
        · exact ⟨[], first, rest, rfl, fun _ member => absurd member List.not_mem_nil, isError⟩
        · rcases bind_eq_error_iff.mp isRest with isLater | ⟨_, _, impossible⟩
          · obtain ⟨front, binding, back, isList, answered, isError⟩ :=
              inductionHypothesis.mp isLater
            exact ⟨first :: front, binding, back, congrArg _ isList,
              List.forall_mem_cons.mpr ⟨⟨answer, isAnswer⟩, answered⟩, isError⟩
          · cases impossible
      · intro ⟨front, binding, back, isList, answered, isError⟩
        cases front with
        | nil =>
            cases isList
            exact .inl isError
        | cons head front =>
            obtain ⟨rfl, isRest⟩ := List.cons.inj isList
            obtain ⟨⟨answer, isAnswer⟩, others⟩ := List.forall_mem_cons.mp answered
            have isLater := inductionHypothesis.mpr ⟨front, binding, back, isRest, others, isError⟩
            exact .inr ⟨answer, isAnswer, bind_eq_error_iff.mpr (.inl isLater)⟩

theorem build_of_error {probe : PortProbe ε} {config : ProductConfig} {error : ConfigError}
    (isError : config.resolveModules = .error error) :
    build probe config = .error (.config error) := by
  rw [build, isError]
  rfl

/-- The plan for these modules. -/
def planFor (config : ProductConfig) (found : List PortConflict) : DeploymentPlan :=
  ⟨config.schemaVersion, config.selected,
    (ascending config.selected).map .enableModule ++ (bindings config).map .bindPort ++
      [.stageRevision, .validateCandidate, .commitRevision],
    found⟩

theorem build_of_ok {probe : PortProbe ε} {config : ProductConfig}
    (isResolved : config.resolveModules = .ok config.selected) :
    build probe config =
      ((conflicts probe (bindings config)).mapError .probe).map (planFor config) := by
  rw [build, isResolved, map_eq_bind]
  rfl

theorem planned_iff {probe : PortProbe ε} {config : ProductConfig} (consistent : config.Consistent)
    {plan : DeploymentPlan} :
    (∃ enabled bindings, Planned probe config enabled bindings plan) ↔
      ∃ found, conflicts probe (bindings config) = .ok found ∧ planFor config found = plan := by
  simp only [conflicts_eq_ok_iff]
  constructor
  · rintro ⟨enabled, list, planned⟩
    obtain ⟨schemaVersion, modules, actions, found⟩ := plan
    have sameModules : modules = config.selected := by
      ext module
      rw [ProductConfig.mem_selected]
      exact planned.modules module
    have sameActions := planned.actions
    have sameSchema := planned.schema.trans consistent.schema.symm
    have sameBindings := binds_iff.mp planned.binds
    dsimp only at sameActions sameSchema
    rw [enables_iff.mp planned.enables, sameBindings] at sameActions
    refine ⟨found, sameBindings ▸ ⟨planned.answered, planned.conflicts⟩, ?_⟩
    rw [planFor, sameModules, sameActions, sameSchema]
  · rintro ⟨found, ⟨answered, isFound⟩, rfl⟩
    exact ⟨_, _, consistent, consistent.schema, fun _ => ProductConfig.mem_selected,
      enables_iff.mpr rfl, binds_iff.mpr rfl, rfl, answered, isFound⟩

/-- The planner answers every configuration, with any probe, in exactly one way: a consistent one
with a plan, unless the probe fails, and any other with the first of its errors. -/
theorem build_eq_iff (probe : PortProbe ε) (config : ProductConfig)
    (outcome : Except (PlanError ε) DeploymentPlan) :
    build probe config = outcome ↔ Answers probe config outcome := by
  cases isResolved : config.resolveModules with
  | error error =>
      have inconsistent : ¬ config.Consistent := by
        intro consistent
        have := ProductConfig.resolveModules_eq_ok_iff.mpr ⟨consistent, rfl⟩
        cases isResolved.symm.trans this
      rw [build_of_error isResolved]
      match outcome with
      | .ok plan =>
          exact ⟨nofun, fun ⟨_, _, planned⟩ => absurd planned.consistent inconsistent⟩
      | .error (.probe _) => exact ⟨nofun, fun answers => absurd answers.1 inconsistent⟩
      | .error (.config other) =>
          have isFirst := @ProductConfig.resolveModules_eq_error_iff config other
          rw [isResolved] at isFirst
          change _ ↔ config.Violates other ∧ _
          rw [← isFirst]
          simp only [Except.error.injEq, PlanError.config.injEq]
  | ok modules =>
      obtain ⟨consistent, rfl⟩ := ProductConfig.resolveModules_eq_ok_iff.mp isResolved
      rw [build_of_ok isResolved]
      match outcome with
      | .ok plan =>
          change _ ↔ ∃ enabled bindings, Planned probe config enabled bindings plan
          rw [planned_iff consistent]
          cases conflicts probe (bindings config) with
          | error error => simp [Except.mapError, Except.map]
          | ok found => simp [Except.mapError, Except.map]
      | .error (.probe error) =>
          change _ ↔ config.Consistent ∧ _
          simp only [binds_iff, @eq_comm _ _ (bindings config)]
          rw [← conflicts_eq_error_iff]
          cases conflicts probe (bindings config) with
          | error other => simp [Except.mapError, Except.map, consistent]
          | ok found => simp [Except.mapError, Except.map]
      | .error (.config error) =>
          have sound := ProductConfig.consistent_iff.mp consistent error
          change _ ↔ config.Violates error ∧ _
          cases conflicts probe (bindings config) with
          | error other => simp [Except.mapError, Except.map, sound]
          | ok found => simp [Except.mapError, Except.map, sound]

/-! ### What the command says -/

/-- The profiles are consistent, so only the server's own numbers can be wrong. -/
theorem consistent_cli (cli : Cli) :
    cli.config.Consistent ↔ cli.bandwidthMbps ≠ 0 ∧ cli.tcpPort ≠ 0 ∧ cli.udpPort ≠ 0 := by
  constructor
  · exact fun consistent => ⟨consistent.bandwidth, consistent.tcpPort, consistent.udpPort⟩
  · intro ⟨bandwidth, tcpPort, udpPort⟩
    have profile := ProductConfig.consistent_forProfile cli.profile
    exact ⟨rfl, bandwidth, tcpPort, udpPort, profile.oneTransport, profile.stable,
      profile.complete⟩

/-- A port is free if it can be bound. -/
theorem socketProbe_free {bind : PortBinding → Except (BindError ε) Unit} {binding : PortBinding} :
    socketProbe bind binding = .ok none ↔ bind binding = .ok () := by
  unfold socketProbe
  split
  next free => simp [free]
  next taken => simp [taken]
  next error failed => simp [failed]

theorem no_conflicts_iff {probe : PortProbe ε} {list : List PortBinding}
    (answered : ∀ binding ∈ list, ∃ answer, probe binding = .ok answer) :
    (list.filterMap fun binding => (probe binding).toOption.join) = [] ↔
      ∀ binding ∈ list, probe binding = .ok none := by
  rw [List.filterMap_eq_nil_iff]
  constructor
  · intro noConflict binding member
    obtain ⟨answer, isAnswer⟩ := answered binding member
    have isNone := noConflict binding member
    rw [isAnswer] at isNone ⊢
    cases answer with
    | none => rfl
    | some conflict => cases isNone
  · intro free binding member
    rw [free binding member]
    rfl

/-- Every profile selects a transport. -/
theorem binds_cli (cli : Cli) : Binds cli.config
    [⟨unspecified, cli.udpPort, .udp, "smart-gateway-transport"⟩,
      ⟨unspecified, cli.tcpPort, .tcp, "smart-gateway-public"⟩] := by
  have selects : ∀ profile, ModuleId.tuic ∈ profileDefaults profile ∨
      ModuleId.masque ∈ profileDefaults profile := by
    intro profile
    cases profile <;> decide
  exact .transport (selects cli.profile)

/-- The command reports a validated plan exactly when the numbers of the server are not zero and
both of its ports are free. -/
theorem main_validated_iff (bind : PortBinding → Except (BindError ε) Unit) (cli : Cli) :
    (main bind cli).result = .ok () ↔
      (cli.bandwidthMbps ≠ 0 ∧ cli.tcpPort ≠ 0 ∧ cli.udpPort ≠ 0) ∧
        bind ⟨unspecified, cli.udpPort, .udp, "smart-gateway-transport"⟩ = .ok () ∧
        bind ⟨unspecified, cli.tcpPort, .tcp, "smart-gateway-public"⟩ = .ok () := by
  have isPlan : (main bind cli).result = .ok () ↔
      ∃ plan, build (socketProbe bind) cli.config = .ok plan ∧ plan.conflicts = [] := by
    unfold main
    split
    next error isError => simp [isError]
    next plan isBuilt =>
      split
      next none => simp [isBuilt, none]
      next some => simp [isBuilt, some]
  have isBindings := binds_iff.mp (binds_cli cli)
  have bothFree : (∀ binding ∈ bindings cli.config, socketProbe bind binding = .ok none) ↔
      bind ⟨unspecified, cli.udpPort, .udp, "smart-gateway-transport"⟩ = .ok () ∧
        bind ⟨unspecified, cli.tcpPort, .tcp, "smart-gateway-public"⟩ = .ok () := by
    simp only [← isBindings, List.forall_mem_cons, socketProbe_free, List.not_mem_nil,
      false_implies, implies_true, and_true]
  rw [isPlan, ← consistent_cli, ← bothFree]
  simp only [build_eq_iff]
  constructor
  · rintro ⟨plan, ⟨enabled, list, planned⟩, noConflict⟩
    rw [planned.conflicts, no_conflicts_iff planned.answered,
      binds_iff.mp planned.binds] at noConflict
    exact ⟨planned.consistent, noConflict⟩
  · intro ⟨consistent, free⟩
    have answered : ∀ binding ∈ bindings cli.config,
        ∃ answer, socketProbe bind binding = .ok answer :=
      fun binding member => ⟨none, free binding member⟩
    have found := conflicts_eq_ok_iff.mpr ⟨answered, rfl⟩
    exact ⟨_, (planned_iff consistent).mpr ⟨_, found, rfl⟩, (no_conflicts_iff answered).mpr free⟩

end SmartFecTunnel.Controller
