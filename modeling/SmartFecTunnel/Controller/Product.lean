import Mathlib.Data.Finset.Basic
import Mathlib.Data.List.Flatten
import Mathlib.Logic.Relation
import SmartFecTunnel.Library.FirstError

/-!
Contract: the product configuration (product_config.rs).

A profile selects modules, and the operator overrides single ones.  What is selected is checked
before it is used: the first error in a fixed order is the one reported.

Owns: `resolve_modules` with its checks, what is selected, and when a configuration is
consistent.

Does not own: how a configuration is read.
-/

namespace SmartFecTunnel.Controller

open SmartFecTunnel.Library

def currentSchemaVersion : UInt32 := 1

inductive Profile where
  | standard
  | enhanced
  | lowResource
  | laboratory
deriving DecidableEq, Repr

inductive ModuleId where
  | tuic
  | masque
  | adaptiveFec
  | pmtu
  | directEgress
  | multiWarp
  | stableGoogleEgress
  | dnsDoh
  | dnsDotFallback
  | dnsDoq
  | observability
  | automaticRollback
deriving DecidableEq, Repr

namespace ModuleId

/-- All modules, in their order. -/
def all : List ModuleId :=
  [tuic, masque, adaptiveFec, pmtu, directEgress, multiWarp, stableGoogleEgress, dnsDoh,
    dnsDotFallback, dnsDoq, observability, automaticRollback]

def dependencies : ModuleId → List ModuleId
  | adaptiveFec => [tuic, pmtu]
  | multiWarp => [directEgress]
  | stableGoogleEgress => [directEgress]
  | dnsDotFallback => [dnsDoh]
  | dnsDoq => [directEgress]
  | tuic | masque | pmtu | directEgress | dnsDoh | observability | automaticRollback => []

end ModuleId

inductive ModuleSetting where
  | enabled
  | disabled
  | auto
deriving DecidableEq, Repr

structure ServerConfig where
  bandwidthMbps : UInt32
  publicTcpPort : UInt16
  publicUdpPort : UInt16
deriving DecidableEq, Repr

/-- `modules` holds the explicit overrides. -/
structure ProductConfig where
  schemaVersion : UInt32
  profile : Profile
  server : ServerConfig
  modules : ModuleId → Option ModuleSetting

inductive ConfigError where
  | unsupportedSchema (found supported : UInt32)
  | zeroBandwidth
  | unsafePublicPort
  | missingDependency (module dependency : ModuleId)
  | conflictingTransports
  | experimentalModuleOutsideLaboratory (module : ModuleId)
deriving DecidableEq, Repr

def profileDefaults (profile : Profile) : Finset ModuleId :=
  match profile with
  | .standard =>
    {.tuic, .adaptiveFec, .pmtu, .directEgress, .dnsDoh, .dnsDotFallback, .observability,
      .automaticRollback}
  | .enhanced =>
    {.tuic, .adaptiveFec, .pmtu, .directEgress, .multiWarp, .stableGoogleEgress, .dnsDoh,
      .dnsDotFallback, .observability, .automaticRollback}
  | .lowResource => {.tuic, .adaptiveFec, .pmtu, .directEgress, .dnsDoh, .automaticRollback}
  | .laboratory =>
    {.masque, .pmtu, .directEgress, .dnsDoh, .dnsDoq, .observability, .automaticRollback}

/-- A set of modules in the order in which it is gone through. -/
def ascending (modules : Finset ModuleId) : List ModuleId :=
  ModuleId.all.filter fun module => module ∈ modules

theorem ModuleId.mem_all (module : ModuleId) : module ∈ all := by
  cases module <;> decide

theorem mem_ascending {modules : Finset ModuleId} {module : ModuleId} :
    module ∈ ascending modules ↔ module ∈ modules := by
  rw [ascending, List.mem_filter, decide_eq_true_iff]
  exact ⟨And.right, fun isMember => ⟨module.mem_all, isMember⟩⟩

namespace ProductConfig

def forProfile (profile : Profile) : ProductConfig :=
  ⟨currentSchemaVersion, profile, ⟨30, 443, 443⟩, fun _ => none⟩

/-- The overrides in the order in which they are gone through. -/
def overrides (config : ProductConfig) : List (ModuleId × ModuleSetting) :=
  ModuleId.all.filterMap fun module => (config.modules module).map fun setting => (module, setting)

def validateScalarFields (config : ProductConfig) : Except ConfigError Unit :=
  if config.schemaVersion ≠ currentSchemaVersion then
    .error (.unsupportedSchema config.schemaVersion currentSchemaVersion)
  else if config.server.bandwidthMbps = 0 then .error .zeroBandwidth
  else if config.server.publicTcpPort = 0 ∨ config.server.publicUdpPort = 0 then
    .error .unsafePublicPort
  else .ok ()

def override (resolved : Finset ModuleId) : ModuleId × ModuleSetting → Finset ModuleId
  | (module, .enabled) => insert module resolved
  | (module, .disabled) => resolved.erase module
  | (_, .auto) => resolved

def checkTransports (resolved : Finset ModuleId) : Except ConfigError Unit :=
  if .tuic ∈ resolved ∧ .masque ∈ resolved then .error .conflictingTransports else .ok ()

def checkExperimental (config : ProductConfig) (resolved : Finset ModuleId)
    (experimental : ModuleId) : Except ConfigError Unit :=
  if experimental ∈ resolved ∧ config.profile ≠ .laboratory then
    .error (.experimentalModuleOutsideLaboratory experimental)
  else .ok ()

def checkDependency (resolved : Finset ModuleId) (module dependency : ModuleId) :
    Except ConfigError Unit :=
  if dependency ∉ resolved then .error (.missingDependency module dependency) else .ok ()

def resolveModules (config : ProductConfig) : Except ConfigError (Finset ModuleId) := do
  config.validateScalarFields
  let resolved := config.overrides.foldl override (profileDefaults config.profile)
  checkTransports resolved
  forM [.masque, .dnsDoq] (config.checkExperimental resolved)
  forM (ascending resolved) fun module =>
    forM module.dependencies (checkDependency resolved module)
  return resolved

/-! ### What is selected -/

/-- A setting decides, or leaves the default. -/
def Decides (setting : Option ModuleSetting) (default : Prop) : Prop :=
  match setting with
  | some .enabled => True
  | some .disabled => False
  | _ => default

/-- The operator's override of a module, or the profile. -/
def Selects (config : ProductConfig) (module : ModuleId) : Prop :=
  Decides (config.modules module) (module ∈ profileDefaults config.profile)

/-- The modules behind all overrides. -/
def selected (config : ProductConfig) : Finset ModuleId :=
  config.overrides.foldl override (profileDefaults config.profile)

theorem mem_override (resolved : Finset ModuleId) (module other : ModuleId)
    (setting : ModuleSetting) :
    other ∈ override resolved (module, setting) ↔
      if other = module then Decides (some setting) (other ∈ resolved) else other ∈ resolved := by
  cases setting with
  | enabled =>
      rw [override, Finset.mem_insert]
      split
      next same => simp [Decides, same]
      next different => simp [different]
  | disabled =>
      rw [override, Finset.mem_erase]
      split
      next same => simp [Decides, same]
      next different => simp [different]
  | auto => simp [override, Decides]

/-- Overrides of different modules do not disturb each other. -/
theorem mem_foldl_override (config : ProductConfig) (module : ModuleId) {modules : List ModuleId}
    (distinct : modules.Nodup) (resolved : Finset ModuleId) :
    module ∈ (modules.filterMap fun module =>
        (config.modules module).map fun setting => (module, setting)).foldl override resolved ↔
      if module ∈ modules then Decides (config.modules module) (module ∈ resolved)
      else module ∈ resolved := by
  induction modules generalizing resolved with
  | nil => simp
  | cons first rest inductionHypothesis =>
      have ⟨fresh, distinctRest⟩ := List.nodup_cons.mp distinct
      cases isSetting : config.modules first with
      | none =>
          rw [List.filterMap_cons_none (by rw [isSetting]; rfl), inductionHypothesis distinctRest]
          by_cases same : module = first
          · rw [same, if_neg fresh, if_pos List.mem_cons_self, isSetting]
            exact Iff.rfl
          · simp only [List.mem_cons, same, false_or]
      | some setting =>
          rw [List.filterMap_cons_some (by rw [isSetting]; rfl), List.foldl_cons,
            inductionHypothesis distinctRest, mem_override]
          by_cases same : module = first
          · rw [same, if_neg fresh, if_pos rfl, if_pos List.mem_cons_self, isSetting]
          · simp only [List.mem_cons, same, false_or, if_false]

theorem mem_selected {config : ProductConfig} {module : ModuleId} :
    module ∈ config.selected ↔ config.Selects module := by
  have distinct : ModuleId.all.Nodup := by decide
  rw [selected, overrides, mem_foldl_override config module distinct, if_pos module.mem_all]
  exact Iff.rfl

/-! ### What is wrong with it -/

/-- One error, if there is cause for it. -/
def report (cause : Prop) [Decidable cause] (error : ConfigError) : List ConfigError :=
  if cause then [error] else []

theorem firstError_report (cause : Prop) [Decidable cause] (error : ConfigError) :
    firstError (report cause error) = if cause then .error error else .ok () := by
  unfold report
  split <;> rfl

theorem mem_report {cause : Prop} [Decidable cause] {error other : ConfigError} :
    other ∈ report cause error ↔ cause ∧ other = error := by
  unfold report
  split
  next holds => simp [holds]
  next fails => simp [fails]

theorem report_sublist (cause : Prop) [Decidable cause] (error : ConfigError) :
    (report cause error).Sublist [error] := by
  unfold report
  split
  next => exact List.Sublist.refl _
  next => exact List.nil_sublist _

def scalarViolations (config : ProductConfig) : List ConfigError :=
  report (config.schemaVersion ≠ currentSchemaVersion)
      (.unsupportedSchema config.schemaVersion currentSchemaVersion) ++
    (report (config.server.bandwidthMbps = 0) .zeroBandwidth ++
    report (config.server.publicTcpPort = 0 ∨ config.server.publicUdpPort = 0) .unsafePublicPort)

def transportViolations (resolved : Finset ModuleId) : List ConfigError :=
  report (.tuic ∈ resolved ∧ .masque ∈ resolved) .conflictingTransports

def experimentalViolations (config : ProductConfig) (resolved : Finset ModuleId) :
    List ConfigError :=
  [ModuleId.masque, .dnsDoq].flatMap fun experimental =>
    report (experimental ∈ resolved ∧ config.profile ≠ .laboratory)
      (.experimentalModuleOutsideLaboratory experimental)

def dependencyViolations (resolved : Finset ModuleId) : List ConfigError :=
  (ascending resolved).flatMap fun module =>
    module.dependencies.flatMap fun dependency =>
      report (dependency ∉ resolved) (.missingDependency module dependency)

/-- Everything that is wrong, in the order in which it is looked for. -/
def violations (config : ProductConfig) : List ConfigError :=
  config.scalarViolations ++ (transportViolations config.selected ++
    (config.experimentalViolations config.selected ++ dependencyViolations config.selected))

theorem validateScalarFields_eq (config : ProductConfig) :
    config.validateScalarFields = firstError config.scalarViolations := by
  rw [scalarViolations, firstError_append, firstError_append]
  simp only [firstError_report]
  unfold validateScalarFields
  split
  next => rfl
  next =>
    split
    next => rfl
    next => rfl

theorem checkTransports_eq (resolved : Finset ModuleId) :
    checkTransports resolved = firstError (transportViolations resolved) := by
  rw [transportViolations, firstError_report, checkTransports]

theorem checkExperimental_eq (config : ProductConfig) (resolved : Finset ModuleId) :
    forM [ModuleId.masque, .dnsDoq] (config.checkExperimental resolved) =
      firstError (config.experimentalViolations resolved) := by
  rw [experimentalViolations, ← forM_firstError]
  simp only [firstError_report]
  rfl

theorem checkDependency_eq (resolved : Finset ModuleId) :
    (forM (ascending resolved) fun module =>
        forM module.dependencies (checkDependency resolved module)) =
      firstError (dependencyViolations resolved) := by
  rw [dependencyViolations, ← forM_firstError]
  simp only [← forM_firstError, firstError_report]
  rfl

theorem resolveModules_eq (config : ProductConfig) :
    config.resolveModules = (firstError config.violations).map fun _ => config.selected := by
  rw [violations, map_firstError_append, map_firstError_append, map_firstError_append,
    ← validateScalarFields_eq, ← checkTransports_eq, ← checkExperimental_eq, ← checkDependency_eq]
  simp only [map_eq_bind]
  rfl

/-! ### The first error -/

/-- A cause for each error. -/
inductive Violates (config : ProductConfig) : ConfigError → Prop where
  | schema (wrong : config.schemaVersion ≠ currentSchemaVersion) :
      Violates config (.unsupportedSchema config.schemaVersion currentSchemaVersion)
  | bandwidth (zero : config.server.bandwidthMbps = 0) : Violates config .zeroBandwidth
  | port (zero : config.server.publicTcpPort = 0 ∨ config.server.publicUdpPort = 0) :
      Violates config .unsafePublicPort
  | transports (tuic : config.Selects .tuic) (masque : config.Selects .masque) :
      Violates config .conflictingTransports
  | experimental {module : ModuleId} (isExperimental : module ∈ [ModuleId.masque, .dnsDoq])
      (selects : config.Selects module) (outside : config.profile ≠ .laboratory) :
      Violates config (.experimentalModuleOutsideLaboratory module)
  | dependency {module dependency : ModuleId} (selects : config.Selects module)
      (needs : dependency ∈ module.dependencies) (missing : ¬ config.Selects dependency) :
      Violates config (.missingDependency module dependency)

theorem mem_violations {config : ProductConfig} {error : ConfigError} :
    error ∈ config.violations ↔ config.Violates error := by
  rw [violations, scalarViolations, transportViolations, experimentalViolations,
    dependencyViolations]
  simp only [List.mem_append, List.mem_flatMap, mem_report, mem_ascending, mem_selected]
  constructor
  · rintro ((⟨wrong, rfl⟩ | ⟨zero, rfl⟩ | ⟨zero, rfl⟩) | ⟨⟨tuic, masque⟩, rfl⟩ |
      ⟨module, isExperimental, ⟨selects, outside⟩, rfl⟩ |
      ⟨module, selects, dependency, needs, missing, rfl⟩)
    · exact .schema wrong
    · exact .bandwidth zero
    · exact .port zero
    · exact .transports tuic masque
    · exact .experimental isExperimental selects outside
    · exact .dependency selects needs missing
  · intro violates
    cases violates with
    | schema wrong => exact .inl (.inl ⟨wrong, rfl⟩)
    | bandwidth zero => exact .inl (.inr (.inl ⟨zero, rfl⟩))
    | port zero => exact .inl (.inr (.inr ⟨zero, rfl⟩))
    | transports tuic masque => exact .inr (.inl ⟨⟨tuic, masque⟩, rfl⟩)
    | @experimental module isExperimental selects outside =>
        exact .inr (.inr (.inl ⟨module, isExperimental, ⟨selects, outside⟩, rfl⟩))
    | @dependency module dependency selects needs missing =>
        exact .inr (.inr (.inr ⟨module, selects, dependency, needs, missing, rfl⟩))

/-- The place of an error in the order in which errors are looked for. -/
def rank : ConfigError → Nat
  | .unsupportedSchema _ _ => 0
  | .zeroBandwidth => 1
  | .unsafePublicPort => 2
  | .conflictingTransports => 3
  | .experimentalModuleOutsideLaboratory module => 4 + ModuleId.all.idxOf module
  | .missingDependency module dependency =>
    16 + 12 * ModuleId.all.idxOf module + ModuleId.all.idxOf dependency

/-- All errors that there can be, in their order. -/
def possible (config : ProductConfig) : List ConfigError :=
  [.unsupportedSchema config.schemaVersion currentSchemaVersion, .zeroBandwidth, .unsafePublicPort,
    .conflictingTransports, .experimentalModuleOutsideLaboratory .masque,
    .experimentalModuleOutsideLaboratory .dnsDoq] ++
  ModuleId.all.flatMap fun module => module.dependencies.map fun dependency =>
    .missingDependency module dependency

theorem violations_sublist (config : ProductConfig) :
    config.violations.Sublist config.possible := by
  have scalar : config.scalarViolations.Sublist
      ([.unsupportedSchema config.schemaVersion currentSchemaVersion] ++
        ([.zeroBandwidth] ++ [.unsafePublicPort])) :=
    (report_sublist _ _).append ((report_sublist _ _).append (report_sublist _ _))
  have experimental : (config.experimentalViolations config.selected).Sublist
      ([ModuleId.masque, .dnsDoq].flatMap fun module =>
        [.experimentalModuleOutsideLaboratory module]) :=
    List.Sublist.flatMap_right _ fun _ _ => report_sublist _ _
  have dependencies : (dependencyViolations config.selected).Sublist
      (ModuleId.all.flatMap fun module => module.dependencies.flatMap fun dependency =>
        [.missingDependency module dependency]) := by
    have fewer : (ascending config.selected).Sublist ModuleId.all := List.filter_sublist
    refine List.Sublist.trans ?_ (fewer.flatMap _)
    exact List.Sublist.flatMap_right _ fun module _ =>
      List.Sublist.flatMap_right _ fun dependency _ => report_sublist _ _
  exact scalar.append ((report_sublist _ _).append (experimental.append dependencies))

theorem possible_ascending (config : ProductConfig) :
    config.possible.Pairwise fun first second => rank first < rank second := by
  -- the values of the fields do not count
  have same : config.possible.map rank = (forProfile .standard).possible.map rank := rfl
  have ascending : ((forProfile .standard).possible.map rank).Pairwise (· < ·) := by decide
  rw [← same] at ascending
  exact List.pairwise_map.mp ascending

theorem violations_ascending (config : ProductConfig) :
    config.violations.Pairwise fun first second => rank first < rank second :=
  (possible_ascending config).sublist config.violations_sublist

/-- The error is the first of all that there are. -/
theorem resolveModules_eq_error_iff {config : ProductConfig} {error : ConfigError} :
    config.resolveModules = .error error ↔
      config.Violates error ∧ ∀ other, config.Violates other → rank error ≤ rank other := by
  have isFirst := @firstError_eq_error_iff _ _ _ config.violations_ascending error
  simp only [mem_violations] at isFirst
  rw [resolveModules_eq, ← isFirst]
  cases firstError config.violations with
  | error first => simp only [Except.map, Except.error.injEq]
  | ok _ => exact ⟨nofun, nofun⟩

/-! ### A consistent configuration -/

def DependsOn (module dependency : ModuleId) : Prop := dependency ∈ module.dependencies

/-- `complete` speaks of what a module needs through others, too. -/
structure Consistent (config : ProductConfig) : Prop where
  schema : config.schemaVersion = currentSchemaVersion
  bandwidth : config.server.bandwidthMbps ≠ 0
  tcpPort : config.server.publicTcpPort ≠ 0
  udpPort : config.server.publicUdpPort ≠ 0
  oneTransport : ¬ (config.Selects .tuic ∧ config.Selects .masque)
  stable : config.profile ≠ .laboratory → ¬ config.Selects .masque ∧ ¬ config.Selects .dnsDoq
  complete : ∀ module needed, config.Selects module →
    Relation.ReflTransGen DependsOn module needed → config.Selects needed

theorem consistent_iff {config : ProductConfig} :
    config.Consistent ↔ ∀ error, ¬ config.Violates error := by
  constructor
  · intro consistent error violates
    cases violates with
    | schema wrong => exact wrong consistent.schema
    | bandwidth zero => exact consistent.bandwidth zero
    | port zero => exact zero.elim consistent.tcpPort consistent.udpPort
    | transports tuic masque => exact consistent.oneTransport ⟨tuic, masque⟩
    | experimental isExperimental selects outside =>
        have ⟨noMasque, noDnsDoq⟩ := consistent.stable outside
        rcases List.mem_cons.mp isExperimental with rfl | isLast
        · exact noMasque selects
        · exact noDnsDoq (List.mem_singleton.mp isLast ▸ selects)
    | @dependency module dependency selects needs missing =>
        exact missing (consistent.complete module dependency selects (.single needs))
  · intro sound
    constructor
    · by_contra wrong
      exact sound _ (.schema wrong)
    · exact fun zero => sound _ (.bandwidth zero)
    · exact fun zero => sound _ (.port (.inl zero))
    · exact fun zero => sound _ (.port (.inr zero))
    · exact fun both => sound _ (.transports both.1 both.2)
    · intro outside
      exact ⟨fun selects => sound _ (.experimental (by decide) selects outside),
        fun selects => sound _ (.experimental (by decide) selects outside)⟩
    · intro module needed selects needs
      induction needs with
      | refl => exact selects
      | tail _ needs inductionHypothesis =>
          by_contra missing
          exact sound _ (.dependency inductionHypothesis needs missing)

theorem resolveModules_eq_ok_iff {config : ProductConfig} {modules : Finset ModuleId} :
    config.resolveModules = .ok modules ↔ config.Consistent ∧ modules = config.selected := by
  have noErrors : config.violations = [] ↔ config.Consistent := by
    rw [consistent_iff, List.eq_nil_iff_forall_not_mem]
    simp only [mem_violations]
  rw [resolveModules_eq, ← noErrors, ← firstError_eq_ok_iff]
  cases firstError config.violations with
  | error first => exact ⟨nofun, nofun⟩
  | ok _ =>
      constructor
      · intro same
        cases same
        exact ⟨rfl, rfl⟩
      · intro ⟨_, same⟩
        rw [same]
        rfl

/-- Every profile is consistent as it is. -/
theorem consistent_forProfile (profile : Profile) : (forProfile profile).Consistent := by
  have resolves : ∃ modules, (forProfile profile).resolveModules = .ok modules := by
    cases profile <;> exact ⟨_, rfl⟩
  obtain ⟨modules, isResolved⟩ := resolves
  exact (resolveModules_eq_ok_iff.mp isResolved).1

end ProductConfig

end SmartFecTunnel.Controller
