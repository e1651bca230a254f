import ConfigTree.Proofs.Loader.Settings

/-!
# Settings come before the environment

While a loader is built, settings are made explicitly and the environment is read, in any order and as often as
one likes. What was set explicitly is to stand, whether it was set before the environment was read or after it.
What are the options in the end?

Reading the environment fills in what is open, so it does not matter when it is done, nor how often
(`filled_set` and `filled_filled`): all settings may as well be made first and the environment be read once at the
end (`run_eq`). Hence an option holds what was set last. It holds what the environment says, when that was read
and nothing was set at all (`options_run`).
-/

namespace ConfigTree

/-- A step in the building of a loader. -/
inductive BuildStep where
  /-- A setting is made. -/
  | set (setting : Setting)
  /-- What is open is filled in from the environment. -/
  | fromEnv

namespace BuildStep

/-- The setting that is made. -/
def setting? : BuildStep → Option Setting
  | set s => some s
  | fromEnv => none

/-- Whether the environment is read. -/
def isFromEnv : BuildStep → Bool
  | set _ => false
  | fromEnv => true

end BuildStep

/-- A part of a builder that a step can set. -/
inductive BuilderPart where
  /-- The suffix that selects environment files. -/
  | environment
  /-- The data that is merged over every file. -/
  | data
  /-- The key under which a document lists its imports. -/
  | importsKey
  /-- What namespaces stand for. -/
  | globals
  /-- Whether placeholders can read the process environment. -/
  | processEnv
  /-- Whether loads give the flat view. -/
  | flattenOutput
  /-- Whether YAML files can be loaded. -/
  | yaml
  /-- The resolver to be used in place of the resolver of placeholders. -/
  | resolver
  /-- The loaders added explicitly. -/
  | extensionLoaders

/-- Two builders have a part in common. -/
def BuilderPart.Same (b c : LoaderBuilder) : BuilderPart → Prop
  | environment => b.environment = c.environment
  | data => b.data = c.data
  | importsKey => b.importsKey = c.importsKey
  | globals => b.resolverOptions.globals = c.resolverOptions.globals
  | processEnv => b.resolverOptions.processEnv = c.resolverOptions.processEnv
  | flattenOutput => b.flattenOutput = c.flattenOutput
  | yaml => b.yaml = c.yaml
  | resolver => b.resolver = c.resolver
  | extensionLoaders => b.extensionLoaders = c.extensionLoaders

/-- The parts of a builder that a setting sets. -/
def Setting.parts : Setting → List BuilderPart
  | environment _ => [.environment]
  | data _ => [.data]
  | importsKey _ => [.importsKey]
  | resolverOptions _ => [.globals, .processEnv]
  | global _ _ => [.globals]
  | processEnv _ => [.processEnv]
  | flattenOutput _ => [.flattenOutput]
  | yaml => [.yaml]
  | resolver _ => [.resolver]
  | extensionLoader _ _ => [.extensionLoaders]

/-- The step sets the part. A setting sets its own; reading the environment sets those that are open and that a
variable has something to say about. -/
def BuildStep.Sets (env : Environment) (b : LoaderBuilder) : BuildStep → BuilderPart → Prop
  | set s, part => part ∈ s.parts
  | fromEnv, .environment =>
    b.environment = none ∧ env.setting (SettingVariable.name .environment) ≠ none
  | fromEnv, .importsKey => b.importsKey = none ∧ env.setting (SettingVariable.name .importsKey) ≠ none
  | fromEnv, .flattenOutput => b.flattenOutput = none ∧ env.setting (SettingVariable.name .flatten) ≠ none
  | fromEnv, _ => False

namespace LoaderBuilder

variable {env : Environment} {b c : LoaderBuilder} {s : Setting} {settings : List Setting}
  {steps : List BuildStep}

/-- The builder after a step, in an environment. -/
def step (env : Environment) (b : LoaderBuilder) : BuildStep → Except LoaderError LoaderBuilder
  | .set s => .ok (b.set s)
  | .fromEnv => b.fromEnv env

/-- The builder after steps that are made one after another, up to the first one that fails. -/
def run (env : Environment) (b : LoaderBuilder) (steps : List BuildStep) : Except LoaderError LoaderBuilder :=
  steps.foldlM (step env) b

/-! ### Filling in what is open -/

/-- The builder with what is open filled in from the environment. -/
def filled (env : Environment) (b : LoaderBuilder) : LoaderBuilder :=
  { b with
    environment := b.environment.or (env.setting (SettingVariable.name .environment))
    importsKey := b.importsKey.or (env.setting (SettingVariable.name .importsKey))
    flattenOutput := b.flattenOutput.or ((env.setting (SettingVariable.name .flatten)).bind flagOf?) }

/-- Reading the environment fills in what is open, unless there is something else than a truth value where one
is expected. -/
theorem fromEnv_eq_filled
    (henv : ∀ text, env.setting (SettingVariable.name .flatten) = some text → (flagOf? text).isSome)
    (b : LoaderBuilder) : b.fromEnv env = .ok (b.filled env) := by
  cases hflat : b.flattenOutput with
  | some flag => simp only [fromEnv, filled, hflat, Option.some_or]
  | none =>
    cases hsetting : env.setting (SettingVariable.name .flatten) with
    | none => simp only [fromEnv, filled, hflat, hsetting, Option.bind_none, Option.or_none]
    | some text =>
      obtain ⟨flag, hflag⟩ := Option.isSome_iff_exists.1 (henv text hsetting)
      simp only [fromEnv, filled, hflat, hsetting, hflag, Option.bind_some, Option.none_or]

/-- What is set explicitly stands, before and after the environment is read. -/
theorem filled_set (env : Environment) (b : LoaderBuilder) (s : Setting) :
    (b.filled env).set s = (b.set s).filled env := by
  cases s <;> rfl

theorem filled_setAll (env : Environment) (b : LoaderBuilder) (settings : List Setting) :
    (b.filled env).setAll settings = (b.setAll settings).filled env := by
  rw [setAll, setAll]
  induction settings generalizing b with
  | nil => rfl
  | cons s settings ih => rw [List.foldl_cons, List.foldl_cons, filled_set, ih]

/-- Reading the environment again changes nothing. -/
theorem filled_filled (env : Environment) (b : LoaderBuilder) : (b.filled env).filled env = b.filled env := by
  simp [filled, Option.or_assoc]

/-! ### The order of the steps -/

/-- The settings among steps. -/
def settingsOf (steps : List BuildStep) : List Setting := steps.filterMap BuildStep.setting?

/-- All settings may as well be made first, and the environment be read once at the end, if it is read at all. -/
theorem run_eq
    (henv : ∀ text, env.setting (SettingVariable.name .flatten) = some text → (flagOf? text).isSome)
    (b : LoaderBuilder) (steps : List BuildStep) :
    run env b steps = .ok (if steps.any BuildStep.isFromEnv then (b.setAll (settingsOf steps)).filled env
      else b.setAll (settingsOf steps)) := by
  rw [run]
  induction steps generalizing b with
  | nil => rfl
  | cons step steps ih =>
    rw [List.foldlM_cons]
    cases step with
    | set s => exact ih (b.set s)
    | fromEnv =>
      have hfilled : LoaderBuilder.step env b .fromEnv = .ok (b.filled env) := fromEnv_eq_filled henv b
      have hrest := ih (b.filled env)
      rw [filled_setAll, filled_filled, ite_self] at hrest
      rw [hfilled]
      exact hrest

/-- What was set last, by the settings that have something to say about it. -/
def lastSet {α : Type} (said : Setting → Option α) (steps : List BuildStep) : Option α :=
  ((settingsOf steps).filterMap said).getLast?

/-- The text of a variable, if the environment is read at all. -/
def consulted (env : Environment) (steps : List BuildStep) (v : SettingVariable) : Option String :=
  if steps.any BuildStep.isFromEnv then env.setting v.name else none

/-- A step leaves the parts alone that it does not set. -/
theorem same_of_step
    (henv : ∀ text, env.setting (SettingVariable.name .flatten) = some text → (flagOf? text).isSome)
    {step : BuildStep} {part : BuilderPart} (h : LoaderBuilder.step env b step = .ok c)
    (hpart : ¬ step.Sets env b part) : part.Same b c := by
  cases step with
  | set s =>
    cases h
    cases s <;> cases part <;> first | rfl | exact absurd (by simp [BuildStep.Sets, Setting.parts]) hpart
  | fromEnv =>
    cases (fromEnv_eq_filled henv b).symm.trans h
    have hopen : ∀ {α : Type} (x y : Option α), ¬ (x = none ∧ y ≠ none) → x = x.or y := by
      intro α x y hxy
      cases x with
      | some a => rfl
      | none => exact (not_not.1 fun hy => hxy ⟨rfl, hy⟩).symm
    cases part with
    | environment => exact hopen _ _ hpart
    | importsKey => exact hopen _ _ hpart
    | flattenOutput =>
      refine hopen _ _ fun ⟨hnone, hflag⟩ => hpart ⟨hnone, fun hsetting => hflag ?_⟩
      rw [hsetting, Option.bind_none]
    | _ => rfl

/-- **What was set explicitly stands, in whatever order it was set and the environment was read.** Where the
environment holds a truth value for the flat view, if it holds anything there, all steps can be made. The options
are what was set last, wherever that was; what the environment says, if it was read and nothing was set; and the
default otherwise. Data are merged in the order of the settings, and what namespaces stand for are the globals of
the last options of the resolver with those that were set since then, in their order. No step touches what it does
not set. -/
theorem options_run (env : Environment)
    (henv : ∀ text, env.setting (SettingVariable.name .flatten) = some text → (flagOf? text).isSome)
    (steps : List BuildStep) :
    (∃ b, run env {} steps = .ok b ∧
      b.options.environment =
        (lastSet Setting.environment? steps).or (consulted env steps .environment) ∧
      b.options.importsKey =
        ((lastSet Setting.importsKey? steps).or (consulted env steps .importsKey)).getD defaultImportsKey ∧
      b.options.flattenOutput =
        ((lastSet Setting.flattenOutput? steps).or ((consulted env steps .flatten).bind flagOf?)).getD false ∧
      b.options.data = Document.mergeAll ((settingsOf steps).filterMap Setting.data?) ∧
      b.options.resolverOptions.globals =
        Entries.insertAll ((lastSet Setting.resolverOptions? steps).getD {}).globals
          ((sinceOptions (settingsOf steps)).filterMap Setting.global?) ∧
      b.options.resolverOptions.processEnv = (lastSet Setting.processEnv? steps).getD true) ∧
    ∀ b c step part, LoaderBuilder.step env b step = .ok c → ¬ step.Sets env b part → part.Same b c := by
  refine ⟨⟨_, run_eq henv {} steps, ?_⟩, fun b c step part => same_of_step henv⟩
  have henvironment := environment_setAll {} (settingsOf steps)
  have hkey := importsKey_setAll {} (settingsOf steps)
  have hflatten := flattenOutput_setAll {} (settingsOf steps)
  have hdata := data_setAll {} (settingsOf steps)
  have hglobals := globals_setAll {} (settingsOf steps)
  have hprocess := processEnv_setAll {} (settingsOf steps)
  rw [Option.or_none] at henvironment hkey hflatten
  simp only [options, consulted, lastSet, ← henvironment, ← hkey, ← hflatten]
  cases steps.any BuildStep.isFromEnv with
  | false =>
    simp only [Bool.false_eq_true, if_false, Option.or_none, Option.bind_none, true_and]
    exact ⟨hdata, hglobals, hprocess⟩
  | true => exact ⟨rfl, rfl, rfl, hdata, hglobals, hprocess⟩

/-- An environment that has a suffix and wants the flat view. -/
def production : Environment := [("LAYERCONF_ENV", " prod "), ("LAYERCONF_FLATTEN", "Yes")]

/-- The suffix is set between two readings of the environment, which has another one, and it stands. The flat view
comes from the environment, and the imports key is the default. -/
theorem options_run_between :
    (∀ text, production.setting (SettingVariable.name .flatten) = some text → (flagOf? text).isSome) ∧
    ∃ b, run production {} [.fromEnv, .set (.environment "dev"), .fromEnv] = .ok b ∧
      b.options.environment = some "dev" ∧ b.options.importsKey = "imports" ∧ b.options.flattenOutput = true := by
  have hflatten : production.setting (SettingVariable.name .flatten) = some "Yes" := by decide +kernel
  have hkey : production.setting (SettingVariable.name .importsKey) = none := by decide +kernel
  have hyes : flagOf? "Yes" = some true := by decide +kernel
  have henv : ∀ text, production.setting (SettingVariable.name .flatten) = some text →
      (flagOf? text).isSome := fun text htext => by
    cases hflatten.symm.trans htext
    rw [hyes]
    rfl
  have hread : ∀ v, consulted production [.fromEnv, .set (.environment "dev"), .fromEnv] v =
      production.setting v.name := fun _ => rfl
  obtain ⟨⟨b, hrun, henvironment, himports, hflat, -⟩, -⟩ :=
    options_run production henv [.fromEnv, .set (.environment "dev"), .fromEnv]
  rw [hread, hkey] at himports
  rw [hread, hflatten, Option.bind_some, hyes] at hflat
  exact ⟨henv, b, hrun, henvironment, himports, hflat⟩

end LoaderBuilder

end ConfigTree
