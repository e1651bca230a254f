import ConfigTree.Proofs.CommandLine.Request

/-!
# Variables read by the command and by a builder

The suffix of environment files and the imports key can be set by variables. A builder reads them without
the blanks around them, and takes a variable with nothing else in it for one that is not set. The command
reads them before a builder does, as they are written, and a builder leaves alone what is set. Do the two
come to the same settings?

Exactly for variables without blanks around them, and for the imports key only if it is not empty
(`settings_of_commandLine`). Where the variable for it is set to nothing, the command goes by an empty
imports key, and a list under the key that a builder goes by is no list of imports
(`not_settings_of_commandLine`).
-/

namespace ConfigTree

/-- The suffix that a load goes by: an empty one selects no files. -/
def suffixInForce : Option String → Option String
  | none => none
  | some text => if text = "" then none else some text

theorem suffixInForce_some {text : String} (h : text ≠ "") : suffixInForce (some text) = some text :=
  if_neg h

/-- A load does not tell an empty suffix from none. -/
theorem Loader.loadWithEnvironment_suffixInForce (w : World) (extension : String)
    (loader : ExtensionLoader) (path : String) (environment : Option String) :
    loadWithEnvironment w extension loader path (suffixInForce environment) =
      loadWithEnvironment w extension loader path environment := by
  cases environment with
  | none => rfl
  | some text =>
    by_cases htext : text = ""
    · subst htext
      simp [suffixInForce, loadWithEnvironment, overlay]
    · rw [suffixInForce_some htext]

namespace Environment

variable (env : Environment) (name : String)

/-- A variable that is not set has no text without blanks either. -/
theorem lookup_or_setting : (env.lookup name).or (env.setting name) = env.lookup name := by
  rw [setting]
  cases env.lookup name <;> rfl

/-- The suffix is read alike with blanks and without them where there are none. -/
theorem suffixInForce_setting_iff :
    suffixInForce (env.lookup name) = suffixInForce (env.setting name) ↔
      ∀ text ∈ env.lookup name, Text.trim text = text := by
  rw [setting]
  cases env.lookup name with
  | none => simp
  | some text =>
    simp only [Option.mem_def, Option.some.injEq, forall_eq']
    by_cases htext : text = ""
    · subst htext
      have htrim : Text.trim "" = "" := by decide
      simp [htrim, suffixInForce]
    · rw [suffixInForce_some htext]
      by_cases htrim : Text.trim text = ""
      · simp [htrim, suffixInForce, Ne.symm htext]
      · rw [if_neg htrim, suffixInForce_some htrim, Option.some.injEq]
        exact eq_comm

/-- With a default that is neither empty nor has blanks around it, a key is read alike where there are no
blanks around it and it is not empty. -/
theorem getD_setting_iff {key : String} (hkey : Text.trim key ≠ "") :
    (env.lookup name).getD key = (env.setting name).getD key ↔
      ∀ text ∈ env.lookup name, Text.trim text = text ∧ text ≠ "" := by
  rw [setting]
  cases env.lookup name with
  | none => simp
  | some text =>
    simp only [Option.mem_def, Option.some.injEq, forall_eq', Option.getD_some]
    by_cases htrim : Text.trim text = ""
    · rw [if_pos htrim, Option.getD_none]
      constructor
      · rintro rfl
        exact absurd htrim hkey
      · rintro ⟨hsame, hne⟩
        exact absurd (hsame.symm.trans htrim) hne
    · rw [if_neg htrim, Option.getD_some]
      constructor
      · intro hsame
        exact ⟨hsame.symm, fun hempty => htrim (hsame.symm.trans hempty)⟩
      · exact fun h => h.1.symm

end Environment

namespace CommandLine

variable {env : Environment} {r r' : Request} {l : Loader} {b : LoaderBuilder} {args : List String}

/-- None of the items is an option for the suffix or for the imports key. -/
def LeavesSettings (items : List Item) : Prop :=
  ∀ text, Item.field .environment text ∉ items ∧ Item.field .importsKey text ∉ items

namespace Request

/-! ### What the command line leaves open -/

/-- The request has neither a suffix nor an imports key of its own. -/
def IsOpen (r : Request) : Prop := r.environment = none ∧ r.importsKey = none

/-- Any other item leaves the two settings open. -/
theorem isOpen_add {item : Item} (hsuffix : ∀ text, item ≠ .field .environment text)
    (hkey : ∀ text, item ≠ .field .importsKey text) (hr : r.IsOpen) (h : r.add item = .ok r') :
    r'.IsOpen := by
  cases item with
  | flag f =>
    rw [add] at h
    cases f <;> rw [addFlag] at h
    case help => cases h
    case version => cases h
    all_goals
      split_ifs at h
      cases h
      exact hr
  | field f text =>
    rw [add] at h
    cases f with
    | environment => exact absurd rfl (hsuffix text)
    | importsKey => exact absurd rfl (hkey text)
    | set =>
      cases h
      exact hr
    | format =>
      rw [addField] at h
      split at h
      · cases h
        exact hr
      · cases h
    | _ =>
      rw [addField] at h
      split_ifs at h
      cases h
      exact hr
  | file path =>
    rw [add] at h
    split_ifs at h
    cases h
    exact hr
  | unreadable => cases h

/-- A command line without the two options leaves the two settings open. -/
theorem isOpen_ofArguments (hargs : Request.ofArguments args = .ok r)
    (hleaves : LeavesSettings (Item.ofArguments args)) : r.IsOpen := by
  refine of_foldlM_eq_ok (P := IsOpen) ?_ ⟨rfl, rfl⟩ hargs
  intro item hitem r r' hr h
  refine isOpen_add ?_ ?_ hr h
  · rintro text rfl
    exact (hleaves text).1 hitem
  · rintro text rfl
    exact (hleaves text).2 hitem

/-! ### What is in force -/

/-- The command goes by the variables as they are written. -/
theorem options_of_isOpen (hr : r.IsOpen) (h : (r.withEnvironment env).loader env = .ok l) :
    l.options.environment = env.lookup (SettingVariable.name .environment) ∧
      l.options.importsKey =
        (env.lookup (SettingVariable.name .importsKey)).getD defaultImportsKey := by
  obtain ⟨data, flag, -, rfl⟩ := loader_eq_ok h
  obtain ⟨hsuffix, hkey⟩ := hr
  constructor
  · show (r.environment.or (env.lookup _)).or (env.setting _) = _
    rw [hsuffix, Option.none_or, Environment.lookup_or_setting]
  · show ((r.importsKey.or (env.lookup _)).or (env.setting _)).getD _ = _
    rw [hkey, Option.none_or, Environment.lookup_or_setting]

end Request

/-- A builder goes by the variables without the blanks around them. -/
theorem options_of_fromEnv (h : ({} : LoaderBuilder).fromEnv env = .ok b) :
    b.options.environment = env.setting (SettingVariable.name .environment) ∧
      b.options.importsKey =
        (env.setting (SettingVariable.name .importsKey)).getD defaultImportsKey := by
  obtain ⟨flag, rfl⟩ := LoaderBuilder.fromEnv_eq_ok h
  exact ⟨rfl, rfl⟩

/-- **The command and a builder read the same variables differently.** Without options for them, the
command takes the suffix and the imports key from the variables as they are written. The suffix that it goes
by is that of a builder exactly when the variable has no blanks around it; and the imports key exactly when
the variable has none and is not empty. -/
theorem settings_of_commandLine (hargs : Request.ofArguments args = .ok r)
    (hleaves : LeavesSettings (Item.ofArguments args))
    (hl : (r.withEnvironment env).loader env = .ok l)
    (hb : ({} : LoaderBuilder).fromEnv env = .ok b) :
    (l.options.environment = env.lookup (SettingVariable.name .environment) ∧
      l.options.importsKey =
        (env.lookup (SettingVariable.name .importsKey)).getD defaultImportsKey) ∧
    (suffixInForce l.options.environment = suffixInForce b.options.environment ↔
      ∀ text ∈ env.lookup (SettingVariable.name .environment), Text.trim text = text) ∧
    (l.options.importsKey = b.options.importsKey ↔
      ∀ text ∈ env.lookup (SettingVariable.name .importsKey), Text.trim text = text ∧ text ≠ "") := by
  obtain ⟨hsuffix, hkey⟩ := Request.options_of_isOpen (Request.isOpen_ofArguments hargs hleaves) hl
  obtain ⟨hsuffix', hkey'⟩ := options_of_fromEnv hb
  refine ⟨⟨hsuffix, hkey⟩, ?_, ?_⟩
  · rw [hsuffix, hsuffix']
    exact env.suffixInForce_setting_iff _
  · rw [hkey, hkey']
    exact env.getD_setting_iff _ (by decide)

/-- A request that names a file and nothing else. -/
def plainRequest : Request := { file := some "app.json" }

theorem ofArguments_plainRequest :
    Request.ofArguments ["app.json"] = .ok plainRequest ∧
      LeavesSettings (Item.ofArguments ["app.json"]) := by
  have hitems : Item.ofArguments ["app.json"] = [.file "app.json"] := by decide +kernel
  refine ⟨by decide +kernel, ?_⟩
  rw [hitems]
  intro text
  simp

/-- Variables without blanks around them. -/
def tidyVariables : Environment := [("LAYERCONF_ENV", "test"), ("LAYERCONF_IMPORTS_KEY", "use")]

theorem settings_of_tidyVariables :
    ∃ l b, (plainRequest.withEnvironment tidyVariables).loader tidyVariables = .ok l ∧
      ({} : LoaderBuilder).fromEnv tidyVariables = .ok b ∧
      l.options.environment = some "test" ∧ l.options.importsKey = "use" ∧
      suffixInForce l.options.environment = suffixInForce b.options.environment ∧
      l.options.importsKey = b.options.importsKey := by
  obtain ⟨hargs, hleaves⟩ := ofArguments_plainRequest
  obtain ⟨l, hl⟩ : ∃ l, (plainRequest.withEnvironment tidyVariables).loader tidyVariables = .ok l :=
    ⟨_, rfl⟩
  obtain ⟨b, hb⟩ : ∃ b, ({} : LoaderBuilder).fromEnv tidyVariables = .ok b := ⟨_, rfl⟩
  obtain ⟨⟨hsuffix, hkey⟩, hsuffixes, hkeys⟩ := settings_of_commandLine hargs hleaves hl hb
  exact ⟨l, b, hl, hb, hsuffix, hkey, hsuffixes.2 (by decide), hkeys.2 (by decide)⟩

/-- A variable for the imports key that is set to nothing. -/
def blankVariables : Environment := [("LAYERCONF_IMPORTS_KEY", "")]

/-- The command takes the empty text for the imports key, and a builder takes the default. -/
theorem not_settings_of_commandLine :
    ¬ ∀ (env : Environment) (args : List String) (r : Request) (l : Loader) (b : LoaderBuilder),
      Request.ofArguments args = .ok r → LeavesSettings (Item.ofArguments args) →
      (r.withEnvironment env).loader env = .ok l → ({} : LoaderBuilder).fromEnv env = .ok b →
      suffixInForce l.options.environment = suffixInForce b.options.environment ∧
        l.options.importsKey = b.options.importsKey := by
  intro hclaim
  obtain ⟨hargs, hleaves⟩ := ofArguments_plainRequest
  obtain ⟨l, hl⟩ : ∃ l, (plainRequest.withEnvironment blankVariables).loader blankVariables = .ok l :=
    ⟨_, rfl⟩
  obtain ⟨b, hb⟩ : ∃ b, ({} : LoaderBuilder).fromEnv blankVariables = .ok b := ⟨_, rfl⟩
  have hkeys := (hclaim _ _ _ l b hargs hleaves hl hb).2
  rw [(Request.options_of_isOpen ⟨rfl, rfl⟩ hl).2, (options_of_fromEnv hb).2] at hkeys
  revert hkeys
  decide

end CommandLine

end ConfigTree
