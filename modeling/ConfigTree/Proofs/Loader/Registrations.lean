import ConfigTree.Proofs.FilePath.LastName
import ConfigTree.Proofs.Loader.Settings
import ConfigTree.Proofs.Loader.Stages

/-!
# Which loader a file is read by

Loaders for single files are there from the beginning, are asked for, are added while a loader is built, and are
registered on the loader that was built; extensions are written in any spelling all the way. Which loader reads a
file in the end?

Those that are there or were asked for are registered first when the loader is built, wherever they were asked for.
So a lookup finds what was registered explicitly last, and one of these where nothing was (`registry_assembled`). The load of a file goes by the loader that is found for its extension, and
fails where there is none (`ReadBy`).
-/

namespace ConfigTree

open Extension

/-- Normalising a path that ends with the name of a file leaves the extension. -/
theorem Extension.ofPath_normalize (cwd : String) {path : String} (h : (FilePath.fileName? path).isSome) :
    ofPath (FilePath.normalize cwd path) = ofPath path := by
  rw [FilePath.fileName?, Option.isSome_map, Option.isSome_iff_exists] at h
  obtain ⟨name, hname⟩ := h
  rw [ofPath, ofPath, FilePath.normalize, String.toList_ofList, FilePath.extensionChars, FilePath.extensionChars,
    FilePath.fileNameChars_normalizeChars _ hname, hname]

/-- The loader that is there for an extension in normal form before any is added explicitly. -/
def builtInLoader? (yaml : Bool) (extension : String) : Option ExtensionLoader :=
  if extension = ".json" then some .json
  else if yaml && (extension = ".yaml" || extension = ".yml") then some .yaml
  else none

namespace LoaderBuilder

theorem lastFor_builtInLoaders (b : LoaderBuilder) (extension : String) :
    Registry.lastFor b.builtInLoaders extension = builtInLoader? b.yaml (Extension.normalize extension) := by
  have hjson : Extension.normalize ".json" = ".json" := by decide +kernel
  have hyaml : Extension.normalize ".yaml" = ".yaml" := by decide +kernel
  have hyml : Extension.normalize ".yml" = ".yml" := by decide +kernel
  rw [Registry.lastFor, builtInLoaders, builtInLoader?]
  cases b.yaml with
  | false =>
    simp only [List.filterMap_cons, List.filterMap_nil, Registry.loaderFor, hjson, Bool.false_eq_true, if_false,
      Bool.false_and, eq_comm (a := ".json")]
    split_ifs <;> rfl
  | true =>
    simp only [List.filterMap_cons, List.filterMap_nil, Registry.loaderFor, hjson, hyaml, hyml, if_true,
      Bool.true_and, Bool.or_eq_true, decide_eq_true_eq, eq_comm (b := Extension.normalize extension)]
    generalize Extension.normalize extension = e
    by_cases hj : e = ".json"
    · subst hj
      rfl
    by_cases hy : e = ".yaml"
    · subst hy
      rfl
    by_cases hm : e = ".yml"
    · subst hm
      rfl
    · simp only [hj, hy, hm, if_false, or_false]
      rfl

end LoaderBuilder

namespace Loader

variable {l : Loader} {w : World} {o : EffectiveOptions} {path : String} {chain : List String} {n : Nat}
  {d : Document} {r : Run Document}

/-! ### Loads that go by one loader -/

/-- The load of a file goes by the loader that was found for it. Without one it fails, and nothing is handed to
any loader. Otherwise it fails where the loader fails for the file or for its environment file, and where no list
of imports results, it gives what the loader gives for the two, with the data of the caller merged over it. -/
def ReadBy (w : World) (o : EffectiveOptions) (path : String) (r : Run Document) : Option ExtensionLoader → Prop
  | none => r.outcome = .error (.unregisteredExtension (ofPath path) path) ∧
    ∀ extension p, .handed extension p ∉ r.events
  | some loader =>
    match (loadWithEnvironment w (ofPath path) loader path o.environment).outcome with
    | .error e => r.outcome = .error e
    | .ok loaded =>
      (∀ items, Entries.get? (Document.merge loaded o.data) o.importsKey ≠ some (.sequence items)) →
      r.outcome = .ok (Document.merge loaded o.data)

/-- A file that fails by itself ends its load. -/
theorem loadDocument_of_own_eq_error {e : LoaderError} (h : path ∉ chain)
    (hown : (l.own w o path).outcome = .error e) :
    l.loadDocument w o (n + 1) chain path = ⟨.error e, .visit chain path :: (l.own w o path).events⟩ := by
  rw [loadDocument.eq_2]
  simp [bind, Run.andThen, Run.note, h, hown]

theorem loadDocument_of_own_eq_ok (h : path ∉ chain) (hown : (l.own w o path).outcome = .ok ⟨d, []⟩) :
    (l.loadDocument w o (n + 1) chain path).outcome = .ok d :=
  loadDocument_eq_ok_iff.2 ⟨h, n, ⟨d, []⟩, [], rfl, hown, .nil, rfl⟩

/-- The loader that is found for a file decides what the file gives by itself. -/
theorem readBy_of_own (chain : List String) (herror : ∀ e, (l.own w o path).outcome = .error e →
      r = ⟨.error e, .visit chain path :: (l.own w o path).events⟩)
    (hok : ∀ d, (l.own w o path).outcome = .ok ⟨d, []⟩ → r.outcome = .ok d) :
    ReadBy w o path r (l.registry.get? (ofPath path)) := by
  cases hget : l.registry.get? (ofPath path) with
  | none =>
    have hown : l.own w o path = Run.fail (.unregisteredExtension (ofPath path) path) := by
      rw [own]
      simp only [hget]
    have hr := herror _ (by rw [hown, Run.outcome_fail])
    rw [hown] at hr
    subst hr
    exact ⟨rfl, fun extension p => by simp⟩
  | some loader =>
    rw [ReadBy]
    cases hloaded : (loadWithEnvironment w (ofPath path) loader path o.environment).outcome with
    | error e =>
      have hown : (l.own w o path).outcome = .error e := by
        rw [own]
        simp only [hget, Run.outcome_bind_eq_error_iff, hloaded, true_or]
      rw [herror _ hown]
    | ok loaded =>
      exact fun hlist => hok _ (own_of_listless (layered_eq_ok_iff.2 ⟨loader, loaded, hget, hloaded, rfl⟩) hlist)

theorem readBy_loadDocument (h : path ∉ chain) :
    ReadBy w o path (l.loadDocument w o (n + 1) chain path) (l.registry.get? (ofPath path)) :=
  readBy_of_own chain (fun _ => loadDocument_of_own_eq_error h) fun _ => loadDocument_of_own_eq_ok h

theorem readBy_loadRaw (overrides : LoadOptions) :
    ReadBy w (l.options.effective overrides) (FilePath.normalize w.cwd path) (l.loadRaw w path overrides)
      (l.registry.get? (ofPath (FilePath.normalize w.cwd path))) := by
  refine readBy_of_own [] (fun e hown => ?_) fun d hown => ?_
  · have hone := loadDocument_of_own_eq_error (n := 0) List.not_mem_nil hown
    have hcut : (l.loadDocument w (l.options.effective overrides) 1 [] (FilePath.normalize w.cwd path)).isCut =
        false := by
      rw [hone]
      exact isCut_own _
    rw [loadRaw, loadDeep_eq_some hcut]
    exact hone
  · exact loadRaw_eq_ok_iff_exists.2 ⟨1, loadDocument_of_own_eq_ok List.not_mem_nil hown⟩

/-! ### The loader that is found -/

/-- The loader with others registered on it, one after another. -/
def registerAll (l : Loader) (added : List (String × ExtensionLoader)) : Loader :=
  added.foldl (fun l e => l.register e.1 e.2) l

theorem registry_registerAll (l : Loader) (added : List (String × ExtensionLoader)) :
    (l.registerAll added).registry = added.foldl (fun r e => r.register e.1 e.2) l.registry := by
  rw [registerAll]
  induction added generalizing l with
  | nil => rfl
  | cons e added ih => exact ih _

/-- The loader that is built from settings, with others registered on it then. -/
def assembled (settings : List Setting) (added : List (String × ExtensionLoader)) : Loader :=
  (LoaderBuilder.setAll {} settings).build.registerAll added

/-- What was registered explicitly, while the loader was built and on it then. -/
def explicit (settings : List Setting) (added : List (String × ExtensionLoader)) :
    List (String × ExtensionLoader) :=
  settings.filterMap Setting.registration? ++ added

/-- The extensions that loaders are there for before any is added explicitly. -/
def builtInExtensions (settings : List Setting) : List String :=
  ".json" :: if settings.any Setting.isYaml then [".yaml", ".yml"] else []

theorem registry_assembled_eq (settings : List Setting) (added : List (String × ExtensionLoader)) :
    (assembled settings added).registry =
      ((LoaderBuilder.setAll {} settings).builtInLoaders ++ explicit settings added).foldl
        (fun r e => r.register e.1 e.2) {} := by
  have hexplicit := LoaderBuilder.extensionLoaders_setAll {} settings
  rw [assembled, registry_registerAll, explicit, ← List.append_assoc, List.foldl_append,
    LoaderBuilder.build, LoaderBuilder.registry, hexplicit]
  rfl

theorem map_fst_builtInLoaders (settings : List Setting) :
    (LoaderBuilder.setAll {} settings).builtInLoaders.map Prod.fst = builtInExtensions settings := by
  rw [LoaderBuilder.builtInLoaders, LoaderBuilder.yaml_setAll, builtInExtensions]
  cases settings.any Setting.isYaml <;> rfl

/-- **The registry is a map by extensions in normal form.** A loader is built from settings, and others are
registered on it. A lookup in its registry finds what was registered explicitly last for an extension with the same
normal form. Where nothing was, it finds the loader for JSON, or the one for YAML when that was asked for, wherever
among the settings. Every file is read by the loader that is found for its extension; the path that a load begins
with is normalised before that, which leaves the extension where the path ends with the name of a file. The
extensions are listed in the order of their bytes and in normal form, and there are as many as different ones were
registered. -/
theorem registry_assembled (settings : List Setting) (added : List (String × ExtensionLoader)) :
    (∀ extension, (assembled settings added).registry.get? extension =
      (Registry.lastFor (explicit settings added) extension).or
        (builtInLoader? (settings.any Setting.isYaml) (Extension.normalize extension))) ∧
    (∀ extension, Extension.normalize (Extension.normalize extension) = Extension.normalize extension) ∧
    (∀ w o n chain path, path ∉ chain →
      ReadBy w o path ((assembled settings added).loadDocument w o (n + 1) chain path)
        ((assembled settings added).registry.get? (ofPath path))) ∧
    (∀ w path overrides, ReadBy w ((assembled settings added).options.effective overrides)
      (FilePath.normalize w.cwd path) ((assembled settings added).loadRaw w path overrides)
      ((assembled settings added).registry.get? (ofPath (FilePath.normalize w.cwd path)))) ∧
    (∀ cwd path, (FilePath.fileName? path).isSome → ofPath (FilePath.normalize cwd path) = ofPath path) ∧
    ((assembled settings added).registry.extensions.map Text.bytes).Pairwise (· < ·) ∧
    (∀ e ∈ (assembled settings added).registry.extensions, Extension.normalize e = e) ∧
    (assembled settings added).registry.extensions.length =
      ((builtInExtensions settings ++ (explicit settings added).map Prod.fst).map
        Extension.normalize).dedup.length := by
  have hlists := Registry.lists_foldl_register
    ((LoaderBuilder.setAll {} settings).builtInLoaders ++ explicit settings added)
  rw [← registry_assembled_eq, List.map_append, map_fst_builtInLoaders] at hlists
  refine ⟨fun extension => ?_, normalize_normalize, fun w o n chain path => readBy_loadDocument,
    fun w path overrides => readBy_loadRaw overrides, fun cwd path => ofPath_normalize cwd,
    hlists.sorted_bytes, fun e => hlists.normalize_eq, hlists.length_eq⟩
  rw [registry_assembled_eq, Registry.get?_foldl_register, Registry.lastFor_append,
    LoaderBuilder.lastFor_builtInLoaders, LoaderBuilder.yaml_setAll]
  exact Option.or_none

end Loader

end ConfigTree
