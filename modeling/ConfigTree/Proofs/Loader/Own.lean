import ConfigTree.Loader.Imports
import ConfigTree.Proofs.Extension.Keys
import ConfigTree.Proofs.FilePath.Normal
import Mathlib.Tactic.SplitIfs

/-!
# What a file gives by itself

The document of a file with its environment file and the forced data, its import list resolved. Its
keys are distinct, as long as loaders and resolvers keep to documents in which they are, and the paths
that it is said to import are those that its list holds.
-/

namespace ConfigTree

/-- The paths that a document lists under a key; none when there is no list. -/
def Document.listed (key : String) (d : Document) : List String :=
  match Entries.get? d key with
  | some (.sequence items) => items.filterMap fun
    | .string path => some path
    | _ => none
  | _ => []

namespace Loader

/-- Documents are maps, for the loaders that are registered and for the resolver: neither gives a
document with a key twice. -/
structure KeepsKeys (l : Loader) (w : World) : Prop where
  /-- A loader gives each key once. -/
  load : ∀ {extension loader path d}, l.registry.get? extension = some loader →
    loader.load w path = .ok d → Entries.Distinct d
  /-- The resolver leaves each key once. -/
  resolve : ∀ {d : Document} (key : String), Entries.Distinct d →
    Entries.Distinct ((l.resolver w.env).resolve d (some key)).document

variable {l : Loader} {w : World} {o : EffectiveOptions} {path : String}

theorem hand_eq_ok_iff {extension : String} {loader : ExtensionLoader} {d : Document} :
    (hand w extension loader path).outcome = .ok d ↔ loader.load w path = .ok d := by
  rw [hand, Run.outcome_bind_eq_ok_iff]
  simp only [Run.outcome_note, exists_const]
  cases loader.load w path <;> simp

/-- There is no environment file, or the system does not say whether there is one, or the loader is handed
its path. -/
theorem overlay_cases (w : World) (extension : String) (loader : ExtensionLoader) (path : String)
    (environment : Option String) :
    overlay w extension loader path environment = pure none ∨
      ∃ text, environment = some text ∧ text ≠ "" ∧
        ((∃ e, overlay w extension loader path environment =
            Run.fail (.load (Extension.sibling path text) (.os e))) ∨
          overlay w extension loader path environment =
            (do return some (← hand w extension loader (Extension.sibling path text)))) := by
  cases environment with
  | none => exact .inl rfl
  | some text =>
    rw [overlay]
    split_ifs with htext
    · exact .inl rfl
    · simp only
      split
      · exact .inr ⟨text, rfl, htext, .inl ⟨_, rfl⟩⟩
      · exact .inl rfl
      · exact .inr ⟨text, rfl, htext, .inr rfl⟩

/-- The document of an environment file is one that the loader gives. -/
theorem exists_of_overlay_eq_some {extension : String} {loader : ExtensionLoader}
    {environment : Option String} {d : Document}
    (h : (overlay w extension loader path environment).outcome = .ok (some d)) :
    ∃ sibling, loader.load w sibling = .ok d := by
  rcases overlay_cases w extension loader path environment with
    heq | ⟨text, -, -, ⟨e, heq⟩ | heq⟩ <;> rw [heq] at h
  · cases h
  · cases h
  · obtain ⟨d', hd', h⟩ := (Run.outcome_bind_eq_ok_iff _ _ _).1 h
    cases h
    exact ⟨_, hand_eq_ok_iff.1 hd'⟩

/-- What is true of the documents of a loader, and of their merges, is true of a file with its
environment file. -/
theorem of_loadWithEnvironment {P : Document → Prop} {extension : String} {loader : ExtensionLoader}
    {environment : Option String} {d : Document}
    (hload : ∀ {path d}, loader.load w path = .ok d → P d)
    (hmerge : ∀ {d e : Document}, P d → P e → P (Document.merge d e))
    (h : (loadWithEnvironment w extension loader path environment).outcome = .ok d) : P d := by
  rw [loadWithEnvironment, Run.outcome_bind_eq_ok_iff] at h
  obtain ⟨base, hbase, h⟩ := h
  obtain ⟨layer, hlayer, h⟩ := (Run.outcome_bind_eq_ok_iff _ _ _).1 h
  have hP : P base := hload (hand_eq_ok_iff.1 hbase)
  cases layer with
  | none =>
    cases h
    exact hP
  | some e =>
    cases h
    obtain ⟨sibling, hsibling⟩ := exists_of_overlay_eq_some hlayer
    exact hmerge hP (hload hsibling)

theorem listed_insert (d : Document) (key : String) (paths : List String) :
    Document.listed key (Entries.insert d key (.sequence (paths.map .string))) = paths := by
  rw [Document.listed, Entries.get?_insert_self]
  simp only [List.filterMap_map]
  exact List.filterMap_some

/-- What a successful resolution of an import list gives. -/
theorem resolveImports_eq_ok {key : String} {d : Document} {self : Own}
    (h : (l.resolveImports w key path d).outcome = .ok self) :
    self.document = Entries.insert ((l.resolver w.env).resolve d (some key)).document key
        (.sequence (self.imports.map .string)) ∧
      ((l.resolver w.env).resolve d (some key)).failure = none ∧
      ∃ items, Entries.get? ((l.resolver w.env).resolve d (some key)).document key =
          some (.sequence items) ∧
        importPaths w path 0 items = .ok self.imports := by
  rw [resolveImports, Run.outcome_bind_eq_ok_iff] at h
  obtain ⟨-, -, h⟩ := h
  simp only at h
  split at h
  · simp at h
  · next hfailure =>
    split at h
    · next items hitems =>
      obtain ⟨paths, hpaths, h⟩ := (Run.outcome_bind_eq_ok_iff _ _ _).1 h
      cases h
      exact ⟨rfl, hfailure, items, hitems, hpaths⟩
    · simp at h

/-- An import list that can be read holds texts only, and each of them becomes a path, in order. -/
theorem importPaths_eq_ok {index : Nat} {items : List Value} {paths : List String}
    (h : importPaths w path index items = .ok paths) :
    ∃ raws : List String, items = raws.map .string ∧
      paths = raws.map fun raw => FilePath.normalize w.cwd (FilePath.join (importBase path) raw) := by
  induction items generalizing index paths with
  | nil =>
    cases h
    exact ⟨[], rfl, rfl⟩
  | cons item items ih =>
    cases item with
    | string raw =>
      rw [importPaths] at h
      cases hrest : importPaths w path (index + 1) items with
      | error e => simp [hrest, Except.map] at h
      | ok rest =>
        simp only [hrest, Except.map, Except.ok.injEq] at h
        subst h
        obtain ⟨raws, rfl, rfl⟩ := ih hrest
        exact ⟨raw :: raws, rfl, rfl⟩
    | _ => simp [importPaths] at h

/-- The entries of an import list become normalised paths. -/
theorem normalize_of_mem_importPaths {index : Nat} {items : List Value} {paths : List String}
    (h : importPaths w path index items = .ok paths) :
    ∀ p ∈ paths, FilePath.normalize w.cwd p = p := by
  obtain ⟨raws, -, rfl⟩ := importPaths_eq_ok h
  intro p hp
  obtain ⟨raw, -, rfl⟩ := List.mem_map.1 hp
  exact FilePath.normalize_normalize _ _ _

/-- A file gives a document of its own in one of two ways: as it was loaded, with no list in it, or
with the list that is in it resolved. -/
theorem own_eq_ok {self : Own} (h : (l.own w o path).outcome = .ok self) :
    ∃ loader loaded, l.registry.get? (Extension.ofPath path) = some loader ∧
      (loadWithEnvironment w (Extension.ofPath path) loader path o.environment).outcome = .ok loaded ∧
      ((self = ⟨Document.merge loaded o.data, []⟩ ∧
          ∀ items, Entries.get? self.document o.importsKey ≠ some (.sequence items)) ∨
        (∃ items, Entries.get? (Document.merge loaded o.data) o.importsKey = some (.sequence items)) ∧
          (l.resolveImports w o.importsKey path (Document.merge loaded o.data)).outcome =
            .ok self) := by
  rw [own] at h
  simp only at h
  split at h
  · simp at h
  · next loader hloader =>
    obtain ⟨loaded, hloaded, h⟩ := (Run.outcome_bind_eq_ok_iff _ _ _).1 h
    refine ⟨loader, loaded, hloader, hloaded, ?_⟩
    split at h
    · next items hitems => exact .inr ⟨⟨items, hitems⟩, h⟩
    · next hlist =>
      cases h
      exact .inl ⟨rfl, fun items hi => hlist items hi⟩

/-- The paths that a file imports are those that its document lists. -/
theorem imports_eq_listed {self : Own} (h : (l.own w o path).outcome = .ok self) :
    self.imports = Document.listed o.importsKey self.document := by
  obtain ⟨_, _, -, -, ⟨rfl, hlist⟩ | ⟨-, h⟩⟩ := own_eq_ok h
  · rw [Document.listed]
    split
    · next items hi => exact absurd hi (hlist items)
    · rfl
  · rw [(resolveImports_eq_ok h).1, listed_insert]

/-- The paths that a file imports are normalised. -/
theorem normalize_of_mem_imports {self : Own} (h : (l.own w o path).outcome = .ok self) :
    ∀ p ∈ self.imports, FilePath.normalize w.cwd p = p := by
  obtain ⟨_, _, -, -, ⟨rfl, -⟩ | ⟨-, h⟩⟩ := own_eq_ok h
  · simp
  · obtain ⟨-, -, items, -, hitems⟩ := resolveImports_eq_ok h
    exact normalize_of_mem_importPaths hitems

/-- The document of a file has each key once. -/
theorem distinct_own (hl : l.KeepsKeys w) {self : Own} (h : (l.own w o path).outcome = .ok self) :
    Entries.Distinct self.document := by
  obtain ⟨loader, loaded, hloader, hloaded, h⟩ := own_eq_ok h
  have hmerged : Entries.Distinct (Document.merge loaded o.data) :=
    Document.distinct_merge (of_loadWithEnvironment (hl.load hloader)
      (fun hd _ => Document.distinct_merge hd _) hloaded) _
  rcases h with ⟨rfl, -⟩ | ⟨-, h⟩
  · exact hmerged
  · rw [(resolveImports_eq_ok h).1]
    exact (hl.resolve _ hmerged).insert _ _

/-- Loaders for JSON and YAML keep to documents that are maps, and so does the resolver of
placeholders. -/
theorem keepsKeys_of_builtin {options : ResolverOptions}
    (hregistry : ∀ extension loader, l.registry.get? extension = some loader →
      loader = .json ∨ loader = .yaml)
    (hresolver : l.resolver = .placeholders options) (w : World) : l.KeepsKeys w where
  load hloader h := by
    rcases hregistry _ _ hloader with rfl | rfl
    · exact ExtensionLoader.distinct_of_json h
    · exact ExtensionLoader.distinct_of_yaml h
  resolve key h := by
    rw [hresolver]
    exact Resolver.distinct_placeholders (some key) h

end Loader

end ConfigTree
