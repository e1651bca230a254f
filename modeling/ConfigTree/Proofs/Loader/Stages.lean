import ConfigTree.Loader.Load
import ConfigTree.Proofs.Document.LastWriter
import ConfigTree.Proofs.Loader.Composition

/-!
# The stages of a load

A load lays the documents of a file over each other, reads the import list of what results, merges the
imports below it, and resolves the references of the whole. Each stage is told here by what the one before
it gave: the layers of a file by themselves (`layered`), the file without a list (`loadRaw_of_listless`), and
the last pass, which leaves a list of imports alone and treats everything else alike
(`loadWith_eq_ok_iff`).
-/

namespace ConfigTree

/-- The document of a file is laid over the documents of its imports, if it has any. -/
theorem Own.over_eq_or (self : Own) (ds : List Document) :
    Own.over self ds = self.document ∨
      Own.over self ds = Document.merge (Document.mergeAll ds) self.document := by
  rw [Own.over]
  by_cases hnil : self.imports = []
  · rw [if_pos hnil]
    exact .inl rfl
  · rw [if_neg hnil, Document.mergeAll_append]
    exact .inr rfl

namespace Loader

variable {l : Loader} {w : World} {o : EffectiveOptions} {path : String} {d d' : Document}
  {overrides : LoadOptions}

/-- The document of a file with its environment file and the data of the caller laid over it, its import
list as it is written. -/
def layered (l : Loader) (w : World) (o : EffectiveOptions) (path : String) : Run Document :=
  match l.registry.get? (Extension.ofPath path) with
  | none => Run.fail (.unregisteredExtension (Extension.ofPath path) path)
  | some loader => do
    let loaded ← loadWithEnvironment w (Extension.ofPath path) loader path o.environment
    return Document.merge loaded o.data

theorem layered_eq_ok_iff :
    (l.layered w o path).outcome = .ok d ↔
      ∃ loader loaded, l.registry.get? (Extension.ofPath path) = some loader ∧
        (loadWithEnvironment w (Extension.ofPath path) loader path o.environment).outcome = .ok loaded ∧
        d = Document.merge loaded o.data := by
  rw [layered]
  cases l.registry.get? (Extension.ofPath path) with
  | none => simp
  | some loader =>
    simp only [Run.outcome_bind_eq_ok_iff, Run.outcome_pure, Except.ok.injEq, Option.some.injEq,
      eq_comm (b := d)]
    constructor
    · rintro ⟨loaded, hloaded, hd⟩
      exact ⟨loader, loaded, rfl, hloaded, hd⟩
    · rintro ⟨_, loaded, rfl, hloaded, hd⟩
      exact ⟨loaded, hloaded, hd⟩

/-- What a file gives by itself is its layers, with the import list in them resolved. -/
theorem own_eq_layered :
    l.own w o path = (l.layered w o path) >>= fun d =>
      match Entries.get? d o.importsKey with
      | some (.sequence _) => l.resolveImports w o.importsKey path d
      | _ => return ⟨d, []⟩ := by
  rw [own, layered]
  cases l.registry.get? (Extension.ofPath path) with
  | none => rfl
  | some loader =>
    dsimp only
    rw [bind_assoc]
    rfl

/-- The layers of a file have each key once. -/
theorem distinct_layered (hl : l.KeepsKeys w) (h : (l.layered w o path).outcome = .ok d) :
    Entries.Distinct d := by
  obtain ⟨loader, loaded, hloader, hloaded, rfl⟩ := layered_eq_ok_iff.1 h
  refine Document.distinct_merge ?_ _
  exact of_loadWithEnvironment (hl.load hloader) (fun hd _ => Document.distinct_merge hd _) hloaded

/-! ### The file at the top -/

/-- A file whose layers hold a list is loaded as far as its list can be resolved. -/
theorem own_of_listed {items : List Value} {self : Own} (h : (l.layered w o path).outcome = .ok d)
    (hitems : Entries.get? d o.importsKey = some (.sequence items)) :
    (l.own w o path).outcome = .ok self ↔
      (l.resolveImports w o.importsKey path d).outcome = .ok self := by
  rw [own_eq_layered, Run.outcome_bind_eq_ok_iff]
  simp [h, hitems]

/-- A file whose layers hold no list gives its layers and imports nothing. -/
theorem own_of_listless (h : (l.layered w o path).outcome = .ok d)
    (hlist : ∀ items, Entries.get? d o.importsKey ≠ some (.sequence items)) :
    (l.own w o path).outcome = .ok ⟨d, []⟩ := by
  rw [own_eq_layered, Run.outcome_bind_eq_ok_iff]
  refine ⟨d, h, ?_⟩
  split
  · next items hitems => exact absurd hitems (hlist items)
  · rfl

theorem loadRaw_of_listless
    (h : (l.layered w (l.options.effective overrides) (FilePath.normalize w.cwd path)).outcome = .ok d)
    (hlist : ∀ items, Entries.get? d (l.options.effective overrides).importsKey ≠
      some (.sequence items)) :
    (l.loadRaw w path overrides).outcome = .ok d := by
  refine loadRaw_eq_ok_iff_exists.2 ⟨1, loadDocument_eq_ok_iff.2 ?_⟩
  exact ⟨List.not_mem_nil, 0, ⟨d, []⟩, [], rfl, own_of_listless h hlist, .nil, rfl⟩

/-- A load gives the document of the file at the top over those of its imports. -/
theorem exists_own_of_loadRaw (h : (l.loadRaw w path overrides).outcome = .ok d) :
    ∃ self ds, (l.own w (l.options.effective overrides) (FilePath.normalize w.cwd path)).outcome =
      .ok self ∧ d = Own.over self ds := by
  obtain ⟨n, h⟩ := loadRaw_eq_ok_iff_exists.1 h
  obtain ⟨-, -, self, ds, -, hself, -, hd⟩ := loadDocument_eq_ok_iff.1 h
  exact ⟨self, ds, hself, hd⟩

/-! ### The last pass -/

/-- What the last pass makes of a loaded document. -/
def finish (resolver : Resolver) (key : String) (d : Document) : Resolution :=
  match Entries.get? d key with
  | some (.sequence _) => resolver.resolveExcept d key
  | _ => resolver.resolve d none

theorem resolveLoaded_eq_ok_iff {key : String} :
    (l.resolveLoaded w key path d).outcome = .ok d' ↔ finish (l.resolver w.env) key d = ⟨d', none⟩ := by
  have hpass : (l.resolveLoaded w key path d).outcome =
      (finish (l.resolver w.env) key d).failure.elim (.ok (finish (l.resolver w.env) key d).document)
        fun e => .error (.reference path e) := by
    rw [resolveLoaded, finish]
    cases Entries.get? d key with
    | none => cases h : ((l.resolver w.env).resolve d none).failure <;> simp [bind, Run.andThen, h]
    | some v =>
      cases v with
      | sequence items =>
        cases h : ((l.resolver w.env).resolveExcept d key).failure <;>
          simp [bind, Run.andThen, Value.isSequence, h]
      | _ =>
        cases h : ((l.resolver w.env).resolve d none).failure <;>
          simp [bind, Run.andThen, Value.isSequence, h]
  rw [hpass]
  obtain ⟨document, failure⟩ := finish (l.resolver w.env) key d
  cases failure <;> simp

/-- What it takes for a whole load to give a result. -/
theorem loadWith_eq_ok_iff {output : LoadOutput} :
    (l.loadWith w path overrides).outcome = .ok output ↔
      ∃ loaded d, (l.loadRaw w path overrides).outcome = .ok loaded ∧
        finish (l.resolver w.env) (l.options.effective overrides).importsKey loaded = ⟨d, none⟩ ∧
        output = if (l.options.effective overrides).flattenOutput then .flattened ⟨d⟩ else .document d := by
  rw [loadWith]
  simp only [Run.outcome_bind_eq_ok_iff, resolveLoaded_eq_ok_iff, Run.outcome_pure, Except.ok.injEq,
    eq_comm (b := output), exists_and_left]

end Loader

end ConfigTree
