import ConfigTree.Proofs.Descent
import ConfigTree.Proofs.Loader.Depth
import ConfigTree.Proofs.World.Files
import Mathlib.Data.List.Perm.Subperm

/-!
# Files bound how deep imports are nested

A loader of the caller may answer for any path, and then imports can be nested for ever. Where loaders
read files they cannot: the chain of a load holds different paths of files, so it is no longer than
there are files. Then the first limit is enough, and a load is the load within that limit
(`loadRaw_eq_loadDocument`).
-/

namespace ConfigTree

/-- A loader that gives documents only for files that it reads. -/
def ExtensionLoader.ReadsFiles (loader : ExtensionLoader) : Prop :=
  ∀ w path d, loader.load w path = .ok d → ∃ text, w.readText path = .ok text

theorem ExtensionLoader.readsFiles_json : ReadsFiles .json := by
  intro w path d h
  simp only [json] at h
  cases htext : w.readText path with
  | error e => simp [htext] at h
  | ok text => exact ⟨text, rfl⟩

theorem ExtensionLoader.readsFiles_yaml : ReadsFiles .yaml := by
  intro w path d h
  simp only [yaml] at h
  cases htext : w.readText path with
  | error e => simp [htext] at h
  | ok text => exact ⟨text, rfl⟩

namespace Loader

/-- All registered loaders give documents only for files that they read. -/
def ReadsFiles (l : Loader) : Prop :=
  ∀ extension loader, l.registry.get? extension = some loader → loader.ReadsFiles

variable {l : Loader} {w : World} {o : EffectiveOptions} {path : String} {chain : List String} {n : Nat}

theorem readsFiles_of_builtin (hregistry : ∀ extension loader,
    l.registry.get? extension = some loader → loader = .json ∨ loader = .yaml) : l.ReadsFiles := by
  intro extension loader h
  rcases hregistry extension loader h with rfl | rfl
  · exact ExtensionLoader.readsFiles_json
  · exact ExtensionLoader.readsFiles_yaml

/-- A normalised path with a document of its own is the path of a file. -/
theorem mem_filePaths_of_own (hl : l.ReadsFiles) (hpath : FilePath.normalize w.cwd path = path)
    {self : Own} (h : (l.own w o path).outcome = .ok self) : path ∈ w.filePaths := by
  obtain ⟨loader, loaded, hloader, hloaded, -⟩ := own_eq_ok h
  rw [loadWithEnvironment, Run.outcome_bind_eq_ok_iff] at hloaded
  obtain ⟨base, hbase, -⟩ := hloaded
  obtain ⟨text, htext⟩ := hl _ _ hloader w path base (hand_eq_ok_iff.1 hbase)
  exact World.mem_filePaths_of_readText hpath htext

/-- Runs that are not cut. -/
def uncut : MonadRelation Run Run where
  Rel x _ := x.isCut = false
  of_pure _ := rfl
  of_bind hx hf := (Run.isCut_bind_eq_false_iff _ _).2 ⟨hx, fun a _ => hf a⟩

theorem isCut_mapM {α β : Type} {f : α → Run β} {xs : List α} (h : ∀ x ∈ xs, (f x).isCut = false) :
    (xs.mapM f).isCut = false :=
  uncut.of_mapM (g := f) h

/-- A load on a chain of different files is not cut while there are more levels left than files. -/
theorem isCut_loadDocument (hl : l.ReadsFiles) (hnodup : chain.Nodup) (hchain : chain ⊆ w.filePaths)
    (hpath : FilePath.normalize w.cwd path = path) (hn : w.fileCount < n + chain.length) :
    (l.loadDocument w o n chain path).isCut = false := by
  induction n generalizing chain path with
  | zero =>
    have hle : chain.length ≤ w.fileCount := by
      rw [← w.length_filePaths]
      exact (List.subperm_of_subset hnodup hchain).length_le
    omega
  | succ n ih =>
    rw [loadDocument.eq_2, Run.isCut_bind_eq_false_iff]
    refine ⟨Run.isCut_note _, fun _ _ => ?_⟩
    split_ifs with hmem
    · rfl
    · refine (Run.isCut_bind_eq_false_iff _ _).2 ⟨isCut_own path, fun self hself => ?_⟩
      split_ifs
      · rfl
      · refine (Run.isCut_bind_eq_false_iff _ _).2 ⟨isCut_mapM fun i hi => ?_, fun _ _ => rfl⟩
        refine ih (nodup_append_singleton hnodup hmem)
          (append_singleton_subset hchain (mem_filePaths_of_own hl hpath hself))
          (normalize_of_mem_imports hself i hi) ?_
        rw [List.length_append, List.length_singleton]
        omega

/-- Where loaders read files, a load is the load within the first limit, which is enough. -/
theorem loadRaw_eq_loadDocument (hl : l.ReadsFiles) (path : String) (overrides : LoadOptions) :
    (l.loadDocument w (l.options.effective overrides) (nestingLimit w) []
        (FilePath.normalize w.cwd path)).isCut = false ∧
      l.loadRaw w path overrides =
        l.loadDocument w (l.options.effective overrides) (nestingLimit w) []
          (FilePath.normalize w.cwd path) := by
  have hcut : (l.loadDocument w (l.options.effective overrides) (nestingLimit w) []
      (FilePath.normalize w.cwd path)).isCut = false := by
    refine isCut_loadDocument hl List.nodup_nil (List.nil_subset _)
      (FilePath.normalize_normalize ..) ?_
    rw [nestingLimit, List.length_nil]
    omega
  refine ⟨hcut, ?_⟩
  simp only [loadRaw, loadDeep_eq_some hcut]

end Loader

end ConfigTree
