import ConfigTree.Proofs.Descent
import ConfigTree.Proofs.Loader.Depth
import Mathlib.Data.List.Forall2

/-!
# Loading is compositional

A load goes from file to file with the chain of files that led there, so what it gives for an import
could depend on where it was imported from. It does not. The chain can only turn a load into an import
cycle: a file that gives a document on one chain gives the same document on every chain of files that
lead to it (`loadDocument_eq_ok_of_chain`), as no file that can be loaded is reached from itself.

So a load is told by the loads of the imported files, each made by itself: it gives a document exactly
when the file has a document of its own and each of these loads gives one, and then it gives their
merge, in the order of the list, with the file's own document over them (`loadRaw_eq_ok_iff`).
-/

namespace ConfigTree

open Relation

/-- The document of a file over the documents of its imports. -/
def Own.over (self : Own) (ds : List Document) : Document :=
  if self.imports = [] then self.document else Document.mergeAll (ds ++ [self.document])

/-- Without imports there is nothing to merge, which is to merge with nothing. -/
theorem Own.over_eq_mergeAll {self : Own} {ds : List Document}
    (hself : Entries.Distinct self.document) (hds : self.imports = [] → ds = []) :
    Own.over self ds = Document.mergeAll (ds ++ [self.document]) := by
  rw [Own.over]
  split_ifs with h
  · simp [hds h, Document.mergeAll, Document.nil_merge hself]
  · rfl

namespace Loader

variable {l : Loader} {w : World} {o : EffectiveOptions} {p q path : String} {d : Document} {n : Nat}

/-- The second file is on the import list of the first. -/
def Imports (l : Loader) (w : World) (o : EffectiveOptions) (p q : String) : Prop :=
  ∃ self, (l.own w o p).outcome = .ok self ∧ q ∈ self.imports

theorem outcome_mapM_eq_ok_iff {α β : Type} {f : α → Run β} {xs : List α} {ys : List β} :
    (xs.mapM f).outcome = .ok ys ↔ List.Forall₂ (fun x y => (f x).outcome = .ok y) xs ys := by
  induction xs generalizing ys with
  | nil => simp [eq_comm]
  | cons x xs ih =>
    rw [List.mapM_cons, Run.outcome_bind_eq_ok_iff, List.forall₂_cons_left_iff]
    simp only [Run.outcome_bind_eq_ok_iff, ih]
    constructor
    · rintro ⟨y, hy, ys', hys, h⟩
      cases h
      exact ⟨y, ys', hy, hys, rfl⟩
    · rintro ⟨y, ys', hy, hys, rfl⟩
      exact ⟨y, hy, ys', hys, rfl⟩

theorem exists_of_forall₂ {α β : Type} {R : α → β → Prop} {xs : List α} {ys : List β} {x : α}
    (h : List.Forall₂ R xs ys) (hx : x ∈ xs) : ∃ y, R x y := by
  induction h with
  | nil => simp at hx
  | cons hxy _ ih =>
    rcases List.mem_cons.1 hx with rfl | hx
    · exact ⟨_, hxy⟩
    · exact ih hx

theorem forall₂_imp_of_mem {α β : Type} {R S : α → β → Prop} {xs : List α} {ys : List β}
    (h : List.Forall₂ R xs ys) (hS : ∀ x ∈ xs, ∀ y, R x y → S x y) : List.Forall₂ S xs ys := by
  have hmem := (List.forall₂_and_left xs ys).2 ⟨fun _ hx => hx, h⟩
  exact hmem.imp fun x y hxy => hS x hxy.1 y hxy.2

/-- What it takes for a load to give a document. -/
theorem loadDocument_eq_ok_iff {chain : List String} :
    (l.loadDocument w o n chain path).outcome = .ok d ↔
      path ∉ chain ∧ ∃ m self ds, n = m + 1 ∧ (l.own w o path).outcome = .ok self ∧
        List.Forall₂ (fun i d => (l.loadDocument w o m (chain ++ [path]) i).outcome = .ok d)
          self.imports ds ∧ d = Own.over self ds := by
  cases n with
  | zero =>
    rw [loadDocument.eq_1]
    by_cases hmem : path ∈ chain <;> simp [hmem, Run.outcome_bind_eq_ok_iff]
  | succ m =>
    rw [loadDocument.eq_2]
    by_cases hmem : path ∈ chain
    · simp [hmem, Run.outcome_bind_eq_ok_iff]
    · simp only [hmem, if_false, not_false_eq_true, true_and, Run.outcome_bind_eq_ok_iff,
        Run.outcome_note, exists_const]
      constructor
      · rintro ⟨self, hself, h⟩
        refine ⟨m, self, ?_⟩
        by_cases hnil : self.imports = []
        · rw [if_pos hnil] at h
          cases h
          exact ⟨[], rfl, hself, by simp [hnil], by simp [Own.over, hnil]⟩
        · rw [if_neg hnil, Run.outcome_bind_eq_ok_iff] at h
          obtain ⟨ds, hds, h⟩ := h
          cases h
          exact ⟨ds, rfl, hself, outcome_mapM_eq_ok_iff.1 hds, by simp [Own.over, hnil]⟩
      · rintro ⟨m', self, ds, hm, hself, hds, rfl⟩
        cases hm
        refine ⟨self, hself, ?_⟩
        by_cases hnil : self.imports = []
        · simp [Own.over, hnil]
        · rw [if_neg hnil, Run.outcome_bind_eq_ok_iff]
          exact ⟨ds, outcome_mapM_eq_ok_iff.2 hds, by simp [Own.over, hnil]⟩

/-- What is loaded from a file within `n` levels is loaded from its imports within fewer. -/
theorem loads_descend (n : Nat) (p q : String)
    (hp : ∃ chain d, (l.loadDocument w o n chain p).outcome = .ok d) (hpq : Imports l w o p q) :
    ∃ m < n, ∃ chain d, (l.loadDocument w o m chain q).outcome = .ok d := by
  obtain ⟨chain, d, hd⟩ := hp
  obtain ⟨-, m, self, ds, rfl, hself, hds, -⟩ := loadDocument_eq_ok_iff.1 hd
  obtain ⟨self', hself', hq⟩ := hpq
  obtain rfl : self = self' := by simpa [hself] using hself'
  obtain ⟨d', hd'⟩ := exists_of_forall₂ hds hq
  exact ⟨m, by omega, _, d', hd'⟩

/-- **The chain does not matter.** A file that gives a document gives it on every chain of files that
lead to it by imports. -/
theorem loadDocument_eq_ok_of_chain {chain chain' : List String}
    (h : (l.loadDocument w o n chain p).outcome = .ok d)
    (hchain : ∀ q ∈ chain', TransGen (Imports l w o) q p) :
    (l.loadDocument w o n chain' p).outcome = .ok d := by
  induction n generalizing chain chain' p d with
  | zero =>
    obtain ⟨-, m, -, -, hm, -⟩ := loadDocument_eq_ok_iff.1 h
    exact absurd hm (by omega)
  | succ n ih =>
    have hmem : p ∉ chain' := fun hp =>
      not_transGen_self loads_descend ⟨chain, d, h⟩ (hchain p hp)
    obtain ⟨-, m, self, ds, hm, hself, hds, rfl⟩ := loadDocument_eq_ok_iff.1 h
    obtain rfl : n = m := by omega
    refine loadDocument_eq_ok_iff.2 ⟨hmem, n, self, ds, rfl, hself, ?_, rfl⟩
    refine forall₂_imp_of_mem hds fun i hi di hdi => ih hdi ?_
    exact transGen_of_mem_append hchain ⟨self, hself, hi⟩

/-- Loads that each give a document under some limit all give it under one. -/
theorem exists_limit {chain paths : List String} {ds : List Document}
    (h : List.Forall₂ (fun i d => ∃ n, (l.loadDocument w o n chain i).outcome = .ok d) paths ds) :
    ∃ n, List.Forall₂ (fun i d => (l.loadDocument w o n chain i).outcome = .ok d) paths ds := by
  induction h with
  | nil => exact ⟨0, .nil⟩
  | cons hi _ ih =>
    obtain ⟨n, hn⟩ := hi
    obtain ⟨m, hm⟩ := ih
    refine ⟨max n m, .cons (loadDocument_eq_ok_of_le (Nat.le_max_left n m) hn) ?_⟩
    exact hm.imp fun i d hd => loadDocument_eq_ok_of_le (Nat.le_max_right n m) hd

/-- **Loading is compositional.** A load gives a document exactly when the file has a document of its
own and each file on its import list, loaded by itself with the same options, gives one; what it gives
is the merge of these, in the order of the list, and of the file's own document. -/
theorem loadRaw_eq_ok_iff (hl : l.KeepsKeys w) (path : String) (overrides : LoadOptions)
    (d : Document) :
    (l.loadRaw w path overrides).outcome = .ok d ↔
      ∃ self ds,
        (l.own w (l.options.effective overrides) (FilePath.normalize w.cwd path)).outcome = .ok self ∧
        List.Forall₂ (fun i d => (l.loadRaw w i overrides).outcome = .ok d)
          (Document.listed (l.options.effective overrides).importsKey self.document) ds ∧
        d = Document.mergeAll (ds ++ [self.document]) := by
  set o := l.options.effective overrides with ho
  have hover : ∀ {self : Own} {ds : List Document} {S : String → Document → Prop},
      (l.own w o (FilePath.normalize w.cwd path)).outcome = .ok self →
      List.Forall₂ S self.imports ds →
      Own.over self ds = Document.mergeAll (ds ++ [self.document]) := by
    intro self ds S hself hds
    refine Own.over_eq_mergeAll (distinct_own hl hself) fun hnil => ?_
    rw [hnil] at hds
    exact List.forall₂_nil_left_iff.1 hds
  have hraw : ∀ {self : Own} {i : String} {d : Document},
      (l.own w o (FilePath.normalize w.cwd path)).outcome = .ok self → i ∈ self.imports →
      ((l.loadRaw w i overrides).outcome = .ok d ↔
        ∃ n, (l.loadDocument w o n [] i).outcome = .ok d) := by
    intro self i d hself hi
    rw [loadRaw_eq_ok_iff_exists, normalize_of_mem_imports hself i hi]
  rw [loadRaw_eq_ok_iff_exists, ← ho]
  constructor
  · rintro ⟨n, h⟩
    obtain ⟨-, m, self, ds, -, hself, hds, rfl⟩ := loadDocument_eq_ok_iff.1 h
    refine ⟨self, ds, hself, ?_, hover hself hds⟩
    rw [← imports_eq_listed hself]
    refine forall₂_imp_of_mem hds fun i hi di hdi => (hraw hself hi).2 ⟨m, ?_⟩
    exact loadDocument_eq_ok_of_chain hdi (by simp)
  · rintro ⟨self, ds, hself, hds, rfl⟩
    rw [← imports_eq_listed hself] at hds
    obtain ⟨n, hn⟩ := exists_limit
      (forall₂_imp_of_mem hds fun i hi di hdi => (hraw hself hi).1 hdi)
    refine ⟨n + 1, loadDocument_eq_ok_iff.2 ⟨by simp, n, self, ds, rfl, hself, ?_, ?_⟩⟩
    · refine forall₂_imp_of_mem hn fun i hi di hdi => loadDocument_eq_ok_of_chain hdi fun q hq => ?_
      rw [List.nil_append, List.mem_singleton] at hq
      rw [hq]
      exact .single ⟨self, hself, hi⟩
    · exact (hover hself hds).symm

/-- A loader for JSON files. -/
def jsonOnly : Loader := ⟨{}, ⟨[(".json", .json)]⟩, .placeholders {}⟩

theorem builtin_jsonOnly (extension : String) (loader : ExtensionLoader)
    (h : jsonOnly.registry.get? extension = some loader) : loader = .json ∨ loader = .yaml := by
  simp only [jsonOnly, Registry.get?, Entries.get?] at h
  split_ifs at h
  cases h
  exact .inl rfl

/-- A file that imports another one twice, once by way of a third. -/
def diamond : World where
  nodes := [
    ("/top.json", .file "\x7b\"imports\":[\"left.json\",\"base.json\"],\"x\":1\x7d".toUTF8),
    ("/left.json", .file "\x7b\"imports\":[\"./base.json\"],\"y\":2\x7d".toUTF8),
    ("/base.json", .file "\x7b\"z\":3,\"x\":4\x7d".toUTF8)]

/-- The import list of the file at the top is its own, and its keys come after those of its imports. -/
theorem loadRaw_diamond :
    jsonOnly.KeepsKeys diamond ∧
      ∃ self ds,
        (jsonOnly.own diamond (jsonOnly.options.effective {}) "/top.json").outcome = .ok self ∧
        List.Forall₂ (fun i d => (jsonOnly.loadRaw diamond i {}).outcome = .ok d)
          (Document.listed "imports" self.document) ds ∧
        [("z", .number (.int 3)), ("x", .number (.int 1)),
            ("imports", .sequence [.string "/left.json", .string "/base.json"]),
            ("y", .number (.int 2))] = Document.mergeAll (ds ++ [self.document]) := by
  have hkeys : jsonOnly.KeepsKeys diamond := keepsKeys_of_builtin builtin_jsonOnly rfl diamond
  refine ⟨hkeys, (loadRaw_eq_ok_iff hkeys "/top.json" {} _).1 ?_⟩
  exact loadRaw_eq_ok_iff_exists.2 ⟨3, by decide +kernel⟩

end Loader

end ConfigTree
