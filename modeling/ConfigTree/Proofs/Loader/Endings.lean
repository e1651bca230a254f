import ConfigTree.Proofs.Loader.Composition
import ConfigTree.Proofs.Loader.Nesting

/-!
# What a load can end with

The files on an import list are to be loaded together, and so are a file and its environment file. The
first failure that happens is the failure of them all, and nothing says which of several that is. A run
goes through them one after another, which is one order among many. What could a load end with in the
others?

`CanEnd` tells all of it: the failure of any one of the things that are loaded together, or the merge of all
their documents. A run ends in one of these ways (`canEnd_loadRaw`). Documents do not depend on the order: a
load can end with a document exactly when a run ends with it (`canEnd_ok_iff`), and then it cannot fail
(`CanEnd.not_ok`). Which failure is told does depend on it (`canEnd_torn`).
-/

namespace ConfigTree.Loader

/-- Reading a file and its environment file together can end with the failure. -/
inductive CanFailToRead (l : Loader) (w : World) (o : EffectiveOptions) (path : String)
    (e : LoaderError) : Prop
  /-- What is read one after the other, or what comes after both, fails. -/
  | file : (l.own w o path).outcome = .error e → CanFailToRead l w o path e
  /-- The environment file fails, perhaps before the file does. -/
  | sibling {loader : ExtensionLoader} :
      l.registry.get? (Extension.ofPath path) = some loader →
      (overlay w (Extension.ofPath path) loader path o.environment).outcome = .error e →
      CanFailToRead l w o path e

/-- What the load of a path can end with when the chain leads to it, whichever comes first of what is
loaded together. -/
inductive CanEnd (l : Loader) (w : World) (o : EffectiveOptions) :
    List String → String → Except LoaderError Document → Prop
  /-- The path is on the chain that leads to it. -/
  | cyclic {chain : List String} {path : String} : path ∈ chain →
      CanEnd l w o chain path (.error (.cyclicImport path (chain ++ [path])))
  /-- The file cannot be read. -/
  | unread {chain : List String} {path : String} {e : LoaderError} : path ∉ chain →
      CanFailToRead l w o path e → CanEnd l w o chain path (.error e)
  /-- One of the imports fails, and comes first. -/
  | imported {chain : List String} {path i : String} {e : LoaderError} : path ∉ chain →
      Imports l w o path i → CanEnd l w o (chain ++ [path]) i (.error e) →
      CanEnd l w o chain path (.error e)
  /-- All imports give a document. -/
  | loaded {chain : List String} {path : String} {self : Own} {ds : List Document} : path ∉ chain →
      (l.own w o path).outcome = .ok self → self.imports.length = ds.length →
      (∀ i d, (i, d) ∈ self.imports.zip ds → CanEnd l w o (chain ++ [path]) i (.ok d)) →
      CanEnd l w o chain path (.ok (Own.over self ds))

variable {l : Loader} {w : World} {o : EffectiveOptions} {path : String} {chain : List String}
  {d : Document} {e : LoaderError} {n : Nat}

/-! ### Documents do not depend on the order -/

theorem canEnd_of_eq_ok (h : (l.loadDocument w o n chain path).outcome = .ok d) :
    CanEnd l w o chain path (.ok d) := by
  induction n generalizing chain path d with
  | zero =>
    obtain ⟨-, m, -, -, hm, -⟩ := loadDocument_eq_ok_iff.1 h
    exact absurd hm (by omega)
  | succ n ih =>
    obtain ⟨hmem, m, self, ds, hm, hself, hds, rfl⟩ := loadDocument_eq_ok_iff.1 h
    obtain rfl : n = m := by omega
    obtain ⟨hlength, hzip⟩ := List.forall₂_iff_zip.1 hds
    exact .loaded hmem hself hlength fun i d hid => ih (hzip hid)

/-- A load can end with a document exactly when it ends with it one after another, under some limit. -/
theorem canEnd_ok_iff_exists : CanEnd l w o chain path (.ok d) ↔
    ∃ n, (l.loadDocument w o n chain path).outcome = .ok d := by
  refine ⟨fun h => ?_, fun ⟨n, h⟩ => canEnd_of_eq_ok h⟩
  generalize hend : (Except.ok d : Except LoaderError Document) = r at h
  induction h generalizing d with
  | cyclic _ => cases hend
  | unread _ _ => cases hend
  | imported _ _ _ _ => cases hend
  | @loaded chain path self ds hmem hself hlength _ ih =>
    cases hend
    have hds : List.Forall₂ (fun i d => ∃ n, (l.loadDocument w o n (chain ++ [path]) i).outcome = .ok d)
        self.imports ds := List.forall₂_iff_zip.2 ⟨hlength, fun hid => ih _ _ hid rfl⟩
    obtain ⟨n, hn⟩ := exists_limit hds
    exact ⟨n + 1, loadDocument_eq_ok_iff.2 ⟨hmem, n, self, ds, rfl, hself, hn, rfl⟩⟩

/-- **Documents do not depend on the order.** A load can end with a document exactly when a run ends with it. -/
theorem canEnd_ok_iff {root : String} {overrides : LoadOptions} :
    CanEnd l w (l.options.effective overrides) [] (FilePath.normalize w.cwd root) (.ok d) ↔
      (l.loadRaw w root overrides).outcome = .ok d := by
  rw [canEnd_ok_iff_exists, loadRaw_eq_ok_iff_exists]

/-- A file that fails to be read in one order fails in all of them. -/
theorem CanFailToRead.own_ne_ok (h : CanFailToRead l w o path e) (self : Own) :
    (l.own w o path).outcome ≠ .ok self := by
  intro hself
  cases h with
  | file h => simp [h] at hself
  | @sibling loader hloader h =>
    obtain ⟨loader', loaded, hloader', hloaded, -⟩ := own_eq_ok hself
    obtain rfl : loader = loader' := by simpa [hloader] using hloader'
    rw [loadWithEnvironment, Run.outcome_bind_eq_ok_iff] at hloaded
    obtain ⟨base, -, hloaded⟩ := hloaded
    obtain ⟨layer, hlayer, -⟩ := (Run.outcome_bind_eq_ok_iff _ _ _).1 hloaded
    simp [h] at hlayer

/-- A load that can end with a failure cannot end with a document. -/
theorem CanEnd.not_ok (h : CanEnd l w o chain path (.error e)) : ¬ CanEnd l w o chain path (.ok d) := by
  generalize hend : (Except.error e : Except LoaderError Document) = r at h
  induction h generalizing d with
  | cyclic hmem =>
    intro hok
    cases hok with
    | loaded hnot => exact hnot hmem
  | unread _ hread =>
    intro hok
    cases hok with
    | loaded _ hself => exact hread.own_ne_ok _ hself
  | imported _ himports _ ih =>
    intro hok
    cases hok with
    | @loaded _ _ self ds _ hself hlength hds =>
      obtain ⟨self', hself', hi⟩ := himports
      obtain rfl : self = self' := by simpa [hself] using hself'
      obtain ⟨d', hd'⟩ := exists_of_forall₂ (List.forall₂_iff_zip.2 ⟨hlength, @hds⟩) hi
      exact ih hend hd'
  | loaded _ _ _ _ => cases hend

/-! ### A run is one of the orders -/

/-- What fails for several things in turn fails for one of them. -/
theorem exists_of_outcome_mapM_eq_error {α β : Type} {f : α → Run β} {xs : List α}
    (h : (xs.mapM f).outcome = .error e) (hcut : (xs.mapM f).isCut = false) :
    ∃ x ∈ xs, (f x).outcome = .error e ∧ (f x).isCut = false := by
  induction xs with
  | nil => cases h
  | cons x xs ih =>
    rw [List.mapM_cons] at h hcut
    obtain ⟨hx, hrest⟩ := (Run.isCut_bind_eq_false_iff _ _).1 hcut
    rcases (Run.outcome_bind_eq_error_iff _ _ _).1 h with h | ⟨y, hy, h⟩
    · exact ⟨x, by simp, h, hx⟩
    · have hxs := ((Run.isCut_bind_eq_false_iff _ _).1 (hrest y hy)).1
      rcases (Run.outcome_bind_eq_error_iff _ _ _).1 h with h | ⟨ys, -, h⟩
      · obtain ⟨x', hx', h⟩ := ih h hxs
        exact ⟨x', by simp [hx'], h⟩
      · cases h

/-- A load that is not cut fails at a file of the chain, or while the file is read, or with one of the
imports. -/
theorem loadDocument_error_cases (hcut : (l.loadDocument w o n chain path).isCut = false)
    (h : (l.loadDocument w o n chain path).outcome = .error e) :
    (path ∈ chain ∧ e = .cyclicImport path (chain ++ [path])) ∨
      (path ∉ chain ∧ ((l.own w o path).outcome = .error e ∨
        ∃ m i, n = m + 1 ∧ Imports l w o path i ∧
          (l.loadDocument w o m (chain ++ [path]) i).outcome = .error e ∧
          (l.loadDocument w o m (chain ++ [path]) i).isCut = false)) := by
  cases n with
  | zero =>
    rw [loadDocument.eq_1] at h hcut
    split_ifs at h hcut with hmem
    · cases h
      exact .inl ⟨hmem, rfl⟩
    · cases hcut
  | succ m =>
    rw [loadDocument.eq_2] at h hcut
    split_ifs at h hcut with hmem
    · cases h
      exact .inl ⟨hmem, rfl⟩
    · -- The file is visited, then read, then its imports are loaded: which of these failed?
      refine .inr ⟨hmem, ?_⟩
      have hafter := ((Run.isCut_bind_eq_false_iff _ _).1 hcut).2 () rfl
      obtain h | ⟨-, -, h⟩ := (Run.outcome_bind_eq_error_iff _ _ _).1 h
      · cases h
      obtain h | ⟨self, hself, h⟩ := (Run.outcome_bind_eq_error_iff _ _ _).1 h
      · exact .inl h
      have hrest := ((Run.isCut_bind_eq_false_iff _ _).1 hafter).2 self hself
      split_ifs at h hrest with hnil
      · cases h
      obtain h | ⟨ds, -, h⟩ := (Run.outcome_bind_eq_error_iff _ _ _).1 h
      · have hmap := ((Run.isCut_bind_eq_false_iff _ _).1 hrest).1
        obtain ⟨i, hi, h⟩ := exists_of_outcome_mapM_eq_error h hmap
        exact .inr ⟨m, i, rfl, ⟨self, hself, hi⟩, h⟩
      · cases h

theorem canEnd_of_eq_error (hcut : (l.loadDocument w o n chain path).isCut = false)
    (h : (l.loadDocument w o n chain path).outcome = .error e) :
    CanEnd l w o chain path (.error e) := by
  induction n using Nat.strongRecOn generalizing chain path with
  | ind n ih =>
    rcases loadDocument_error_cases hcut h with ⟨hmem, rfl⟩ | ⟨hmem, h | ⟨m, i, rfl, himports, h, hcut⟩⟩
    · exact .cyclic hmem
    · exact .unread hmem (.file h)
    · exact .imported hmem himports (ih m (Nat.lt_succ_self m) hcut h)

/-- **A run is one of the orders.** Where loaders read files, it ends in a way in which the load can end. -/
theorem canEnd_loadRaw (hl : l.ReadsFiles) (root : String) (overrides : LoadOptions) :
    CanEnd l w (l.options.effective overrides) [] (FilePath.normalize w.cwd root)
      (l.loadRaw w root overrides).outcome := by
  obtain ⟨hcut, hraw⟩ := loadRaw_eq_loadDocument hl root overrides
  rw [hraw]
  cases hend : (l.loadDocument w (l.options.effective overrides) (nestingLimit w) []
      (FilePath.normalize w.cwd root)).outcome with
  | ok d => exact canEnd_of_eq_ok hend
  | error e => exact canEnd_of_eq_error hcut hend

/-- A file that imports one that is missing, and itself. -/
def torn : World where
  nodes := [("/root.json", .file "\x7b\"imports\":[\"missing.json\",\"root.json\"]\x7d".toUTF8)]

/-- **Which failure is told depends on the order.** A run comes to the missing file first, but the load of the
file that is on its own chain can fail before that. -/
theorem canEnd_torn :
    (jsonOnly.loadRaw torn "/root.json" {}).outcome =
        .error (.load "/missing.json" (.read "/missing.json" .notFound)) ∧
      CanEnd jsonOnly torn (jsonOnly.options.effective {}) [] "/root.json"
        (.error (.load "/missing.json" (.read "/missing.json" .notFound))) ∧
      CanEnd jsonOnly torn (jsonOnly.options.effective {}) [] "/root.json"
        (.error (.cyclicImport "/root.json" ["/root.json", "/root.json"])) := by
  have hroot : FilePath.normalize torn.cwd "/root.json" = "/root.json" := by decide +kernel
  have hreads := readsFiles_of_builtin builtin_jsonOnly
  have hfails : (jsonOnly.loadRaw torn "/root.json" {}).outcome =
      .error (.load "/missing.json" (.read "/missing.json" .notFound)) := by
    rw [(loadRaw_eq_loadDocument hreads "/root.json" {}).2]
    decide +kernel
  have hend := canEnd_loadRaw (w := torn) hreads "/root.json" {}
  rw [hroot, hfails] at hend
  have hown : (jsonOnly.own torn (jsonOnly.options.effective {}) "/root.json").outcome =
      .ok ⟨[("imports", .sequence [.string "/missing.json", .string "/root.json"])],
        ["/missing.json", "/root.json"]⟩ := by decide +kernel
  have himports : Imports jsonOnly torn (jsonOnly.options.effective {}) "/root.json" "/root.json" :=
    ⟨_, hown, by simp⟩
  exact ⟨hfails, hend, .imported (by simp) himports (.cyclic (by simp))⟩

end ConfigTree.Loader
