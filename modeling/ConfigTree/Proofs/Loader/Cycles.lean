import ConfigTree.Proofs.Loader.Endings
import ConfigTree.Proofs.Loader.Visits

/-!
# Import cycles

A load fails with an import cycle when it comes to a file that is on the chain which led there. Is
there always a cycle then, and is none overlooked? And does it matter which of the files that are loaded
together gets on first?

A load can end with an import cycle exactly where a visit comes to a file that is on its chain
(`canEnd_cyclicImport_iff`). The chain of a visit is a way along imports from the first file
(`Visits.way`), and the failure tells it whole, with the file that was met again at its end. So what it
tells is a cycle that can be reached. Files that are imported more than once are not on their own chains,
and do no harm. The other way round, some visits follow a cycle that can be reached until they come back
(`exists_visits_of_reachesCycle`), so the load can end with an import cycle, and then it cannot end with a
document, whatever comes first.
-/

namespace ConfigTree

open Relation

/-- A failure that is not an import cycle. -/
def LoaderError.NoCycle (e : LoaderError) : Prop := ∀ path chain, e ≠ .cyclicImport path chain

namespace Loader

variable {l : Loader} {w : World} {o : EffectiveOptions} {path root : String} {d : Document}
  {chain told : List String} {e : LoaderError}

/-! ### What a file gives by itself does not fail with a cycle -/

theorem noCycle_of_hand {extension : String} {loader : ExtensionLoader}
    (h : (hand w extension loader path).outcome = .error e) : e.NoCycle := by
  rw [hand, Run.outcome_bind_eq_error_iff] at h
  rcases h with h | ⟨-, -, h⟩
  · cases h
  · split at h
    · cases h
    · cases h
      rintro _ _ ⟨⟩

theorem noCycle_of_overlay {extension : String} {loader : ExtensionLoader}
    {environment : Option String}
    (h : (overlay w extension loader path environment).outcome = .error e) : e.NoCycle := by
  rcases overlay_cases w extension loader path environment with
    heq | ⟨text, -, -, ⟨e, heq⟩ | heq⟩ <;> rw [heq] at h
  · cases h
  · cases h
    rintro _ _ ⟨⟩
  · rcases (Run.outcome_bind_eq_error_iff _ _ _).1 h with h | ⟨_, -, h⟩
    · exact noCycle_of_hand h
    · cases h

theorem noCycle_of_loadWithEnvironment {extension : String} {loader : ExtensionLoader}
    {environment : Option String}
    (h : (loadWithEnvironment w extension loader path environment).outcome = .error e) :
    e.NoCycle := by
  rw [loadWithEnvironment, Run.outcome_bind_eq_error_iff] at h
  rcases h with h | ⟨base, -, h⟩
  · exact noCycle_of_hand h
  · rcases (Run.outcome_bind_eq_error_iff _ _ _).1 h with h | ⟨layer, -, h⟩
    · exact noCycle_of_overlay h
    · cases layer <;> cases h

theorem noCycle_of_importPaths {index : Nat} {items : List Value}
    (h : importPaths w path index items = .error e) : e.NoCycle := by
  induction items generalizing index with
  | nil => cases h
  | cons item items ih =>
    cases item with
    | string raw =>
      rw [importPaths] at h
      cases hrest : importPaths w path (index + 1) items with
      | error e' =>
        rw [hrest] at h
        cases h
        exact ih hrest
      | ok rest =>
        rw [hrest] at h
        cases h
    | _ =>
      cases h
      rintro _ _ ⟨⟩

theorem noCycle_of_resolveImports {key : String}
    (h : (l.resolveImports w key path d).outcome = .error e) : e.NoCycle := by
  rw [resolveImports, Run.outcome_bind_eq_error_iff] at h
  rcases h with h | ⟨-, -, h⟩
  · cases h
  · simp only at h
    split at h
    · cases h
      rintro _ _ ⟨⟩
    · split at h
      · rcases (Run.outcome_bind_eq_error_iff _ _ _).1 h with h | ⟨_, -, h⟩
        · exact noCycle_of_importPaths h
        · cases h
      · cases h
        rintro _ _ ⟨⟩

theorem noCycle_of_own (h : (l.own w o path).outcome = .error e) : e.NoCycle := by
  rw [own] at h
  simp only at h
  split at h
  · cases h
    rintro _ _ ⟨⟩
  · rcases (Run.outcome_bind_eq_error_iff _ _ _).1 h with h | ⟨loaded, -, h⟩
    · exact noCycle_of_loadWithEnvironment h
    · split at h
      · exact noCycle_of_resolveImports h
      · cases h

theorem noCycle_of_canFailToRead (h : CanFailToRead l w o path e) : e.NoCycle := by
  cases h with
  | file h => exact noCycle_of_own h
  | sibling _ h => exact noCycle_of_overlay h

/-! ### Where a load can end with a cycle -/

/-- A failure with which a load can end at one of its visits is one with which the whole load can end. -/
theorem Visits.canEnd (h : Visits l w o root chain path)
    (hend : CanEnd l w o chain path (.error e)) : CanEnd l w o [] root (.error e) := by
  induction h with
  | start => exact hend
  | next _ hmem himports ih => exact ih (.imported hmem himports hend)

/-- An import cycle with which a load can end was met at one of its visits. -/
theorem exists_visits_of_canEnd {p : String} (hvisits : Visits l w o root chain path)
    (h : CanEnd l w o chain path (.error (.cyclicImport p told))) :
    ∃ before, Visits l w o root before p ∧ p ∈ before ∧ told = before ++ [p] := by
  generalize hend : (Except.error (.cyclicImport p told) : Except LoaderError Document) = r at h
  induction h with
  | cyclic hmem =>
    cases hend
    exact ⟨_, hvisits, hmem, rfl⟩
  | unread _ hread =>
    cases hend
    exact absurd rfl (noCycle_of_canFailToRead hread p told)
  | imported hmem himports _ ih => exact ih (hvisits.next hmem himports) hend
  | loaded _ _ _ _ => cases hend

/-- **A load can end with an import cycle where a visit comes to a file of its chain**, and nowhere else. -/
theorem canEnd_cyclicImport_iff {p : String} :
    CanEnd l w o [] root (.error (.cyclicImport p told)) ↔
      ∃ before, Visits l w o root before p ∧ p ∈ before ∧ told = before ++ [p] := by
  refine ⟨exists_visits_of_canEnd .start, ?_⟩
  rintro ⟨before, hvisits, hmem, rfl⟩
  exact hvisits.canEnd (.cyclic hmem)

/-- The chain of a visit is a way along imports. -/
theorem Visits.way (h : Visits l w o root chain path) : Way (Imports l w o) root chain path := by
  induction h with
  | start => exact .start _
  | next _ hmem himports ih => exact ih.next hmem himports

/-! ### Where visits come back -/

/-- Where no visit comes back, visits go on along imports with the first of them on their chains. -/
theorem visits_of_transGen {p q : String}
    (hback : ∀ chain path, Visits l w o root chain path → path ∉ chain)
    (hvisits : Visits l w o root chain p) (hpq : TransGen (Imports l w o) p q) :
    ∃ after, p ∈ after ∧ Visits l w o root after q := by
  induction hpq with
  | single himports => exact ⟨chain ++ [p], by simp, hvisits.next (hback _ _ hvisits) himports⟩
  | @tail b c _ himports ih =>
    obtain ⟨after, hp, hvisits⟩ := ih
    exact ⟨after ++ [b], by simp [hp], hvisits.next (hback _ _ hvisits) himports⟩

/-- Where a cycle can be reached, some visit comes to a file of its chain. -/
theorem exists_visits_of_reachesCycle (h : ReachesCycle (Imports l w o) root) :
    ∃ chain path, Visits l w o root chain path ∧ path ∈ chain := by
  by_contra hnone
  have hback : ∀ chain path, Visits l w o root chain path → path ∉ chain :=
    fun chain path hvisits hmem => hnone ⟨chain, path, hvisits, hmem⟩
  obtain ⟨b, hreach, hcycle⟩ := h
  obtain ⟨chain, hvisits⟩ : ∃ chain, Visits l w o root chain b := by
    rcases reflTransGen_iff_eq_or_transGen.1 hreach with rfl | hreach
    · exact ⟨[], .start⟩
    · obtain ⟨chain, -, hvisits⟩ := visits_of_transGen hback .start hreach
      exact ⟨chain, hvisits⟩
  -- Once around the cycle the file is visited again, with itself on the chain.
  obtain ⟨after, hmem, hagain⟩ := visits_of_transGen hback hvisits hcycle
  exact hback after b hagain hmem

/-- **Import cycles are detected, and only these**, whichever comes first of what is loaded together. Files
are read by the loaders for JSON and YAML. A run ends in one of the ways in which the load can end. When a
load ends with an import cycle, it tells a chain that begins at the first file, leads from each file to one
that it imports, and ends with the file it names, the only one to be met twice. There is such a chain at
every visit that comes to a file of its chain, and each of these visits can be what the load ends with.
Where no cycle can be reached the load cannot end so. Where one can be reached it can, and it cannot end
with a document. -/
theorem loadRaw_cycles (hl : ∀ extension loader, l.registry.get? extension = some loader →
      loader = .json ∨ loader = .yaml) (root : String) (overrides : LoadOptions) :
    CanEnd l w (l.options.effective overrides) [] (FilePath.normalize w.cwd root)
      (l.loadRaw w root overrides).outcome ∧
    (∀ path told, CanEnd l w (l.options.effective overrides) [] (FilePath.normalize w.cwd root)
        (.error (.cyclicImport path told)) →
      Lasso (Imports l w (l.options.effective overrides)) (FilePath.normalize w.cwd root) told ∧
        told.getLast? = some path) ∧
    (∀ chain path,
      Visits l w (l.options.effective overrides) (FilePath.normalize w.cwd root) chain path →
      path ∈ chain →
      Lasso (Imports l w (l.options.effective overrides)) (FilePath.normalize w.cwd root)
          (chain ++ [path]) ∧
        CanEnd l w (l.options.effective overrides) [] (FilePath.normalize w.cwd root)
          (.error (.cyclicImport path (chain ++ [path])))) ∧
    (¬ ReachesCycle (Imports l w (l.options.effective overrides)) (FilePath.normalize w.cwd root) →
      ∀ path told, ¬ CanEnd l w (l.options.effective overrides) [] (FilePath.normalize w.cwd root)
        (.error (.cyclicImport path told))) ∧
    (ReachesCycle (Imports l w (l.options.effective overrides)) (FilePath.normalize w.cwd root) →
      (∃ path told, CanEnd l w (l.options.effective overrides) [] (FilePath.normalize w.cwd root)
        (.error (.cyclicImport path told))) ∧
      ∀ d, ¬ CanEnd l w (l.options.effective overrides) [] (FilePath.normalize w.cwd root)
        (.ok d)) := by
  set o := l.options.effective overrides
  set start := FilePath.normalize w.cwd root
  have hlasso : ∀ chain path, Visits l w o start chain path → path ∈ chain →
      Lasso (Imports l w o) start (chain ++ [path]) :=
    fun chain path hvisits hmem => hvisits.way.lasso hmem
  have hsound : ∀ path told, CanEnd l w o [] start (.error (.cyclicImport path told)) →
      Lasso (Imports l w o) start told ∧ told.getLast? = some path := by
    intro path told h
    obtain ⟨before, hvisits, hmem, rfl⟩ := canEnd_cyclicImport_iff.1 h
    exact ⟨hlasso before path hvisits hmem, List.getLast?_concat⟩
  refine ⟨canEnd_loadRaw (readsFiles_of_builtin hl) root overrides, hsound, fun chain path hvisits hmem =>
    ⟨hlasso chain path hvisits hmem, hvisits.canEnd (.cyclic hmem)⟩, fun hacyclic path told h => ?_,
    fun hcycle => ?_⟩
  · exact hacyclic (hsound path told h).1.reachesCycle
  · obtain ⟨chain, path, hvisits, hmem⟩ := exists_visits_of_reachesCycle hcycle
    have hend : CanEnd l w o [] start (.error (.cyclicImport path (chain ++ [path]))) :=
      hvisits.canEnd (.cyclic hmem)
    exact ⟨⟨path, _, hend⟩, fun d => hend.not_ok⟩

/-- The failure tells the way into the circle and once around it, in normalised paths, and no order of
loading leads to a document. -/
theorem loadRaw_circle :
    (∀ extension loader, jsonOnly.registry.get? extension = some loader →
      loader = .json ∨ loader = .yaml) ∧
    (jsonOnly.loadRaw circle "start.json" {}).outcome =
      .error (.cyclicImport "/c/one.json"
        ["/c/start.json", "/c/one.json", "/c/two.json", "/c/one.json"]) ∧
    Lasso (Imports jsonOnly circle (jsonOnly.options.effective {})) "/c/start.json"
        ["/c/start.json", "/c/one.json", "/c/two.json", "/c/one.json"] ∧
    ∀ d, ¬ CanEnd jsonOnly circle (jsonOnly.options.effective {}) [] "/c/start.json" (.ok d) := by
  have hroot : FilePath.normalize circle.cwd "start.json" = "/c/start.json" := by decide +kernel
  have hfails : (jsonOnly.loadRaw circle "start.json" {}).outcome =
      .error (.cyclicImport "/c/one.json"
        ["/c/start.json", "/c/one.json", "/c/two.json", "/c/one.json"]) := by
    rw [(loadRaw_eq_loadDocument (readsFiles_of_builtin builtin_jsonOnly) "start.json" {}).2]
    decide +kernel
  obtain ⟨hend, hsound, -, -, hcomplete⟩ :=
    loadRaw_cycles (w := circle) builtin_jsonOnly "start.json" {}
  rw [hroot] at hend hsound hcomplete
  rw [hfails] at hend
  have hlasso := (hsound _ _ hend).1
  exact ⟨builtin_jsonOnly, hfails, hlasso, (hcomplete hlasso.reachesCycle).2⟩

end Loader

end ConfigTree
