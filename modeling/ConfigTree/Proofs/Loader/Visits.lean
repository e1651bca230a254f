import ConfigTree.Proofs.Loader.Composition
import ConfigTree.Proofs.Loader.Nesting

/-!
# Loading comes to an end

Which files a load visits is told by data that it reads on its way, and imports may lead round in
circles. Does it come to an end, and how deep does it go?

A visit is a file with the chain of files that led to it. `Visits` tells all visits that a load can come
to, whichever order imports are loaded in and whichever of them fail, and the visits of a load are among
them (`visits_of_mem_events`). A file is put on a chain only after it was read and when it is not there
yet, and files are named by normalised paths. So where loaders read files, a chain holds paths of
different files, and there are no more of these than files in the world. Loading within as many levels as
there are files and one more is never cut, so it is all that a load does (`loadRaw_terminates`).
-/

namespace ConfigTree.Loader

/-- A load that begins at `root` can come to the second path by way of the chain. -/
inductive Visits (l : Loader) (w : World) (o : EffectiveOptions) (root : String) :
    List String → String → Prop
  /-- The load begins with no chain. -/
  | start : Visits l w o root [] root
  /-- It goes on from a file that is not on its own chain to those that this file imports. -/
  | next {chain : List String} {path i : String} : Visits l w o root chain path → path ∉ chain →
      Imports l w o path i → Visits l w o root (chain ++ [path]) i

variable {l : Loader} {w : World} {o : EffectiveOptions} {root path : String} {chain : List String}
  {n : Nat}

/-! ### The visits of a load -/

/-- All that happens in a load happens at one of the visits that it can come to: a path is visited, it is given
up for its depth, or its file is read. -/
theorem exists_visits_of_mem_events (h : Visits l w o root chain path) {event : LoadEvent}
    (hmem : event ∈ (l.loadDocument w o n chain path).events) :
    ∃ chain' path', Visits l w o root chain' path' ∧
      (event = .visit chain' path' ∨ event = .tooDeep path' ∨ event ∈ (l.own w o path').events) := by
  induction n generalizing chain path event with
  | zero =>
    rw [loadDocument.eq_1, Run.mem_events_bind_iff] at hmem
    rcases hmem with hmem | ⟨-, -, hmem⟩
    · exact ⟨chain, path, h, .inl (List.mem_singleton.1 hmem)⟩
    · split_ifs at hmem
      · cases hmem
      · rcases (Run.mem_events_bind_iff _ _ _).1 hmem with hmem | ⟨-, -, hmem⟩
        · exact ⟨chain, path, h, .inr (.inl (List.mem_singleton.1 hmem))⟩
        · cases hmem
  | succ n ih =>
    rw [loadDocument.eq_2, Run.mem_events_bind_iff] at hmem
    rcases hmem with hmem | ⟨-, -, hmem⟩
    · exact ⟨chain, path, h, .inl (List.mem_singleton.1 hmem)⟩
    split_ifs at hmem with hchain
    · cases hmem
    rcases (Run.mem_events_bind_iff _ _ _).1 hmem with hmem | ⟨self, hself, hmem⟩
    · exact ⟨chain, path, h, .inr (.inr hmem)⟩
    split_ifs at hmem
    · cases hmem
    rcases (Run.mem_events_bind_iff _ _ _).1 hmem with hmem | ⟨_, _, hmem⟩
    · have hvisits : (eventsHave fun event => ∃ chain' path', Visits l w o root chain' path' ∧
          (event = .visit chain' path' ∨ event = .tooDeep path' ∨ event ∈ (l.own w o path').events)).Rel
          (self.imports.mapM (l.loadDocument w o n (chain ++ [path])))
          (self.imports.mapM (l.loadDocument w o n (chain ++ [path]))) :=
        (eventsHave _).of_mapM fun i hi event hevent => ih (h.next hchain ⟨self, hself, hi⟩) hevent
      exact hvisits _ hmem
    · cases hmem

/-- **A load visits only what can be visited.** -/
theorem visits_of_mem_events (h : Visits l w o root chain path) {chain' : List String}
    {path' : String} (hmem : .visit chain' path' ∈ (l.loadDocument w o n chain path).events) :
    Visits l w o root chain' path' := by
  obtain ⟨_, _, hvisits, hevent | hevent | hevent⟩ := exists_visits_of_mem_events h hmem
  · cases hevent
    exact hvisits
  · cases hevent
  · cases isReading_of_own _ _ hevent

/-! ### How long a chain can be -/

/-- Where loaders read files, the chain of a visit holds paths of different files, and the path that is
visited is normalised. -/
theorem Visits.chain_subset_filePaths (hl : l.ReadsFiles) (hroot : FilePath.normalize w.cwd root = root)
    (h : Visits l w o root chain path) :
    chain.Nodup ∧ chain ⊆ w.filePaths ∧ FilePath.normalize w.cwd path = path := by
  induction h with
  | start => exact ⟨List.nodup_nil, List.nil_subset _, hroot⟩
  | @next chain path i _ hmem himports ih =>
    obtain ⟨hnodup, hsub, hpath⟩ := ih
    obtain ⟨self, hself, hi⟩ := himports
    refine ⟨nodup_append_singleton hnodup hmem, ?_, normalize_of_mem_imports hself i hi⟩
    exact append_singleton_subset hsub (mem_filePaths_of_own hl hpath hself)

/-- **Loading comes to an end.** Files are read by the loaders for JSON and YAML, and the resolver may be
any. At each visit the chain holds paths of different files of the world, so it is no longer than there
are files, and a load comes to an end, with a document or a failure, within one level more than that. -/
theorem loadRaw_terminates (hl : ∀ extension loader, l.registry.get? extension = some loader →
      loader = .json ∨ loader = .yaml) (root : String) (overrides : LoadOptions) :
    (∀ chain path,
      Visits l w (l.options.effective overrides) (FilePath.normalize w.cwd root) chain path →
      chain.Nodup ∧ chain ⊆ w.filePaths ∧ chain.length ≤ w.fileCount) ∧
    (∀ chain path, .visit chain path ∈ (l.loadRaw w root overrides).events →
      Visits l w (l.options.effective overrides) (FilePath.normalize w.cwd root) chain path) ∧
    (l.loadDocument w (l.options.effective overrides) (w.fileCount + 1) []
      (FilePath.normalize w.cwd root)).isCut = false ∧
    l.loadRaw w root overrides =
      l.loadDocument w (l.options.effective overrides) (w.fileCount + 1) []
        (FilePath.normalize w.cwd root) := by
  have hreads := readsFiles_of_builtin hl
  have hroot := FilePath.normalize_normalize w.cwd w.cwd root
  have hcut : (l.loadDocument w (l.options.effective overrides) (w.fileCount + 1) []
      (FilePath.normalize w.cwd root)).isCut = false :=
    isCut_loadDocument hreads List.nodup_nil (List.nil_subset _) hroot (by simp)
  have hraw : l.loadRaw w root overrides = l.loadDocument w (l.options.effective overrides)
      (w.fileCount + 1) [] (FilePath.normalize w.cwd root) := by
    simp only [loadRaw, loadDeep_eq_some hcut]
  refine ⟨fun chain path h => ?_, fun chain path hmem => ?_, hcut, hraw⟩
  · obtain ⟨hnodup, hsub, -⟩ := h.chain_subset_filePaths hreads hroot
    refine ⟨hnodup, hsub, ?_⟩
    rw [← w.length_filePaths]
    exact (List.subperm_of_subset hnodup hsub).length_le
  · rw [hraw] at hmem
    exact visits_of_mem_events .start hmem

/-- A file that leads into a circle of two others, and a file that two of them import. -/
def circle : World where
  nodes := [
    ("/c/start.json", .file "\x7b\"imports\":[\"leaf.json\",\"./one.json\"]\x7d".toUTF8),
    ("/c/leaf.json", .file "\x7b\x7d".toUTF8),
    ("/c/one.json", .file "\x7b\"imports\":[\"leaf.json\",\"..//c/two.json\"]\x7d".toUTF8),
    ("/c/two.json", .file "\x7b\"imports\":[\"one.json\"]\x7d".toUTF8),
    ("/c", .directory)]
  cwd := "/c"

/-- There are four files, so no chain is longer than that, although imports lead round for ever. -/
theorem loadRaw_circle_ends :
    (∀ extension loader, jsonOnly.registry.get? extension = some loader →
      loader = .json ∨ loader = .yaml) ∧
    (∀ chain path, .visit chain path ∈ (jsonOnly.loadRaw circle "start.json" {}).events →
      chain.Nodup ∧ chain.length ≤ 4) ∧
    jsonOnly.loadRaw circle "start.json" {} =
      jsonOnly.loadDocument circle (jsonOnly.options.effective {}) 5 [] "/c/start.json" := by
  have hroot : FilePath.normalize circle.cwd "start.json" = "/c/start.json" := by decide +kernel
  have hcount : circle.fileCount = 4 := by decide +kernel
  obtain ⟨hchains, hvisits, -, hraw⟩ := loadRaw_terminates (w := circle) builtin_jsonOnly "start.json" {}
  rw [hroot, hcount] at hraw
  refine ⟨builtin_jsonOnly, fun chain path hmem => ?_, hraw⟩
  obtain ⟨hnodup, -, hlength⟩ := hchains chain path (hvisits chain path hmem)
  rw [hcount] at hlength
  exact ⟨hnodup, hlength⟩

end ConfigTree.Loader
