import ConfigTree.Loader.Load
import ConfigTree.Proofs.Extension.Sibling
import ConfigTree.Proofs.Loader.Visits

/-!
# Which paths are handed to which loaders

The registry tells which loader a file is for, by the extension of the file. A load asks it once for each file
that it visits, and hands the loader two paths: that of the file, and that of the environment file beside it. Are
both of them for this loader?

`Hands` tells all paths that a load can come to hand to a loader, whichever of them fail on the way, and those
that are handed in a run are among them. The path of the file always is for the loader. That of the environment
file is, where the name of the environment neither ends with a slash nor has a dot in it. With a slash at its
end the loader of a file with an extension is handed a file that has none, and a name with a dot in it can give
one to the environment file of a file that has none (`loadWith_hands`). So files that no loader is registered
for are loaded (`not_loadWith_hands`).
-/

namespace ConfigTree.Loader

open Extension

/-- A load can come to hand the path to the loader, looked up under the extension of a file that it visits: the
path is that of the file, or that of the environment file beside it. -/
inductive Hands (l : Loader) (w : World) (path : String) (overrides : LoadOptions) :
    String → ExtensionLoader → String → Prop
  /-- The file itself. -/
  | file {chain : List String} {q : String} {loader : ExtensionLoader} :
      Visits l w (l.options.effective overrides) (FilePath.normalize w.cwd path) chain q →
      l.registry.get? (ofPath q) = some loader → Hands l w path overrides (ofPath q) loader q
  /-- The environment file beside it. -/
  | sibling {chain : List String} {q environment : String} {loader : ExtensionLoader} :
      Visits l w (l.options.effective overrides) (FilePath.normalize w.cwd path) chain q →
      l.registry.get? (ofPath q) = some loader →
      (l.options.effective overrides).environment = some environment → environment ≠ "" →
      Hands l w path overrides (ofPath q) loader (Extension.sibling q environment)

variable {l : Loader} {w : World} {o : EffectiveOptions} {path p q extension environment : String}
  {overrides : LoadOptions} {loader : ExtensionLoader} {n : Nat}

/-! ### What is handed -/

theorem handed_of_hand {event : LoadEvent} (h : event ∈ (hand w extension loader path).events) :
    event = .handed extension path := by
  rw [hand, Run.mem_events_bind_iff] at h
  rcases h with h | ⟨-, -, h⟩
  · exact List.mem_singleton.1 h
  · split at h <;> cases h

theorem handed_of_overlay {environment : Option String} {event : LoadEvent}
    (h : event ∈ (overlay w extension loader path environment).events) :
    ∃ text, environment = some text ∧ text ≠ "" ∧
      event = .handed extension (Extension.sibling path text) := by
  rcases overlay_cases w extension loader path environment with
    heq | ⟨text, htext, hne, ⟨e, heq⟩ | heq⟩ <;> rw [heq] at h
  · cases h
  · cases h
  · rcases (Run.mem_events_bind_iff _ _ _).1 h with h | ⟨_, _, h⟩
    · exact ⟨text, htext, hne, handed_of_hand h⟩
    · cases h

theorem handed_of_loadWithEnvironment {environment : Option String} {event : LoadEvent}
    (h : event ∈ (loadWithEnvironment w extension loader path environment).events) :
    event = .handed extension path ∨ ∃ text, environment = some text ∧ text ≠ "" ∧
      event = .handed extension (Extension.sibling path text) := by
  rw [loadWithEnvironment, Run.mem_events_bind_iff] at h
  rcases h with h | ⟨base, -, h⟩
  · exact .inl (handed_of_hand h)
  · rcases (Run.mem_events_bind_iff _ _ _).1 h with h | ⟨layer, -, h⟩
    · exact .inr (handed_of_overlay h)
    · cases layer <;> cases h

/-- Runs in which nothing is handed to a loader. -/
def handsNothing : MonadRelation Run Run := eventsHave fun event => ∀ extension p, event ≠ .handed extension p

theorem handsNothing_resolveLoaded (key path : String) (d : Document) :
    handsNothing.Rel (l.resolveLoaded w key path d) (l.resolveLoaded w key path d) := by
  rw [resolveLoaded]
  split_ifs
  -- The two passes are followed by the same ending.
  all_goals
    refine handsNothing.of_bind (eventsHave_note ?_) fun _ =>
      handsNothing.of_bind (handsNothing.of_pure _) fun r => ?_
    · rintro _ _ ⟨⟩
    · dsimp only
      split
      · exact eventsHave_fail _
      · exact handsNothing.of_pure _

/-- While a file is read, its path and that of the environment file are handed to the loader for its extension. -/
theorem handed_of_own (h : .handed extension p ∈ (l.own w o q).events) :
    extension = ofPath q ∧ ∃ loader, l.registry.get? (ofPath q) = some loader ∧
      (p = q ∨ ∃ text, o.environment = some text ∧ text ≠ "" ∧ p = Extension.sibling q text) := by
  rw [own] at h
  simp only at h
  split at h
  · cases h
  · next loader hloader =>
    rcases (Run.mem_events_bind_iff _ _ _).1 h with h | ⟨loaded, -, h⟩
    · rcases handed_of_loadWithEnvironment h with h | ⟨text, htext, hne, h⟩
      · cases h
        exact ⟨rfl, loader, hloader, .inl rfl⟩
      · cases h
        exact ⟨rfl, loader, hloader, .inr ⟨text, htext, hne, rfl⟩⟩
    · split at h
      · have hnothing : handsNothing.Rel (l.resolveImports w o.importsKey q (Document.merge loaded o.data))
            (l.resolveImports w o.importsKey q (Document.merge loaded o.data)) :=
          eventsHave_resolveImports q fun _ _ => LoadEvent.noConfusion
        exact absurd rfl (hnothing _ h extension p)
      · cases h

/-- What is handed to loaders in a load can be handed to them. -/
theorem hands_of_loadDocument (h : .handed extension p ∈ (l.loadDocument w (l.options.effective overrides) n []
    (FilePath.normalize w.cwd path)).events) : ∃ loader, Hands l w path overrides extension loader p := by
  obtain ⟨chain, q, hvisits, hevent | hevent | hevent⟩ := exists_visits_of_mem_events .start h
  · cases hevent
  · cases hevent
  · obtain ⟨rfl, loader, hloader, rfl | ⟨text, htext, hne, rfl⟩⟩ := handed_of_own hevent
    · exact ⟨loader, .file hvisits hloader⟩
    · exact ⟨loader, .sibling hvisits hloader htext hne⟩

/-- A run hands paths to loaders only while it goes through the files. -/
theorem exists_loadDocument_of_loadWith (h : .handed extension p ∈ (l.loadWith w path overrides).events) :
    ∃ n, .handed extension p ∈ (l.loadDocument w (l.options.effective overrides) n []
      (FilePath.normalize w.cwd path)).events := by
  rw [loadWith, Run.mem_events_bind_iff] at h
  rcases h with h | ⟨loaded, -, h⟩
  · rw [loadRaw] at h
    split at h
    · next r hr =>
      obtain ⟨n, rfl⟩ := exists_of_loadDeep_eq_some hr
      exact ⟨n, h⟩
    · cases h
  · rcases (Run.mem_events_bind_iff _ _ _).1 h with h | ⟨_, -, h⟩
    · exact absurd rfl (handsNothing_resolveLoaded _ _ _ _ h extension p)
    · cases h

/-! ### For which loader it is -/

/-- **A loader is handed files that are for it, unless the name of the environment leads away from them.** Every
path that a run hands to a loader, and every one that a load without an end hands to it on its way, is one that
the load can come to hand to it. The loader was looked up under an extension in normal form, and this is the
extension of the path, unless the path is that of an environment file, and the name of the environment ends with
a slash or brings an extension of its own to a file without one. With a slash at its end the name leads away
from every file that has an extension, and a file that has none is left exactly where the name would not be one
without an extension. -/
theorem loadWith_hands (l : Loader) (w : World) (path : String) (overrides : LoadOptions) :
    (∀ extension p, .handed extension p ∈ (l.loadWith w path overrides).events →
      ∃ loader, Hands l w path overrides extension loader p) ∧
    (∀ n extension p, .handed extension p ∈ (l.loadDocument w (l.options.effective overrides) n []
        (FilePath.normalize w.cwd path)).events →
      ∃ loader, Hands l w path overrides extension loader p) ∧
    (∀ extension loader p, Hands l w path overrides extension loader p →
      l.registry.get? extension = some loader ∧ Extension.normalize extension = extension ∧
        (ofPath p = extension ∨ ∃ q environment, (l.options.effective overrides).environment = some environment ∧
          p = Extension.sibling q environment ∧ ofPath q = extension ∧
          (environment.toList.getLast? = some '/' ∨ extension = "" ∧ '.' ∈ environment.toList))) ∧
    ∀ q environment,
      (ofPath q ≠ "" → (ofPath (Extension.sibling q environment) = ofPath q ↔
        environment.toList.getLast? ≠ some '/')) ∧
      (FilePath.extensionChars q.toList = none → (ofPath (Extension.sibling q environment) = ofPath q ↔
        ofPath (String.ofList (environmentSeparator :: environment.toList)) = "")) := by
  refine ⟨fun extension p h => ?_, fun n extension p h => hands_of_loadDocument h, fun extension loader p h => ?_,
    fun q environment => ⟨fun hq => ?_, fun hq => ?_⟩⟩
  · obtain ⟨n, h⟩ := exists_loadDocument_of_loadWith h
    exact hands_of_loadDocument h
  · cases h with
    | file _ hloader => exact ⟨hloader, normalize_ofPath p, .inl rfl⟩
    | @sibling chain q environment loader _ hloader henv hne =>
      refine ⟨hloader, normalize_ofPath q, ?_⟩
      by_cases hslash : environment.toList.getLast? = some '/'
      · exact .inr ⟨q, environment, henv, rfl, rfl, .inl hslash⟩
      by_cases hdot : '.' ∈ environment.toList
      · by_cases hq : ofPath q = ""
        · exact .inr ⟨q, environment, henv, rfl, rfl, .inr ⟨hq, hdot⟩⟩
        · rw [ofPath_sibling_of_named hq, if_neg hslash]
          exact .inl rfl
      · exact .inl (ofPath_sibling q hslash hdot)
  · rw [ofPath_sibling_of_named hq]
    split_ifs with hslash
    · simp [hslash, Ne.symm hq]
    · simp [hslash]
  · have hnone : ofPath q = "" := by
      rw [ofPath_eq, hq]
      rfl
    rw [ofPath_sibling_of_bare hq, hnone]

/-- A file with an extension, and one without beside which a name that ends with a slash leads. -/
def sidestepped : World where
  nodes := [
    ("/c", .directory),
    ("/c/app.json", .file "\x7b\"a\":1\x7d".toUTF8),
    ("/c/app_x", .directory),
    ("/c/app_x/.json", .file "\x7b\"b\":2\x7d".toUTF8)]

/-- **Not every path is for the loader that it is handed to.** No loader is registered for files without an
extension, and yet one is loaded. -/
theorem not_loadWith_hands :
    ¬ ∀ (l : Loader) (w : World) (path : String) (overrides : LoadOptions) (extension p : String),
      .handed extension p ∈ (l.loadWith w path overrides).events → ofPath p = extension := by
  intro hclaim
  have hroot : FilePath.normalize sidestepped.cwd "/c/app.json" = "/c/app.json" := by decide +kernel
  have hcut : (jsonOnly.loadDocument sidestepped (jsonOnly.options.effective ⟨some "x/", none, none, none⟩) 1 []
      "/c/app.json").isCut = false := by decide +kernel
  have hevents : ((jsonOnly.loadDocument sidestepped (jsonOnly.options.effective ⟨some "x/", none, none, none⟩) 1 []
      "/c/app.json").events.any fun
        | .handed extension p => extension == ".json" && p == "/c/app_x/.json"
        | _ => false) = true := by decide +kernel
  obtain ⟨event, hmem, hevent⟩ := List.any_eq_true.1 hevents
  split at hevent
  · next extension p =>
    obtain ⟨rfl, rfl⟩ : extension = ".json" ∧ p = "/c/app_x/.json" := by simpa using hevent
    have hrouted := hclaim jsonOnly sidestepped "/c/app.json" ⟨some "x/", none, none, none⟩ ".json" "/c/app_x/.json"
    rw [loadWith, Run.mem_events_bind_iff, loadRaw, hroot] at hrouted
    simp only [loadDeep_eq_some hcut] at hrouted
    have hbare : ofPath "/c/app_x/.json" ≠ ".json" := by decide +kernel
    exact hbare (hrouted (.inl hmem))
  · cases hevent

end ConfigTree.Loader
