import ConfigTree.Proofs.Loader.Own
import ConfigTree.Proofs.MonadRelation
import Mathlib.Tactic.ByContra

/-!
# How deep imports are nested

Loading with a limit on how deep imports are nested is only a means: what was not cut stays as it is
when the limit is raised, and a document that comes out was not cut. So a load has a result as soon as
some limit is enough, and the result does not depend on the limit (`loadRaw_eq_ok_iff_exists`).
-/

namespace ConfigTree

/-- An event that belongs to reading one file: a path is handed to a loader, or references of an import
list are resolved. -/
inductive LoadEvent.IsReading : LoadEvent → Prop
  | handed (extension path : String) : IsReading (.handed extension path)
  | resolve (key : Option String) (d : Document) : IsReading (.resolve key d)

namespace Loader

variable {l : Loader} {w : World} {o : EffectiveOptions} {path : String} {chain : List String}
  {d : Document} {n m : Nat}

/-! ### What happens while one file is read -/

/-- Runs in which all that happens has a property. -/
def eventsHave (P : LoadEvent → Prop) : MonadRelation Run Run where
  Rel x _ := ∀ event ∈ x.events, P event
  of_pure _ := by simp
  of_bind := by
    intro α β x y f g hx hf event hevent
    rcases (Run.mem_events_bind_iff x f event).1 hevent with h | ⟨a, -, h⟩
    · exact hx event h
    · exact hf a event h

theorem eventsHave_fail {P : LoadEvent → Prop} {α : Type} (e : LoaderError) :
    (eventsHave P).Rel (Run.fail e : Run α) (Run.fail e) := by
  simp [eventsHave]

theorem eventsHave_note {P : LoadEvent → Prop} {event : LoadEvent} (h : P event) :
    (eventsHave P).Rel (Run.note event) (Run.note event) := by
  simpa [eventsHave] using h

/-- Resolving an import list asks the resolver once, and nothing else happens. -/
theorem eventsHave_resolveImports {P : LoadEvent → Prop} {key : String} (path : String) {d : Document}
    (h : P (.resolve (some key) d)) :
    (eventsHave P).Rel (l.resolveImports w key path d) (l.resolveImports w key path d) := by
  rw [resolveImports]
  refine (eventsHave P).of_bind (eventsHave_note h) fun _ => ?_
  simp only
  split
  · exact eventsHave_fail _
  · split
    · refine (eventsHave P).of_bind (fun event hevent => ?_) fun _ => (eventsHave P).of_pure _
      cases hevent
    · exact eventsHave_fail _

/-- Runs in which nothing happens but what belongs to reading one file. -/
def readsOne : MonadRelation Run Run := eventsHave LoadEvent.IsReading

theorem readsOne_hand (extension : String) (loader : ExtensionLoader) (path : String) :
    readsOne.Rel (hand w extension loader path) (hand w extension loader path) := by
  rw [hand]
  refine readsOne.of_bind (eventsHave_note (.handed extension path)) fun _ => ?_
  split
  · exact readsOne.of_pure _
  · exact eventsHave_fail _

theorem readsOne_overlay (extension : String) (loader : ExtensionLoader) (path : String)
    (environment : Option String) :
    readsOne.Rel (overlay w extension loader path environment)
      (overlay w extension loader path environment) := by
  rcases overlay_cases w extension loader path environment with
    heq | ⟨text, -, -, ⟨e, heq⟩ | heq⟩ <;> rw [heq]
  · exact readsOne.of_pure _
  · exact eventsHave_fail _
  · exact readsOne.of_bind (readsOne_hand _ _ _) fun _ => readsOne.of_pure _

theorem readsOne_loadWithEnvironment (extension : String) (loader : ExtensionLoader) (path : String)
    (environment : Option String) :
    readsOne.Rel (loadWithEnvironment w extension loader path environment)
      (loadWithEnvironment w extension loader path environment) := by
  rw [loadWithEnvironment]
  refine readsOne.of_bind (readsOne_hand _ _ _) fun base => ?_
  refine readsOne.of_bind (readsOne_overlay _ _ _ _) fun layer => ?_
  cases layer <;> exact readsOne.of_pure _

/-- While a file is read nothing happens but that paths are handed to loaders and that the references
of its import list are resolved. -/
theorem isReading_of_own (path : String) : ∀ event ∈ (l.own w o path).events, event.IsReading := by
  have hrel : readsOne.Rel (l.own w o path) (l.own w o path) := by
    rw [own]
    simp only
    split
    · exact eventsHave_fail _
    · refine readsOne.of_bind (readsOne_loadWithEnvironment _ _ _ _) fun _ => ?_
      split
      · exact eventsHave_resolveImports _ (.resolve _ _)
      · exact readsOne.of_pure _
  exact hrel

/-- What a file gives by itself is never cut. -/
theorem isCut_own (path : String) : (l.own w o path).isCut = false := by
  rw [Run.isCut, List.any_eq_false]
  intro event hevent
  cases isReading_of_own path event hevent <;> simp [LoadEvent.isTooDeep]

/-! ### Raising the limit -/

/-- Runs that are the same unless the first one is cut. -/
def sameUnlessCut : MonadRelation Run Run where
  Rel x y := x.isCut = false → y = x
  of_pure _ _ := rfl
  of_bind := by
    intro α β x y f g hxy hfg h
    obtain ⟨hx, hf⟩ := (Run.isCut_bind_eq_false_iff x f).1 h
    rw [hxy hx]
    rcases x with ⟨outcome, events⟩
    cases outcome with
    | error e => rfl
    | ok a =>
      simp only [bind, Run.andThen]
      rw [hfg a (hf a rfl)]

/-- A load that is not cut is the same under a higher limit. -/
theorem sameUnlessCut_loadDocument (hnm : n ≤ m) :
    sameUnlessCut.Rel (l.loadDocument w o n chain path) (l.loadDocument w o m chain path) := by
  induction n generalizing m chain path with
  | zero =>
    cases m with
    | zero => exact fun _ => rfl
    | succ m =>
      rw [loadDocument.eq_1, loadDocument.eq_2]
      refine sameUnlessCut.of_bind (fun _ => rfl) fun _ => ?_
      split_ifs
      · exact fun _ => rfl
      · intro h
        have hnote := ((Run.isCut_bind_eq_false_iff _ _).1 h).1
        simp [LoadEvent.isTooDeep] at hnote
  | succ n ih =>
    obtain ⟨m, rfl⟩ : ∃ k, m = k + 1 := ⟨m - 1, by omega⟩
    rw [loadDocument.eq_2, loadDocument.eq_2]
    refine sameUnlessCut.of_bind (fun _ => rfl) fun _ => ?_
    split_ifs
    · exact fun _ => rfl
    · refine sameUnlessCut.of_bind (fun _ => rfl) fun self => ?_
      split_ifs
      · exact fun _ => rfl
      · refine sameUnlessCut.of_bind ?_ fun _ _ => rfl
        exact sameUnlessCut.of_mapM fun _ _ => ih (by omega)

/-- Runs that are cut only where they fail. -/
def cutFails : MonadRelation Run Run where
  Rel x _ := ∀ a, x.outcome = .ok a → x.isCut = false
  of_pure _ _ _ := rfl
  of_bind := by
    intro α β x y f g hx hf b hb
    obtain ⟨a, ha, hb⟩ := (Run.outcome_bind_eq_ok_iff x f b).1 hb
    refine (Run.isCut_bind_eq_false_iff x f).2 ⟨hx a ha, fun a' ha' => ?_⟩
    obtain rfl : a = a' := by simpa [ha] using ha'
    exact hf a b hb

/-- A load that gives a document is not cut. -/
theorem isCut_of_loadDocument_eq_ok (h : (l.loadDocument w o n chain path).outcome = .ok d) :
    (l.loadDocument w o n chain path).isCut = false := by
  have hrel : cutFails.Rel (l.loadDocument w o n chain path) (l.loadDocument w o n chain path) := by
    clear h
    induction n generalizing chain path with
    | zero =>
      rw [loadDocument.eq_1]
      refine cutFails.of_bind (fun _ _ => rfl) fun _ => ?_
      split_ifs
      · simp [cutFails]
      · intro a ha
        obtain ⟨_, -, ha⟩ := (Run.outcome_bind_eq_ok_iff _ _ _).1 ha
        simp at ha
    | succ n ih =>
      rw [loadDocument.eq_2]
      refine cutFails.of_bind (fun _ _ => rfl) fun _ => ?_
      split_ifs
      · simp [cutFails]
      · refine cutFails.of_bind (fun _ _ => isCut_own path) fun self => ?_
        split_ifs
        · exact cutFails.of_pure _
        · exact cutFails.of_bind (cutFails.of_mapM fun _ _ => ih) fun _ => cutFails.of_pure _
  exact hrel d h

/-- A document that comes out under a limit comes out under a higher one. -/
theorem loadDocument_eq_ok_of_le (hnm : n ≤ m)
    (h : (l.loadDocument w o n chain path).outcome = .ok d) :
    (l.loadDocument w o m chain path).outcome = .ok d := by
  rw [sameUnlessCut_loadDocument hnm (isCut_of_loadDocument_eq_ok h)]
  exact h

/-! ### Enough is reached -/

theorem exists_of_loadDeep_eq_some {limit : Nat} {r : Run Document}
    (h : l.loadDeep w o path limit = some r) : ∃ n, l.loadDocument w o n [] path = r := by
  refine loadDeep.partial_correctness l w o path (fun _ r => ∃ n, l.loadDocument w o n [] path = r)
    ?_ limit r h
  intro deeper ih limit r h
  simp only at h
  split_ifs at h
  · exact ih _ _ h
  · exact ⟨limit, by simpa using h⟩

/-- Raising the limit comes to an end where some limit is enough. -/
theorem loadDeep_eq_some (h : (l.loadDocument w o n [] path).isCut = false) (limit : Nat) :
    l.loadDeep w o path limit = some (l.loadDocument w o n [] path) := by
  -- Each time the limit falls short it gets closer to `n`.
  induction hk : n - limit using Nat.strongRecOn generalizing limit with
  | _ k ih =>
    rw [loadDeep]
    split_ifs with hcut
    · have hlt : limit < n := by
        by_contra hle
        rw [sameUnlessCut_loadDocument (by omega) h] at hcut
        exact absurd hcut (by simp [h])
      exact ih (n - (2 * limit + 1)) (by omega) _ rfl
    · rw [Bool.not_eq_true] at hcut
      rcases Nat.le_total n limit with hle | hle
      · rw [sameUnlessCut_loadDocument hle h]
      · rw [sameUnlessCut_loadDocument hle hcut]

/-- A load gives a document exactly when it does so under some limit. -/
theorem loadRaw_eq_ok_iff_exists {overrides : LoadOptions} :
    (l.loadRaw w path overrides).outcome = .ok d ↔
      ∃ n, (l.loadDocument w (l.options.effective overrides) n []
        (FilePath.normalize w.cwd path)).outcome = .ok d := by
  rw [loadRaw]
  constructor
  · intro h
    split at h
    · next r hr =>
      obtain ⟨n, rfl⟩ := exists_of_loadDeep_eq_some hr
      exact ⟨n, h⟩
    · simp at h
  · rintro ⟨n, h⟩
    simp only [loadDeep_eq_some (isCut_of_loadDocument_eq_ok h)]
    exact h

end Loader

end ConfigTree
