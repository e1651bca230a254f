import ConfigTree.Proofs.MonadRelation
import ConfigTree.Proofs.Reference.Parts
import ConfigTree.Reference.Pass
import Mathlib.Tactic.SplitIfs

/-!
# Two passes that take the same steps

A pass visits the strings of a document, and a string is resolved by looking up its placeholders in
turn. Both are written for any monad and any way of looking up. So two passes are related, in the sense
of `MonadRelation`, as soon as their lookups are, and only the lookups of placeholders that occur in the
document have to be. What fails besides lookups is the grammar of a string or the text of a container,
so failures with a cycle are related only where lookups fail with them.
-/

namespace ConfigTree

namespace Scope

/-- The strings of the entries in scope. -/
def strings (scope : Scope) : Document → List String
  | [] => []
  | (key, v) :: d => (if scope.contains key then v.strings else []) ++ scope.strings d

theorem strings_subset (scope : Scope) (d : Document) :
    scope.strings d ⊆ Value.stringsOfEntries d := by
  induction d with
  | nil => exact List.Subset.refl _
  | cons e d ih =>
    rw [strings]
    refine List.append_subset.2 ⟨?_, fun s hs => List.mem_append_right _ (ih hs)⟩
    split
    · exact fun s hs => List.mem_append_left _ hs
    · exact List.nil_subset _

theorem strings_subset_of_mem {scope : Scope} {d : Document} {e : String × Value} (h : e ∈ d)
    (hkey : scope.contains e.1 = true) : e.2.strings ⊆ scope.strings d := by
  induction d with
  | nil => cases h
  | cons f d ih =>
    rw [strings]
    rcases List.mem_cons.1 h with rfl | h
    · rw [if_pos hkey]
      exact List.subset_append_left _ _
    · exact List.Subset.trans (ih h) (List.subset_append_right _ _)

end Scope

namespace MonadRelation

variable {m n : Type → Type} [Monad m] [Monad n] (R : MonadRelation m n) {f : String → m Value}
  {g : String → n Value}

mutual

theorem of_mapStrings :
    ∀ v : Value, (∀ s ∈ v.strings, R.Rel (f s) (g s)) → R.Rel (v.mapStrings f) (v.mapStrings g)
  | .null, _ => R.of_pure _
  | .bool _, _ => R.of_pure _
  | .number _, _ => R.of_pure _
  | .string s, h => h s (by simp [Value.strings])
  | .sequence vs, h => R.of_bind (of_mapStringsOfItems vs h) fun _ => R.of_pure _
  | .mapping es, h => R.of_bind (of_mapStringsOfEntries es h) fun _ => R.of_pure _

theorem of_mapStringsOfItems :
    ∀ vs : List Value, (∀ s ∈ Value.stringsOfItems vs, R.Rel (f s) (g s)) →
      R.Rel (Value.mapStringsOfItems f vs) (Value.mapStringsOfItems g vs)
  | [], _ => R.of_pure _
  | v :: vs, h => by
    rw [Value.mapStringsOfItems, Value.mapStringsOfItems]
    refine R.of_bind (of_mapStrings v fun s hs => h s (List.mem_append_left _ hs)) fun _ => ?_
    refine R.of_bind (of_mapStringsOfItems vs fun s hs => h s (List.mem_append_right _ hs)) fun _ => ?_
    exact R.of_pure _

theorem of_mapStringsOfEntries :
    ∀ es : List (String × Value), (∀ s ∈ Value.stringsOfEntries es, R.Rel (f s) (g s)) →
      R.Rel (Value.mapStringsOfEntries f es) (Value.mapStringsOfEntries g es)
  | [], _ => R.of_pure _
  | (k, v) :: es, h => by
    rw [Value.mapStringsOfEntries, Value.mapStringsOfEntries]
    refine R.of_bind (of_mapStrings v fun s hs => h s (List.mem_append_left _ hs)) fun _ => ?_
    refine R.of_bind (of_mapStringsOfEntries es fun s hs => h s (List.mem_append_right _ hs))
      fun _ => ?_
    exact R.of_pure _

end

/-- A pass over the entries in scope. -/
theorem of_scopeMapStrings (scope : Scope) :
    ∀ d : Document, (∀ s ∈ scope.strings d, R.Rel (f s) (g s)) →
      R.Rel (scope.mapStrings f d) (scope.mapStrings g d)
  | [], _ => R.of_pure _
  | (key, v) :: d, h => by
    rw [Scope.mapStrings, Scope.mapStrings]
    refine R.of_bind ?_ fun _ => ?_
    · split
      · next hkey =>
        refine R.of_mapStrings v fun s hs => h s (List.mem_append_left _ ?_)
        rw [if_pos hkey]
        exact hs
      · exact R.of_pure _
    · refine R.of_bind ?_ fun _ => R.of_pure _
      exact of_scopeMapStrings scope d fun s hs => h s (List.mem_append_right _ hs)

end MonadRelation

section Unchanged

variable {m : Type → Type} [Monad m] [LawfulMonad m] {f : String → m Value} {v : Value} {d : Document}

/-- A value whose strings all stay stays as it is. -/
theorem Value.mapStrings_eq_pure (h : ∀ s ∈ v.strings, f s = pure (.string s)) :
    v.mapStrings f = pure v := by
  have heq : v.mapStrings f = v.mapStrings fun s => pure (.string s) :=
    (MonadRelation.eq m).of_mapStrings v h
  rw [heq, mapStrings_pure]

/-- A pass over all entries is a pass over those in scope, where the strings of the others stay. -/
theorem Scope.mapStrings_all_eq (scope : Scope)
    (h : ∀ e ∈ d, scope.contains e.1 = false → ∀ s ∈ e.2.strings, f s = pure (.string s)) :
    Scope.all.mapStrings f d = scope.mapStrings f d := by
  induction d with
  | nil => rfl
  | cons e d ih =>
    obtain ⟨key, v⟩ := e
    rw [Scope.mapStrings, Scope.mapStrings, ih fun e he => h e (List.mem_cons_of_mem _ he)]
    cases hkey : scope.contains key with
    | true => rfl
    | false =>
      rw [Value.mapStrings_eq_pure (h (key, v) List.mem_cons_self hkey)]
      rfl

end Unchanged

namespace Lookup

theorem mem_placeholdersOf_iff {text : String} {ps : List Part} {p : Placeholder}
    (h : Template.parse text = .ok ps) : p ∈ placeholdersOf text ↔ .reference p ∈ ps := by
  simp only [placeholdersOf, h, List.mem_filterMap]
  constructor
  · rintro ⟨part, hpart, hp⟩
    cases part with
    | literal text => cases hp
    | reference q =>
      cases hp
      exact hpart
  · exact fun hp => ⟨_, hp, rfl⟩

theorem exists_parse_of_mem {text : String} {p : Placeholder} (h : p ∈ placeholdersOf text) :
    ∃ ps, Template.parse text = .ok ps ∧ .reference p ∈ ps := by
  cases hparse : Template.parse text with
  | error e => simp [placeholdersOf, hparse] at h
  | ok ps => exact ⟨ps, rfl, (mem_placeholdersOf_iff hparse).1 h⟩

theorem containsPlaceholder_of_mem {text : String} {p : Placeholder} (h : p ∈ placeholdersOf text) :
    Template.containsPlaceholder text = true := by
  obtain ⟨ps, hparse, hp⟩ := exists_parse_of_mem h
  exact Template.containsPlaceholder_iff.2
    ((Template.parts_eq_ok_iff.1 hparse).exists_reference_iff.1 ⟨p, hp⟩)

theorem eq_of_single?_eq_some {ps : List Part} {p : Placeholder}
    (h : Template.single? ps = some p) : ps = [.reference p] := by
  unfold Template.single? at h
  split at h
  · cases h
    rfl
  · cases h

end Lookup

namespace Placeholder

theorem noCycle_of_interpolate {p : Placeholder} {v : Value} {e : ReferenceError}
    (h : p.interpolate v = .error e) : e.NoCycle := by
  cases v <;> cases h <;> rintro _ ⟨⟩

end Placeholder

namespace MonadRelation

variable {m n : Type → Type} [Monad m] [Monad n] [MonadExceptOf ReferenceError m]
  [MonadExceptOf ReferenceError n] (R : MonadRelation m n) {look : Placeholder → m Value}
  {look' : Placeholder → n Value}

theorem of_textOfParts
    (hthrow : ∀ {α : Type} (e : ReferenceError), e.NoCycle → R.Rel (throw e : m α) (throw e)) :
    ∀ ps : List Part, (∀ p, .reference p ∈ ps → R.Rel (look p) (look' p)) →
      R.Rel (Lookup.textOfParts look ps) (Lookup.textOfParts look' ps)
  | [], _ => R.of_pure _
  | .literal text :: ps, h => by
    rw [Lookup.textOfParts, Lookup.textOfParts]
    refine R.of_bind (of_textOfParts hthrow ps fun p hp => h p (List.mem_cons_of_mem _ hp))
      fun _ => ?_
    exact R.of_pure _
  | .reference p :: ps, h => by
    rw [Lookup.textOfParts, Lookup.textOfParts]
    refine R.of_bind (h p (by simp)) fun v => ?_
    refine R.of_bind ?_ fun text => ?_
    · cases hv : p.interpolate v with
      | error e => exact hthrow e (Placeholder.noCycle_of_interpolate hv)
      | ok text => exact R.of_pure text
    · refine R.of_bind (of_textOfParts hthrow ps fun p hp => h p (List.mem_cons_of_mem _ hp))
        fun _ => ?_
      exact R.of_pure _

/-- Resolving a string, where the lookups of its placeholders are related. -/
theorem of_resolveText
    (hthrow : ∀ {α : Type} (e : ReferenceError), e.NoCycle → R.Rel (throw e : m α) (throw e))
    {text : String} (h : ∀ p ∈ Lookup.placeholdersOf text, R.Rel (look p) (look' p)) :
    R.Rel (Lookup.resolveText look text) (Lookup.resolveText look' text) := by
  rw [Lookup.resolveText, Lookup.resolveText]
  split_ifs
  · cases hparse : Template.parse text with
    | error e => exact hthrow e (Template.noCycle_of_parts hparse)
    | ok ps =>
      have hps : ∀ p, .reference p ∈ ps → R.Rel (look p) (look' p) := fun p hp =>
        h p ((Lookup.mem_placeholdersOf_iff hparse).2 hp)
      simp only
      cases hsingle : Template.single? ps with
      | some p => exact hps p (by simp [Lookup.eq_of_single?_eq_some hsingle])
      | none => exact R.of_bind (R.of_textOfParts hthrow ps hps) fun _ => R.of_pure _
  · exact R.of_pure _

end MonadRelation

/-- Resolving a string, where all failures are related. -/
theorem ExceptRelation.of_resolveText {m n : Type → Type} [Monad m] [Monad n]
    [MonadExceptOf ReferenceError m] [MonadExceptOf ReferenceError n]
    (R : ExceptRelation ReferenceError m n) {look : Placeholder → m Value}
    {look' : Placeholder → n Value} {text : String}
    (h : ∀ p ∈ Lookup.placeholdersOf text, R.Rel (look p) (look' p)) :
    R.Rel (Lookup.resolveText look text) (Lookup.resolveText look' text) :=
  R.toMonadRelation.of_resolveText (fun e _ => R.of_throw e) h

end ConfigTree
