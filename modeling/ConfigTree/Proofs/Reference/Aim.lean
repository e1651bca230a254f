import ConfigTree.Proofs.Path.Canonical
import ConfigTree.Reference.Pass

/-!
# Where placeholders point

A placeholder points to a value that is put in as it is, or to a place of the document whose value has to
be resolved first. A place is called by the canonical text of its path: different paths have different
canonical texts, so what is called by one text is one place (`StandsAt.unique`).
-/

namespace ConfigTree

namespace Placeholder

variable {p : Placeholder} {v : Value}

/-- Where nothing is found, a placeholder has a value when it has a fallback. -/
theorem missing_eq_ok_iff : p.missing = .ok v ↔ ∃ text, p.fallback = some text ∧ v = .string text := by
  rw [missing]
  cases p.fallback <;> simp [eq_comm]

end Placeholder

namespace Lookup

variable {l : Lookup} {p : Placeholder} {path : Path} {target v : Value} {name c : String}

/-! ### The five ways -/

theorem aim_of_domain (h : p.domain = some name) : l.aim p = (l.inDomain p name).map .value := by
  rw [aim, h]

theorem aim_of_malformed {fault : Path.Fault} (h : p.domain = none)
    (hparse : Path.parse p.path = .error fault) :
    l.aim p = .error (.malformed p.raw fault.message) := by
  rw [aim, h, Placeholder.segments, hparse]

theorem aim_of_nowhere (h : p.domain = none) (hparse : Path.parse p.path = .ok path)
    (hget : l.snapshot.get? path = none) : l.aim p = p.missing.map .value := by
  rw [aim, h, Placeholder.segments, hparse]
  simp only [hget]

theorem aim_of_final (h : p.domain = none) (hparse : Path.parse p.path = .ok path)
    (hget : l.snapshot.get? path = some target) (hfinal : l.scope.isFinalized path = true) :
    l.aim p = .ok (.value target) := by
  rw [aim, h, Placeholder.segments, hparse]
  simp only [hget, hfinal, if_true]

theorem aim_of_place (h : p.domain = none) (hparse : Path.parse p.path = .ok path)
    (hget : l.snapshot.get? path = some target) (hfinal : l.scope.isFinalized path = false) :
    l.aim p = .ok (.place path target) := by
  rw [aim, h, Placeholder.segments, hparse]
  simp only [hget, hfinal, Bool.false_eq_true, if_false]

theorem map_value_ne_place {r : Except ReferenceError Value} :
    r.map Aim.value ≠ .ok (.place path target) := by
  cases r <;> simp [Except.map]

theorem map_value_eq_ok_iff {r : Except ReferenceError Value} :
    r.map Aim.value = .ok (.value v) ↔ r = .ok v := by
  cases r <;> simp [Except.map]

/-- A placeholder leads to a place of the document when it has no namespace and its path leads to a
value there that is not final. -/
theorem aim_eq_place_iff :
    l.aim p = .ok (.place path target) ↔
      p.domain = none ∧ Path.parse p.path = .ok path ∧ l.snapshot.get? path = some target ∧
        l.scope.isFinalized path = false := by
  constructor
  · intro h
    cases hdomain : p.domain with
    | some name =>
      rw [aim_of_domain hdomain] at h
      exact absurd h map_value_ne_place
    | none =>
      cases hparse : Path.parse p.path with
      | error fault =>
        rw [aim_of_malformed hdomain hparse] at h
        cases h
      | ok path' =>
        cases hget : l.snapshot.get? path' with
        | none =>
          rw [aim_of_nowhere hdomain hparse hget] at h
          exact absurd h map_value_ne_place
        | some target' =>
          cases hfinal : l.scope.isFinalized path' with
          | true =>
            rw [aim_of_final hdomain hparse hget hfinal] at h
            cases h
          | false =>
            rw [aim_of_place hdomain hparse hget hfinal] at h
            cases h
            exact ⟨rfl, rfl, hget, hfinal⟩
  · rintro ⟨hdomain, hparse, hget, hfinal⟩
    exact aim_of_place hdomain hparse hget hfinal

/-- A placeholder has a value at once when it has a namespace, when its path leads nowhere, or when it
leads to a final value. -/
theorem aim_eq_value_iff :
    l.aim p = .ok (.value v) ↔
      (∃ name, p.domain = some name ∧ l.inDomain p name = .ok v) ∨
        p.domain = none ∧ ∃ path, Path.parse p.path = .ok path ∧
          (l.snapshot.get? path = none ∧ p.missing = .ok v ∨
            l.snapshot.get? path = some v ∧ l.scope.isFinalized path = true) := by
  constructor
  · intro h
    cases hdomain : p.domain with
    | some name =>
      rw [aim_of_domain hdomain, map_value_eq_ok_iff] at h
      exact .inl ⟨name, rfl, h⟩
    | none =>
      cases hparse : Path.parse p.path with
      | error fault =>
        rw [aim_of_malformed hdomain hparse] at h
        cases h
      | ok path =>
        refine .inr ⟨rfl, path, rfl, ?_⟩
        cases hget : l.snapshot.get? path with
        | none =>
          rw [aim_of_nowhere hdomain hparse hget, map_value_eq_ok_iff] at h
          exact .inl ⟨rfl, h⟩
        | some target =>
          cases hfinal : l.scope.isFinalized path with
          | true =>
            rw [aim_of_final hdomain hparse hget hfinal] at h
            cases h
            exact .inr ⟨rfl, rfl⟩
          | false =>
            rw [aim_of_place hdomain hparse hget hfinal] at h
            cases h
  · rintro (⟨name, hdomain, h⟩ | ⟨hdomain, path, hparse, ⟨hget, h⟩ | ⟨hget, hfinal⟩⟩)
    · rw [aim_of_domain hdomain, map_value_eq_ok_iff]
      exact h
    · rw [aim_of_nowhere hdomain hparse hget, map_value_eq_ok_iff]
      exact h
    · exact aim_of_final hdomain hparse hget hfinal

/-! ### Places -/

/-- At the place with this canonical text, where some placeholder leads, stands this value. -/
def StandsAt (l : Lookup) (c : String) (target : Value) : Prop :=
  ∃ p path, l.aim p = .ok (.place path target) ∧ path.render = c

/-- What is called by one canonical text is one place. -/
theorem StandsAt.unique {target' : Value} (h : l.StandsAt c target) (h' : l.StandsAt c target') :
    target = target' := by
  obtain ⟨p, path, hp, hc⟩ := h
  obtain ⟨p', path', hp', hc'⟩ := h'
  obtain ⟨-, -, hget, -⟩ := aim_eq_place_iff.1 hp
  obtain ⟨-, -, hget', -⟩ := aim_eq_place_iff.1 hp'
  obtain rfl := Path.render_injective (hc.trans hc'.symm)
  exact Option.some.inj (hget.symm.trans hget')

/-- The value at the first place holds a placeholder that leads to the second place. -/
def DependsOn (l : Lookup) (c c' : String) : Prop :=
  ∃ target, l.StandsAt c target ∧ ∃ text ∈ target.strings, ∃ p ∈ placeholdersOf text,
    ∃ path target', l.aim p = .ok (.place path target') ∧ path.render = c'

end Lookup

end ConfigTree
