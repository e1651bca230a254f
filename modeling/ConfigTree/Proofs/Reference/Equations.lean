import ConfigTree.Proofs.Reference.Table

/-!
# A pass solves the reference equations

A document with placeholders is a system of equations: each string has to become what its placeholders
stand for, and a placeholder that leads into the document stands for what is there *afterwards*
(`StandsFor`). A pass computes this from the document as it was before, string by string, with a table
of places it has been to, and puts in values that it has resolved on the side.

When it succeeds, the document it leaves is a solution (`resolve_solves`). What a placeholder received
is what the plain resolver makes of the value at its place, the same on every stack and within every
limit that is enough, so it is also what stands at this place in the end.
-/

namespace ConfigTree

/-- What a placeholder stands for, where `before` is the document with the placeholder and `after` the
document in which it was replaced. -/
inductive StandsFor (options : ResolverOptions) (env : Environment) (before after : Document)
    (p : Placeholder) : Value → Prop
  /-- A path that leads to something in the document stands for what is there afterwards. -/
  | inDocument {path : Path} {target v : Value} : p.domain = none → Path.parse p.path = .ok path →
      before.get? path = some target → after.get? path = some v → StandsFor options env before after p v
  /-- A path that leads nowhere in the document stands for the fallback. -/
  | notInDocument {path : Path} {text : String} : p.domain = none → Path.parse p.path = .ok path →
      before.get? path = none → p.fallback = some text →
      StandsFor options env before after p (.string text)
  /-- In a namespace, a path that leads to something in the global of that name stands for it. -/
  | inGlobal {name : String} {global : Value} {path : Path} {v : Value} : p.domain = some name →
      Entries.get? options.globals name = some global → Path.parse p.path = .ok path →
      global.get? path = some v → StandsFor options env before after p v
  /-- A path that leads nowhere in the global stands for the fallback. -/
  | notInGlobal {name : String} {global : Value} {path : Path} {text : String} :
      p.domain = some name → Entries.get? options.globals name = some global →
      Path.parse p.path = .ok path → global.get? path = none → p.fallback = some text →
      StandsFor options env before after p (.string text)
  /-- Where no global is called `env`, its path is the name of a variable and stands for its text. -/
  | variable {text : String} : p.domain = some environmentDomain →
      Entries.get? options.globals environmentDomain = none → options.processEnv = true →
      env.lookup p.path = some text → StandsFor options env before after p (.string text)
  /-- The name of no variable stands for the fallback. -/
  | noVariable {text : String} : p.domain = some environmentDomain →
      Entries.get? options.globals environmentDomain = none → options.processEnv = true →
      env.lookup p.path = none → p.fallback = some text →
      StandsFor options env before after p (.string text)

namespace Lookup

variable {l : Lookup} {p : Placeholder} {v : Value} {after : Document}

/-- What a placeholder in a namespace stands for. -/
theorem standsFor_of_inDomain {name : String} (hname : p.domain = some name)
    (h : l.inDomain p name = .ok v) : StandsFor l.options l.env l.snapshot after p v := by
  rw [inDomain, Placeholder.segments] at h
  cases hglobal : Entries.get? l.options.globals name with
  | some global =>
    cases hparse : Path.parse p.path with
    | error fault => simp [hglobal, hparse] at h
    | ok path =>
      simp only [hglobal, hparse] at h
      cases hget : global.get? path with
      | some u =>
        simp only [hget, Except.ok.injEq] at h
        exact h ▸ .inGlobal hname hglobal hparse hget
      | none =>
        simp only [hget] at h
        obtain ⟨text, htext, rfl⟩ := Placeholder.missing_eq_ok_iff.1 h
        exact .notInGlobal hname hglobal hparse hget htext
  | none =>
    simp only [hglobal] at h
    split_ifs at h with henv
    obtain ⟨rfl, hprocess⟩ := henv
    cases hvar : l.env.lookup p.path with
    | some text =>
      simp only [hvar, Except.ok.injEq] at h
      exact h ▸ .variable hname hglobal hprocess hvar
    | none =>
      simp only [hvar] at h
      obtain ⟨text, htext, rfl⟩ := Placeholder.missing_eq_ok_iff.1 h
      exact .noVariable hname hglobal hprocess hvar htext

/-- What a placeholder stands for that leads to no place that is resolved. -/
theorem standsFor_of_aim_value (hscope : ∀ path, l.scope.isFinalized path = false)
    (h : l.aim p = .ok (.value v)) : StandsFor l.options l.env l.snapshot after p v := by
  rcases aim_eq_value_iff.1 h with ⟨name, hdomain, h⟩ | ⟨hdomain, path, hparse, ⟨hget, h⟩ | ⟨-, hfinal⟩⟩
  · exact standsFor_of_inDomain hdomain h
  · obtain ⟨text, htext, rfl⟩ := Placeholder.missing_eq_ok_iff.1 h
    exact .notInDocument hdomain hparse hget htext
  · rw [hscope path] at hfinal
    cases hfinal

/-- Where each string has become what the plain resolver makes of it, a placeholder stands for the value
that it has. -/
theorem standsFor_of_hasValue (hscope : ∀ path, l.scope.isFinalized path = false)
    (hafter : Value.ReplacedEntries (Becomes l.HasValue) l.snapshot after) (h : l.HasValue p v) :
    StandsFor l.options l.env l.snapshot after p v := by
  obtain ⟨n, hn⟩ := h
  rcases plain_eq_pure_iff.1 hn with h | ⟨path, target, m, haim, -, -, hres⟩
  · exact standsFor_of_aim_value hscope h
  · obtain ⟨hdomain, hparse, hget, -⟩ := aim_eq_place_iff.1 haim
    obtain ⟨u, hu, hreplaced⟩ := hafter.documentGet? hget
    have hv := hres.replaced ⟨p, path, haim, rfl⟩
    obtain rfl : v = u := replaced_unique hv hreplaced
    exact .inDocument hdomain hparse hget hu

end Lookup

namespace Resolver

/-- **A successful pass solves the reference equations.** The document it leaves has the keys, the
lengths and the other scalars of the document before, and each string has become what its placeholders
stand for, read in the document it leaves. -/
theorem resolve_solves {options : ResolverOptions} {env : Environment} {before after : Document}
    (h : (placeholders options env).resolve before none = ⟨after, none⟩) :
    Value.ReplacedEntries (Becomes (StandsFor options env before after)) before after := by
  have hafter := replacedIn_all_iff.1 (Lookup.run_eq_ok_iff.1 h)
  refine hafter.imp fun text _ v hv => hv.imp fun p _ u hu => ?_
  exact Lookup.standsFor_of_hasValue (l := ⟨options, env, before, .all⟩) (fun _ => rfl) hafter hu

/-- A document whose placeholders form a chain through a sequence, to a container that holds one itself,
to a global, to a variable and to nothing. -/
def chained : Document :=
  [("a", .string "${b[0].c}"), ("b", .sequence [.mapping [("c", .string "${n}-${env:HOME}")]]),
    ("copy", .string "${b.0}"), ("n", .string "${shared:size}"), ("f", .string "${none:-fallback}")]

/-- What becomes of it. -/
def unchained : Document :=
  [("a", .string "7-/root"), ("b", .sequence [.mapping [("c", .string "7-/root")]]),
    ("copy", .mapping [("c", .string "7-/root")]), ("n", .number (.int 7)), ("f", .string "fallback")]

/-- The options with the global. -/
def shared : ResolverOptions := ⟨[("shared", .mapping [("size", .number (.int 7))])], true⟩

theorem resolve_chained :
    (placeholders shared [("HOME", "/root")]).resolve chained none = ⟨unchained, none⟩ ∧
      Value.ReplacedEntries (Becomes (StandsFor shared [("HOME", "/root")] chained unchained))
        chained unchained := by
  have h : (placeholders shared [("HOME", "/root")]).resolve chained none = ⟨unchained, none⟩ := by
    decide +kernel
  exact ⟨h, resolve_solves h⟩

end Resolver

end ConfigTree
