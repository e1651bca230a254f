import ConfigTree.Proofs.Reference.Table

/-!
# Reference cycles

A pass fails with a cycle when a placeholder leads to a place that is being resolved already. One place
can have several canonical texts, a place can lie inside another, and what was resolved before is not
resolved again. Does a pass tell only cycles that are there, and does it find one when there is one?

It does what the plain resolver does, whose stack is a way along dependencies: the value at each place
holds a placeholder that leads to the next. So the chain of a failure is such a way, closed by the place
that was met again (`lasso_of_plain`). The other way round, a place that can be resolved depends only on
places that can be resolved within lower limits, which no place on a cycle can.

A cycle is told in canonical texts. Two texts for one place count as two places, so a way round may be
taken once for each of them before it closes.
-/

namespace ConfigTree

open Relation

/-! ### The relation of a document -/

namespace Document

/-- The text holds a placeholder without a namespace, and its path leads to something in the document
and has this canonical text. A text that breaks the grammar holds no placeholders. -/
def PointsTo (d : Document) (text c : String) : Prop :=
  ∃ p ∈ Lookup.placeholdersOf text, p.domain = none ∧
    ∃ path target, Path.parse p.path = .ok path ∧ d.get? path = some target ∧ path.render = c

/-- What stands in the document at the place with the first canonical text holds, at any depth, a
placeholder that points to the place with the second. -/
def DependsOn (d : Document) (c c' : String) : Prop :=
  ∃ written path target, Path.parse written = .ok path ∧ path.render = c ∧
    d.get? path = some target ∧ ∃ text ∈ target.strings, d.PointsTo text c'

end Document

namespace Lookup

variable {l : Lookup} {p : Placeholder} {path : Path} {target : Value} {text first c c' : String}
  {stack chain : List String} {n : Nat}

/-- The text holds a placeholder that leads to the place with this canonical text. -/
def PointsTo (l : Lookup) (text c : String) : Prop :=
  ∃ p ∈ placeholdersOf text, ∃ path target, l.aim p = .ok (.place path target) ∧ path.render = c

theorem dependsOn_of_aim (haim : l.aim p = .ok (.place path target)) (ht : text ∈ target.strings)
    (hc : l.PointsTo text c) : l.DependsOn path.render c :=
  ⟨target, ⟨p, path, haim, rfl⟩, text, ht, hc⟩

theorem pointsTo_iff (hscope : ∀ path, l.scope.isFinalized path = false) :
    l.PointsTo text c ↔ l.snapshot.PointsTo text c := by
  simp only [PointsTo, Document.PointsTo, aim_eq_place_iff, hscope, and_true]
  constructor
  · rintro ⟨p, hp, path, target, ⟨hdomain, hparse, hget⟩, hc⟩
    exact ⟨p, hp, hdomain, path, target, hparse, hget, hc⟩
  · rintro ⟨p, hp, hdomain, path, target, hparse, hget, hc⟩
    exact ⟨p, hp, path, target, ⟨hdomain, hparse, hget⟩, hc⟩

theorem standsAt_iff (hscope : ∀ path, l.scope.isFinalized path = false) :
    l.StandsAt c target ↔ ∃ written path, Path.parse written = .ok path ∧ path.render = c ∧
      l.snapshot.get? path = some target := by
  simp only [StandsAt, aim_eq_place_iff, hscope, and_true]
  constructor
  · rintro ⟨p, path, ⟨-, hparse, hget⟩, hc⟩
    exact ⟨p.path, path, hparse, hc, hget⟩
  · rintro ⟨written, path, hparse, hc, hget⟩
    exact ⟨⟨written, none, written, none⟩, path, ⟨rfl, hparse, hget⟩, hc⟩

/-- The dependencies that a pass goes along are those of the document. -/
theorem dependsOn_eq (hscope : ∀ path, l.scope.isFinalized path = false) :
    l.DependsOn = l.snapshot.DependsOn := by
  funext c c'
  rw [eq_iff_iff]
  constructor
  · rintro ⟨target, hat, text, ht, hc⟩
    obtain ⟨written, path, hparse, hrender, hget⟩ := (standsAt_iff hscope).1 hat
    exact ⟨written, path, target, hparse, hrender, hget, text, ht, (pointsTo_iff hscope).1 hc⟩
  · rintro ⟨written, path, target, hparse, hrender, hget, text, ht, hc⟩
    have hat := (standsAt_iff hscope).2 ⟨written, path, hparse, hrender, hget⟩
    exact ⟨target, hat, text, ht, (pointsTo_iff hscope).2 hc⟩

/-! ### The chain that a failure tells -/

/-- Attempts that fail with a cycle only when its chain has a property. -/
def cyclesHave (P : List String → Prop) : MonadRelation Attempt Attempt where
  Rel x _ := ∀ chain, x = throw (.cycle chain) → P chain
  of_pure _ _ h := nomatch Option.some.inj h
  of_bind := by
    intro α β x y f g hx hf chain h
    match x, h with
    | none, h => cases h
    | some (.error e), h =>
      refine hx chain ?_
      cases h
      rfl
    | some (.ok a), h => exact hf a chain h

theorem cyclesHave_throw {P : List String → Prop} {α : Type} {e : ReferenceError} (he : e.NoCycle) :
    (cyclesHave P).Rel (throw e : Attempt α) (throw e) := by
  intro chain h
  cases h
  exact absurd rfl (he chain)

theorem noCycle_of_segments {e : ReferenceError} (h : p.segments = .error e) : e.NoCycle := by
  rw [Placeholder.segments] at h
  split at h
  · cases h
  · cases h
    rintro _ ⟨⟩

theorem noCycle_of_missing {e : ReferenceError} (h : p.missing = .error e) : e.NoCycle := by
  rw [Placeholder.missing] at h
  split at h
  · cases h
  · cases h
    rintro _ ⟨⟩

theorem noCycle_of_inDomain {name : String} {e : ReferenceError} (h : l.inDomain p name = .error e) :
    e.NoCycle := by
  rw [inDomain] at h
  split at h
  · split at h
    · next hsegments =>
      cases h
      exact noCycle_of_segments hsegments
    · split at h
      · cases h
      · exact noCycle_of_missing h
  · split at h
    · split at h
      · cases h
      · exact noCycle_of_missing h
    · cases h
      rintro _ ⟨⟩

theorem noCycle_of_map_value {r : Except ReferenceError Value} {e : ReferenceError}
    (hr : ∀ e, r = .error e → e.NoCycle) (h : r.map Aim.value = .error e) : e.NoCycle := by
  cases r with
  | error e' =>
    cases h
    exact hr e rfl
  | ok v => cases h

/-- To tell where a placeholder points never takes a cycle. -/
theorem noCycle_of_aim {e : ReferenceError} (h : l.aim p = .error e) : e.NoCycle := by
  rw [aim] at h
  split at h
  · exact noCycle_of_map_value (fun _ => noCycle_of_inDomain) h
  · split at h
    · next hsegments =>
      cases h
      exact noCycle_of_segments hsegments
    · split at h
      · exact noCycle_of_map_value (fun _ => noCycle_of_missing) h
      · split at h <;> cases h

/-- The chain leads along dependencies from a first place with this property, and has closed. -/
def ClosesFrom (l : Lookup) (Q : String → Prop) (chain : List String) : Prop :=
  ∃ first, Q first ∧ Lasso l.DependsOn first chain

/-- A lookup that does not put a place on the stack. -/
theorem closesFrom_of_new {Q : String → Prop}
    (hway : ∀ path target, l.aim p = .ok (.place path target) →
      ∃ first, Q first ∧ Way l.DependsOn first stack path.render)
    (hnew : ∀ path target first, l.aim p = .ok (.place path target) → Q first →
      Way l.DependsOn first stack path.render → path.render ∉ stack →
      (cyclesHave (l.ClosesFrom Q)).Rel (l.plain n stack p) (l.plain n stack p)) :
    (cyclesHave (l.ClosesFrom Q)).Rel (l.plain n stack p) (l.plain n stack p) := by
  rcases haim : l.aim p with e | ⟨v⟩ | ⟨path, target⟩
  · rw [plain_of_error haim]
    exact cyclesHave_throw (noCycle_of_aim haim)
  · rw [plain_of_value haim]
    exact (cyclesHave _).of_pure v
  · obtain ⟨first, hfirst, hto⟩ := hway path target haim
    by_cases hmem : path.render ∈ stack
    · rw [plain_of_mem haim hmem]
      intro chain h
      cases h
      exact ⟨first, hfirst, hto.lasso hmem⟩
    · exact hnew path target first haim hfirst hto hmem

/-- **A cycle that the plain resolver fails with is there.** When the stack is a way along dependencies
from a place with some property to the place where a placeholder leads, then the chain of a cycle is such
a way that has closed. -/
theorem closesFrom_of_plain {Q : String → Prop}
    (hway : ∀ path target, l.aim p = .ok (.place path target) →
      ∃ first, Q first ∧ Way l.DependsOn first stack path.render) :
    (cyclesHave (l.ClosesFrom Q)).Rel (l.plain n stack p) (l.plain n stack p) := by
  induction n generalizing stack p with
  | zero =>
    refine closesFrom_of_new hway fun path target first haim _ _ hmem => ?_
    rw [plain_zero_of_not_mem haim hmem]
    intro chain h
    cases h
  | succ n ih =>
    refine closesFrom_of_new hway fun path target first haim hfirst hto hmem => ?_
    rw [plain_succ_of_not_mem haim hmem]
    refine (cyclesHave _).of_mapStrings target fun text ht => ?_
    refine (cyclesHave _).of_resolveText (fun _ => cyclesHave_throw) fun q hq => ?_
    refine ih fun path' target' haim' => ⟨first, hfirst, hto.next hmem ?_⟩
    exact dependsOn_of_aim haim ht ⟨q, hq, path', target', haim', rfl⟩

/-! ### Whole passes -/

/-- Plain passes that are stopped by a cycle only when its chain has a property. -/
def passCyclesHave (P : List String → Prop) :
    MonadRelation (StateT (Option ReferenceError) Option) (StateT (Option ReferenceError) Option) where
  Rel x _ := ∀ failure r, (∀ chain, failure = some (.cycle chain) → P chain) →
    x.run failure = some r → ∀ chain, r.2 = some (.cycle chain) → P chain
  of_pure a failure r hfailure h := by
    cases h
    exact hfailure
  of_bind := by
    intro α β x y f g hx hf failure r hfailure h
    rw [StateT.run_bind] at h
    obtain ⟨s, hs, hr⟩ := Option.bind_eq_some_iff.1 h
    exact hf s.1 s.2 r (hx failure s hfailure hs) hr

/-- The place with this canonical text is one to which a string in scope points. -/
def InScope (l : Lookup) (c : String) : Prop := ∃ text ∈ l.scope.strings l.snapshot, l.PointsTo text c

theorem passCyclesHave_plainString (ht : text ∈ l.scope.strings l.snapshot) :
    (passCyclesHave (l.ClosesFrom l.InScope)).Rel (l.plainString n text) (l.plainString n text) := by
  intro failure r hfailure h
  cases failure with
  | some e =>
    cases h
    exact hfailure
  | none =>
    obtain ⟨result, hresult, rfl⟩ := Option.map_eq_some_iff.1 h
    cases result with
    | ok v =>
      intro chain hchain
      cases hchain
    | error e =>
      intro chain hchain
      cases hchain
      have hrel : (cyclesHave (l.ClosesFrom l.InScope)).Rel (resolveText (l.plain n []) text)
          (resolveText (l.plain n []) text) := by
        refine (cyclesHave _).of_resolveText (fun _ => cyclesHave_throw) fun p hp => ?_
        refine closesFrom_of_plain fun path target haim => ⟨path.render, ?_, Way.start _⟩
        exact ⟨text, ht, p, hp, path, target, haim, rfl⟩
      exact hrel chain hresult

/-- The chain of a cycle that stops a pass begins where a string in scope points, and is a way along
dependencies that has closed. -/
theorem closesFrom_of_run (h : l.run.failure = some (.cycle chain)) : l.ClosesFrom l.InScope chain := by
  obtain ⟨r, hr, heq⟩ := Option.map_eq_some_iff.1 (plainRun_depth (l := l))
  have hrel := (passCyclesHave (l.ClosesFrom l.InScope)).of_scopeMapStrings l.scope l.snapshot
    fun text ht => passCyclesHave_plainString (n := l.depth) ht
  rw [← heq] at h
  exact hrel none r (by simp) hr chain h

/-- What a pass that succeeds has resolved reaches no cycle. -/
theorem not_reachesCycle_of_run {d : Document} (h : l.run = ⟨d, none⟩) (hc : l.InScope c) :
    ¬ ReachesCycle l.DependsOn c := by
  obtain ⟨text, ht, p, hp, path, target, haim, rfl⟩ := hc
  obtain ⟨u, hu⟩ := (run_eq_ok_iff.1 h).exists_of_mem text ht
  obtain ⟨v, n, hv⟩ := hu.exists_of_mem hp
  rcases plain_eq_pure_iff.1 hv with h | ⟨path', target', m, h, -, -, hres⟩
  · cases haim.symm.trans h
  · cases haim.symm.trans h
    exact not_reachesCycle settles_descend ⟨target, _, v, ⟨p, path, haim, rfl⟩, hres⟩

end Lookup

namespace Resolver

/-- The entries that a pass goes through: all of them, or that of one key. -/
def scopeOf : Option String → Scope
  | none => .all
  | some key => .only key

theorem resolve_eq_run (options : ResolverOptions) (env : Environment) (d : Document)
    (key : Option String) :
    (placeholders options env).resolve d key = Lookup.run ⟨options, env, d, scopeOf key⟩ := by
  cases key <;> rfl

theorem isFinalized_scopeOf (key : Option String) (path : Path) :
    (scopeOf key).isFinalized path = false := by
  cases key <;> rfl

/-- **Reference cycles are detected, and only these.** A pass over a document, or over the entry of one
key, that fails with a cycle tells a chain of places. To the first a string in scope points, each depends
on the next, and the last is the only one to be met twice. Where no dependencies lead round there is no
such failure, and where they do, on a way from a string in scope, the pass does not succeed. -/
theorem resolve_cycles (options : ResolverOptions) (env : Environment) (d : Document)
    (key : Option String) :
    (∀ chain, ((placeholders options env).resolve d key).failure = some (.cycle chain) →
      ∃ first, (∃ text ∈ (scopeOf key).strings d, d.PointsTo text first) ∧
        Lasso d.DependsOn first chain) ∧
    ((∀ c, ¬ TransGen d.DependsOn c c) → ∀ chain,
      ((placeholders options env).resolve d key).failure ≠ some (.cycle chain)) ∧
    (∀ text ∈ (scopeOf key).strings d, ∀ c, d.PointsTo text c → ReachesCycle d.DependsOn c →
      ((placeholders options env).resolve d key).failure ≠ none) := by
  rw [resolve_eq_run]
  set l : Lookup := ⟨options, env, d, scopeOf key⟩
  have hscope : ∀ path, l.scope.isFinalized path = false := isFinalized_scopeOf key
  have hdepends : l.DependsOn = d.DependsOn := Lookup.dependsOn_eq hscope
  have hsound : ∀ chain, l.run.failure = some (.cycle chain) →
      ∃ first, (∃ text ∈ (scopeOf key).strings d, d.PointsTo text first) ∧
        Lasso d.DependsOn first chain := by
    intro chain h
    obtain ⟨first, ⟨text, ht, hpoints⟩, hlasso⟩ := Lookup.closesFrom_of_run h
    rw [hdepends] at hlasso
    exact ⟨first, ⟨text, ht, (Lookup.pointsTo_iff hscope).1 hpoints⟩, hlasso⟩
  refine ⟨hsound, fun hacyclic chain h => ?_, fun text ht c hpoints hcycle h => ?_⟩
  · obtain ⟨first, -, hlasso⟩ := hsound chain h
    obtain ⟨c, -, hc⟩ := hlasso.reachesCycle
    exact hacyclic c hc
  · obtain ⟨d', hrun⟩ := Resolution.failure_eq_none_iff.1 h
    have hin : l.InScope c := ⟨text, ht, (Lookup.pointsTo_iff hscope).2 hpoints⟩
    rw [← hdepends] at hcycle
    exact Lookup.not_reachesCycle_of_run hrun hin hcycle

/-- A sequence whose only item refers to itself, by an index that is written like a key. -/
def selfish : Document :=
  [("greeting", .string "to ${list[0]}"), ("list", .sequence [.string "${list.0}"])]

/-- The item is met under one of its names and goes round under the other. -/
theorem resolve_selfish :
    ((placeholders {} []).resolve selfish (some "greeting")).failure =
        some (.cycle ["list[0]", "list.0", "list.0"]) ∧
      Lasso selfish.DependsOn "list[0]" ["list[0]", "list.0", "list.0"] := by
  have hfails : ((placeholders {} []).resolve selfish (some "greeting")).failure =
      some (.cycle ["list[0]", "list.0", "list.0"]) := by decide +kernel
  obtain ⟨first, -, hlasso⟩ := (resolve_cycles {} [] selfish (some "greeting")).1 _ hfails
  obtain rfl : "list[0]" = first := Option.some.inj hlasso.starts
  exact ⟨hfails, hlasso⟩

end Resolver

end ConfigTree
