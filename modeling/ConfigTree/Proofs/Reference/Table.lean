import ConfigTree.Proofs.Reference.Plain

/-!
# The table of a pass

A pass remembers what each place was resolved to, and where a place is in its table it neither looks at
the stack nor resolves anything. The plain resolver would: it might find a cycle there. It does not,
because the table holds only what the plain resolver gives (`Sound`), on some stack, and then it gives
the same on the present one.

So a pass and the plain resolver go through a document side by side. Each failure of one is a failure of
the other, with the same cycle, and stops both at the same string (`plainRun_eq_run`). In particular a
pass that succeeds leaves the document in which each string has become what the plain resolver makes of
it (`run_eq_ok_iff`).
-/

namespace ConfigTree

open Relation

namespace Lookup

variable {l : Lookup} {p : Placeholder} {path : Path} {target v : Value} {c : String}
  {stack : List String} {known : Resolved} {n m : Nat}

/-- Each remembered value is what the place of that name resolves to. -/
def Sound (l : Lookup) (known : Resolved) : Prop :=
  ∀ c v, Entries.get? known c = some v →
    ∃ target n stack, l.StandsAt c target ∧ l.Resolves n stack target v

theorem sound_nil : l.Sound [] := fun _ _ h => nomatch h

theorem Sound.insert (h : l.Sound known) (hat : l.StandsAt c target)
    (hv : l.Resolves n stack target v) : l.Sound (Entries.insert known c v) := by
  intro c' v' hget
  by_cases hc : c = c'
  · subst hc
    rw [Entries.get?_insert_self] at hget
    cases hget
    exact ⟨target, n, stack, hat, hv⟩
  · rw [Entries.get?_insert_of_ne _ _ hc] at hget
    exact h c' v' hget

/-! ### One lookup with the table -/

theorem value_of_error {e : ReferenceError} (h : l.aim p = .error e) :
    l.value n stack p = throw e := by
  unfold value
  simp only [h]

theorem value_of_value (h : l.aim p = .ok (.value v)) : l.value n stack p = pure v := by
  unfold value
  simp only [h]

/-- A place in the table is not looked at again. -/
theorem value_of_known (h : l.aim p = .ok (.place path target))
    (hknown : Entries.get? known path.render = some v) :
    (l.value n stack p).run known = .ok (v, known) := by
  unfold value
  simp only [h, StateT.run_bind, StateT.run_get, pure_bind, hknown, StateT.run_pure]
  rfl

theorem value_of_mem (h : l.aim p = .ok (.place path target))
    (hknown : Entries.get? known path.render = none) (hmem : path.render ∈ stack) :
    (l.value n stack p).run known = .error (.cycle (stack ++ [path.render])) := by
  unfold value
  simp only [h, hmem, if_true, StateT.run_bind, StateT.run_get, pure_bind, hknown]
  rfl

/-- A place that is neither in the table nor on the stack is resolved and remembered. -/
theorem value_succ_of_not_mem (h : l.aim p = .ok (.place path target))
    (hknown : Entries.get? known path.render = none) (hmem : path.render ∉ stack) :
    (l.value (n + 1) stack p).run known =
      ((target.mapStrings (resolveText (l.value n (stack ++ [path.render])))).run known).map
        fun r => (r.1, Entries.insert r.2 path.render r.1) := by
  unfold value
  simp only [h, hmem, if_false, bind_pure_comp, StateT.run_bind, StateT.run_get, pure_bind, hknown,
    StateT.run_map, StateT.run_modify, map_pure]
  rfl

/-! ### Side by side -/

/-- Computations with a sound table that do what plain ones do, and leave a sound table. -/
def remembers (l : Lookup) : ExceptRelation ReferenceError Resolving Attempt where
  Rel x y := ∀ known r, l.Sound known → y = some r →
    ∃ known', l.Sound known' ∧ x.run known = r.map (·, known')
  of_pure a known r hknown h := by
    cases h
    exact ⟨known, hknown, rfl⟩
  of_bind := by
    intro α β x y f g hxy hfg known r hknown h
    match y, h with
    | some (.error e), h =>
      cases h
      obtain ⟨known', -, hx⟩ := hxy known _ hknown rfl
      refine ⟨known, hknown, ?_⟩
      rw [StateT.run_bind, hx]
      rfl
    | some (.ok a), h =>
      obtain ⟨known', hknown', hx⟩ := hxy known _ hknown rfl
      obtain ⟨known'', hknown'', hf⟩ := hfg a known' r hknown' h
      refine ⟨known'', hknown'', ?_⟩
      rw [StateT.run_bind, hx]
      exact hf
  of_throw e known r hknown h := by
    cases h
    exact ⟨known, hknown, rfl⟩

/-- What is in the table for a place is what the plain resolver makes of it, where it comes to an end. -/
theorem plain_eq_of_known {r : Except ReferenceError Value} (hknown : l.Sound known)
    (haim : l.aim p = .ok (.place path target)) (hget : Entries.get? known path.render = some v)
    (hstack : ∀ c ∈ stack, TransGen l.DependsOn c path.render) (hr : l.plain n stack p = some r) :
    r = .ok v := by
  obtain ⟨target', m, stack', hat, hres⟩ := hknown _ _ hget
  obtain rfl : target' = target := hat.unique ⟨p, path, haim, rfl⟩
  have hmem : path.render ∉ stack := fun hm =>
    not_dependsOn_self ⟨target', stack', v, hat, hres⟩ (hstack _ hm)
  have hplain : l.plain (m + 1) stack p = pure v := by
    refine plain_eq_pure_iff.2 (.inr ⟨path, target', m, haim, hmem, rfl, ?_⟩)
    exact hres.of_stack hat fun c' hc => transGen_of_mem_append hstack hc
  have hle := plain_eq_some_of_le (Nat.le_max_left (m + 1) n) _ hplain
  rw [plain_eq_some_of_le (Nat.le_max_right (m + 1) n) _ hr] at hle
  exact Option.some.inj hle

/-- A lookup that has not to resolve a new place. -/
theorem remembers_of_new (hstack : ∀ path target, l.aim p = .ok (.place path target) →
      ∀ c ∈ stack, TransGen l.DependsOn c path.render)
    (hnew : ∀ path target known r, l.aim p = .ok (.place path target) → l.Sound known →
      Entries.get? known path.render = none → path.render ∉ stack → l.plain n stack p = some r →
      ∃ known', l.Sound known' ∧ (l.value n stack p).run known = r.map (·, known')) :
    l.remembers.Rel (l.value n stack p) (l.plain n stack p) := by
  rcases haim : l.aim p with e | ⟨v⟩ | ⟨path, target⟩
  · rw [value_of_error haim, plain_of_error haim]
    exact l.remembers.of_throw e
  · rw [value_of_value haim, plain_of_value haim]
    exact l.remembers.of_pure v
  · intro known r hknown hr
    cases hget : Entries.get? known path.render with
    | some v =>
      rw [plain_eq_of_known hknown haim hget (hstack _ _ haim) hr]
      exact ⟨known, hknown, value_of_known haim hget⟩
    | none =>
      by_cases hmem : path.render ∈ stack
      · rw [plain_of_mem haim hmem] at hr
        cases hr
        exact ⟨known, hknown, value_of_mem haim hget hmem⟩
      · exact hnew path target known r haim hknown hget hmem hr

/-- **The table changes no lookup.** With a sound table, a placeholder that is met on a stack of places
that lead to it has the value, or the failure, that it has for the plain resolver. -/
theorem remembers_value (hstack : ∀ path target, l.aim p = .ok (.place path target) →
      ∀ c ∈ stack, TransGen l.DependsOn c path.render) :
    l.remembers.Rel (l.value n stack p) (l.plain n stack p) := by
  induction n generalizing stack p with
  | zero =>
    refine remembers_of_new hstack fun path target known r haim _ _ hmem hr => ?_
    rw [plain_zero_of_not_mem haim hmem] at hr
    cases hr
  | succ n ih =>
    refine remembers_of_new hstack fun path target known r haim hknown hget hmem hr => ?_
    have hat : l.StandsAt path.render target := ⟨p, path, haim, rfl⟩
    have hrel : l.remembers.Rel
        (target.mapStrings (resolveText (l.value n (stack ++ [path.render]))))
        (target.mapStrings (resolveText (l.plain n (stack ++ [path.render])))) := by
      refine l.remembers.of_mapStrings target fun text ht => ?_
      refine l.remembers.of_resolveText fun q hq => ih fun path' target' haim' => ?_
      exact transGen_of_mem_append (hstack _ _ haim)
        ⟨target, hat, text, ht, q, hq, path', target', haim', rfl⟩
    rw [plain_succ_of_not_mem haim hmem] at hr
    obtain ⟨known', hknown', hrun⟩ := hrel known r hknown hr
    rw [value_succ_of_not_mem haim hget hmem, hrun]
    cases r with
    | error e => exact ⟨known, hknown, rfl⟩
    | ok v => exact ⟨_, hknown'.insert hat (mapStrings_eq_pure_iff.1 hr), rfl⟩

/-! ### Whole passes -/

/-- Passes with a sound table that do what plain ones do, and leave a sound table. -/
def passesRemember (l : Lookup) :
    MonadRelation (StateM Progress) (StateT (Option ReferenceError) Option) where
  Rel x y := ∀ progress r, l.Sound progress.known → y.run progress.failure = some r →
    ∃ known, l.Sound known ∧ x.run progress = (r.1, ⟨known, r.2⟩)
  of_pure a progress r hknown h := by
    cases h
    exact ⟨progress.known, hknown, rfl⟩
  of_bind := by
    intro α β x y f g hxy hfg progress r hknown h
    rw [StateT.run_bind] at h
    obtain ⟨⟨a, failure⟩, hy, hg⟩ := Option.bind_eq_some_iff.1 h
    obtain ⟨known, hknown', hx⟩ := hxy progress _ hknown hy
    obtain ⟨known', hknown'', hf⟩ := hfg a ⟨known, failure⟩ r hknown' hg
    refine ⟨known', hknown'', ?_⟩
    rw [StateT.run_bind, hx]
    exact hf

theorem remembers_string (text : String) :
    l.remembers.Rel (l.string text) (resolveText (l.plain l.depth []) text) :=
  l.remembers.of_resolveText fun _ _ => remembers_value (by simp)

theorem passesRemember_replaceString (text : String) :
    l.passesRemember.Rel (l.replaceString text) (l.plainString l.depth text) := by
  rintro ⟨known, failure⟩ r hknown h
  cases failure with
  | some e =>
    cases h
    exact ⟨known, hknown, rfl⟩
  | none =>
    obtain ⟨result, hresult, rfl⟩ := Option.map_eq_some_iff.1 h
    obtain ⟨known', hknown', hrun⟩ := remembers_string text known result hknown hresult
    cases result with
    | ok v =>
      refine ⟨known', hknown', ?_⟩
      simp only [StateT.run, replaceString] at hrun ⊢
      rw [hrun]
      rfl
    | error e =>
      refine ⟨known, hknown, ?_⟩
      simp only [StateT.run, replaceString] at hrun ⊢
      rw [hrun]
      rfl

/-- Plain passes that come to an end. -/
def passesEnd : MonadRelation (StateT (Option ReferenceError) Option)
    (StateT (Option ReferenceError) Option) where
  Rel x _ := ∀ failure, x.run failure ≠ none
  of_pure _ _ h := nomatch h
  of_bind := by
    intro α β x y f g hx hf failure h
    rw [StateT.run_bind] at h
    cases hr : x.run failure with
    | none => exact hx failure hr
    | some r =>
      rw [hr] at h
      exact hf r.1 r.2 h

/-- For each string in scope the plain resolver comes to an end. -/
theorem resolveText_plain_ne_none {text : String} (ht : text ∈ l.scope.strings l.snapshot) :
    resolveText (l.plain l.depth []) text ≠ none := by
  have hends : ends.Rel (resolveText (l.plain l.depth []) text)
      (resolveText (l.plain l.depth []) text) := by
    refine ends.of_resolveText fun p hp => plain_ne_none List.nodup_nil (by simp) ?_ (by simp)
    exact List.mem_flatMap.2 ⟨text, l.scope.strings_subset l.snapshot ht, hp⟩
  exact hends

theorem passesEnd_plainString {text : String} (ht : text ∈ l.scope.strings l.snapshot) :
    passesEnd.Rel (l.plainString l.depth text) (l.plainString l.depth text) := by
  intro failure h
  cases failure with
  | some e => cases h
  | none => exact resolveText_plain_ne_none ht (Option.map_eq_none_iff.1 h)

/-- Passes that are the same where the first one comes to an end. -/
def passesAgree {σ : Type} : MonadRelation (StateT σ Option) (StateT σ Option) where
  Rel x y := ∀ state r, x.run state = some r → y.run state = some r
  of_pure _ _ _ h := h
  of_bind := by
    intro α β x y f g hxy hfg state r h
    rw [StateT.run_bind] at h ⊢
    obtain ⟨s, hx, hf⟩ := Option.bind_eq_some_iff.1 h
    rw [hxy state s hx]
    exact hfg s.1 s.2 r hf

/-- Where lookups are the same if the first one ends, so are passes over a string. -/
theorem passesAgree_plainString {l' : Lookup}
    (h : ∀ p, sameIfEnds.Rel (l.plain n [] p) (l'.plain m [] p)) (text : String) :
    passesAgree.Rel (l.plainString n text) (l'.plainString m text) := by
  intro failure r hrun
  cases failure with
  | some e => exact hrun
  | none =>
    have hsame : sameIfEnds.Rel (resolveText (l.plain n []) text) (resolveText (l'.plain m []) text) :=
      sameIfEnds.of_resolveText fun p _ => h p
    obtain ⟨result, hresult, rfl⟩ := Option.map_eq_some_iff.1 hrun
    exact Option.map_eq_some_iff.2 ⟨result, hsame result hresult, rfl⟩

theorem plainRun_eq_some_of_le {r : Resolution} (hnm : n ≤ m) (h : l.plainRun n = some r) :
    l.plainRun m = some r := by
  obtain ⟨s, hs, rfl⟩ := Option.map_eq_some_iff.1 h
  have hrel := passesAgree.of_scopeMapStrings l.scope l.snapshot fun text _ =>
    passesAgree_plainString (fun _ => plain_eq_some_of_le (l := l) hnm) text
  exact Option.map_eq_some_iff.2 ⟨s, hrel none s hs, rfl⟩

/-- The number of placeholders of the document is limit enough for the plain resolver, and then it does
what the pass does. -/
theorem plainRun_depth : l.plainRun l.depth = some l.run := by
  have hends := passesEnd.of_scopeMapStrings l.scope l.snapshot fun text ht =>
    passesEnd_plainString (l := l) ht
  obtain ⟨r, hr⟩ := Option.ne_none_iff_exists'.1 (hends none)
  have hrel := l.passesRemember.of_scopeMapStrings l.scope l.snapshot fun text _ =>
    passesRemember_replaceString text
  obtain ⟨known, -, hrun⟩ := hrel ⟨[], none⟩ r sound_nil hr
  refine Option.map_eq_some_iff.2 ⟨r, hr, ?_⟩
  rw [run, hrun]

/-- Under any limit that is enough, the plain resolver does what the pass does. -/
theorem run_eq_of_plainRun {r : Resolution} (h : l.plainRun n = some r) : l.run = r := by
  have hmax := plainRun_eq_some_of_le (Nat.le_max_left n l.depth) h
  rw [plainRun_eq_some_of_le (Nat.le_max_right n l.depth) plainRun_depth] at hmax
  exact Option.some.inj hmax

/-- **The table is a pure optimisation.** Under every limit from the number of placeholders on, the plain
resolver, which has no table, leaves the document that the pass leaves, with the same failure or none. -/
theorem plainRun_eq_run (l : Lookup) (extra : Nat) : l.plainRun (l.depth + extra) = some l.run :=
  plainRun_eq_some_of_le (Nat.le_add_right _ _) plainRun_depth

/-! ### Passes that succeed -/

/-- Plain passes that succeed where a plain attempt does, and stay stopped where they were stopped. -/
def passesSucceed : MonadRelation (StateT (Option ReferenceError) Option) Attempt where
  Rel x y := (∀ a, x.run none = some (a, none) ↔ y = pure a) ∧
    ∀ e r, x.run (some e) = some r → r.2 = some e
  of_pure a := by
    refine ⟨fun b => ?_, ?_⟩
    · rw [Attempt.pure_inj]
      exact ⟨fun h => (Prod.mk.inj (Option.some.inj h)).1, by rintro rfl; rfl⟩
    · rintro e r h
      cases h
      rfl
  of_bind := by
    rintro α β x y f g ⟨hxy, hx⟩ hfg
    refine ⟨fun b => ?_, fun e r h => ?_⟩
    · rw [StateT.run_bind, Attempt.bind_eq_pure_iff]
      constructor
      · intro h
        obtain ⟨⟨a, failure⟩, hrun, hf⟩ := Option.bind_eq_some_iff.1 h
        cases failure with
        | none => exact ⟨a, (hxy a).1 hrun, ((hfg a).1 b).1 hf⟩
        | some e => cases (hfg a).2 e _ hf
      · rintro ⟨a, hy, hg⟩
        exact Option.bind_eq_some_iff.2 ⟨(a, none), (hxy a).2 hy, ((hfg a).1 b).2 hg⟩
    · rw [StateT.run_bind] at h
      obtain ⟨⟨a, failure⟩, hrun, hf⟩ := Option.bind_eq_some_iff.1 h
      obtain rfl : failure = some e := hx e _ hrun
      exact (hfg a).2 e r hf

/-- Attempts at one string, unless the pass was stopped before or is stopped by it. -/
def attempt (f : String → Attempt Value) (text : String) :
    StateT (Option ReferenceError) Option Value := fun failure =>
  match failure with
  | some e => some (.string text, some e)
  | none =>
    (f text).run.map fun
      | .ok v => (v, none)
      | .error e => (.string text, some e)

theorem plainString_eq_attempt :
    l.plainString n = attempt (resolveText (l.plain n [])) := rfl

theorem passesSucceed_attempt (f : String → Attempt Value) (text : String) :
    passesSucceed.Rel (attempt f text) (f text) := by
  refine ⟨fun v => ?_, ?_⟩
  · constructor
    · intro h
      obtain ⟨result, hresult, h⟩ := Option.map_eq_some_iff.1 h
      cases result with
      | ok w =>
        cases h
        exact hresult
      | error e => cases h
    · intro h
      exact Option.map_eq_some_iff.2 ⟨.ok v, h, rfl⟩
  · rintro e r h
    cases h
    rfl

/-- A plain pass succeeds with the document in which each string has become what it becomes. -/
theorem plainRun_eq_ok_iff {d : Document} :
    l.plainRun n = some ⟨d, none⟩ ↔
      ReplacedIn l.scope (Becomes fun p v => l.plain n [] p = pure v) l.snapshot d := by
  have hrel := passesSucceed.of_scopeMapStrings l.scope l.snapshot fun text _ =>
    passesSucceed_attempt (resolveText (l.plain n [])) text
  rw [← scopeMapStrings_eq_pure_iff, ← hrel.1 d]
  constructor
  · intro h
    obtain ⟨⟨d', failure⟩, hrun, h⟩ := Option.map_eq_some_iff.1 h
    cases h
    exact hrun
  · exact fun h => Option.map_eq_some_iff.2 ⟨_, h, rfl⟩

/-- A pass succeeds with a document exactly when each string in scope has become what the plain resolver
makes of its placeholders. -/
theorem run_eq_ok_iff {d : Document} :
    l.run = ⟨d, none⟩ ↔ ReplacedIn l.scope (Becomes l.HasValue) l.snapshot d := by
  have hmem : ∀ text ∈ l.scope.strings l.snapshot, ∀ p ∈ placeholdersOf text, p ∈ l.occurring :=
    fun text ht p hp => List.mem_flatMap.2 ⟨text, l.scope.strings_subset l.snapshot ht, hp⟩
  have hdepth : l.run = ⟨d, none⟩ ↔ l.plainRun l.depth = some ⟨d, none⟩ := by
    rw [plainRun_depth, Option.some.injEq]
  rw [hdepth, plainRun_eq_ok_iff]
  constructor
  · exact fun h => h.imp fun text ht _ hu => hu.imp fun p hp _ =>
      (hasValue_iff_of_mem (hmem text ht p hp)).2
  · exact fun h => h.imp fun text ht _ hu => hu.imp fun p hp _ =>
      (hasValue_iff_of_mem (hmem text ht p hp)).1

end Lookup

end ConfigTree
