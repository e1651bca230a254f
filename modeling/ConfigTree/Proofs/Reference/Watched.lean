import ConfigTree.Proofs.Reference.Table
import Mathlib.Data.List.Dedup

/-!
# Resolving comes to an end

To resolve a reference is to copy what stands at a place and to resolve the copy, and the copy may hold
the very reference that led there. So neither the size of a value nor its depth goes down. Does a pass
come to an end, and how deep are its lookups nested?

`watch` is the resolver again, with a table as the pass has it. It writes down each moment at which a
place is put on the stack and at which a string is gone through, and it has no result where its limit on
nested lookups is not enough. Each place on the stack is written in some placeholder of the snapshot,
since text that is put in is never searched for placeholders, and no place is put on the stack twice. So
the stack is no longer than there are different placeholders, and what is gone through while a place is on
top of it are the strings of the one value that stands there (`Proper`). A limit of that many lookups is
enough for any document, and then the watched pass does what the pass does (`run_terminates`).
-/

namespace ConfigTree

/-- What a pass is about to do. -/
inductive Moment where
  /-- To resolve a value, with its place on top of the stack. -/
  | entering (stack : List String) (target : Value)
  /-- To go through a string. -/
  | resolving (stack : List String) (text : String)

/-- The places that are being resolved. -/
def Moment.stack : Moment → List String
  | entering stack _ => stack
  | resolving stack _ => stack

/-- A computation of a pass that is watched, and comes to no end where its limit is not enough. -/
abbrev Watched := StateT Resolved (ExceptT ReferenceError (StateT (List Moment) Option))

namespace Watched

variable {α β : Type} {x : Watched α} {f : α → Watched β} {known known' : Resolved}
  {before during : List Moment} {a : α}

/-- Writes down a moment. -/
def note (moment : Moment) : Watched Unit := modifyThe (List Moment) (· ++ [moment])

/-- What a computation makes of a table, and the moments after those before it. -/
def after (x : Watched α) (known : Resolved) (before : List Moment) :
    Option (Except ReferenceError (α × Resolved) × List Moment) :=
  (x.run known).run.run before

theorem after_bind_of_ok (h : x.after known before = some (.ok (a, known'), during)) :
    (x >>= f).after known before = (f a).after known' during := by
  simp only [after] at h ⊢
  rw [StateT.run_bind, ExceptT.run_bind, StateT.run_bind, h]
  rfl

theorem after_bind_of_error {e : ReferenceError} (h : x.after known before = some (.error e, during)) :
    (x >>= f).after known before = some (.error e, during) := by
  simp only [after] at h ⊢
  rw [StateT.run_bind, ExceptT.run_bind, StateT.run_bind, h]
  rfl

theorem after_bind_of_none (h : x.after known before = none) :
    (x >>= f).after known before = none := by
  simp only [after] at h ⊢
  rw [StateT.run_bind, ExceptT.run_bind, StateT.run_bind, h]
  rfl

theorem after_note (moment : Moment) :
    (note moment).after known before = some (.ok ((), known), before ++ [moment]) := rfl

end Watched

namespace Lookup

open Watched

/-- Goes through a string while the places of `stack` are being resolved. -/
def watchText (stack : List String) (look : Placeholder → Watched Value) (text : String) :
    Watched Value := do
  note (.resolving stack text)
  resolveText look text

/-- Resolves a value whose place is on top of the stack, and remembers what it became. -/
def enter (stack : List String) (look : Placeholder → Watched Value) (here : String)
    (target : Value) : Watched Value := do
  note (.entering stack target)
  let v ← target.mapStrings (watchText stack look)
  modify fun known => Entries.insert known here v
  return v

/-- The value of a placeholder that is met while the places of `stack` are being resolved. -/
def watch (l : Lookup) : Nat → List String → Placeholder → Watched Value
  | limit, stack, p =>
    match l.aim p with
    | .error e => throw e
    | .ok (.value v) => return v
    | .ok (.place path target) => do
      let here := path.render
      match Entries.get? (← get) here with
      | some v => return v
      | none =>
        if here ∈ stack then throw (.cycle (stack ++ [here]))
        else
          match limit with
          | 0 => liftM (none : Option Value)
          | limit + 1 => enter (stack ++ [here]) (watch l limit (stack ++ [here])) here target

/-- Replaces one string, unless the pass was stopped before or is stopped by it. -/
def watchString (l : Lookup) (limit : Nat) (text : String) :
    StateT (Progress × List Moment) Option Value := fun (progress, moments) =>
  match progress.failure with
  | some _ => some (.string text, (progress, moments))
  | none =>
    ((watchText [] (l.watch limit []) text).after progress.known moments).map fun
      | (.ok (v, known), moments) => (v, (⟨known, none⟩, moments))
      | (.error e, moments) => (.string text, (⟨progress.known, some e⟩, moments))

/-- The watched pass over the whole snapshot, with all its moments; none where the limit is not enough. -/
def watchRun (l : Lookup) (limit : Nat) : Option (Resolution × List Moment) :=
  ((l.scope.mapStrings (l.watchString limit) l.snapshot).run (⟨[], none⟩, [])).map
    fun (document, (progress, moments)) => (⟨document, progress.failure⟩, moments)

variable {l : Lookup} {p : Placeholder} {path : Path} {target v : Value} {stack : List String}
  {known : Resolved} {before : List Moment} {n m : Nat}

/-! ### One lookup that is watched -/

theorem watch_of_error {e : ReferenceError} (h : l.aim p = .error e) :
    l.watch n stack p = throw e := by
  unfold watch
  simp only [h]

theorem watch_of_value (h : l.aim p = .ok (.value v)) : l.watch n stack p = pure v := by
  unfold watch
  simp only [h]

theorem after_watch_of_known (h : l.aim p = .ok (.place path target))
    (hknown : Entries.get? known path.render = some v) :
    (l.watch n stack p).after known before = some (.ok (v, known), before) := by
  unfold watch
  simp only [h, after, StateT.run_bind, StateT.run_get, pure_bind, hknown]
  rfl

theorem after_watch_of_mem (h : l.aim p = .ok (.place path target))
    (hknown : Entries.get? known path.render = none) (hmem : path.render ∈ stack) :
    (l.watch n stack p).after known before =
      some (.error (.cycle (stack ++ [path.render])), before) := by
  unfold watch
  simp only [h, after, hmem, if_true, StateT.run_bind, StateT.run_get, pure_bind, hknown]
  rfl

theorem after_watch_zero_of_not_mem (h : l.aim p = .ok (.place path target))
    (hknown : Entries.get? known path.render = none) (hmem : path.render ∉ stack) :
    (l.watch 0 stack p).after known before = none := by
  unfold watch
  simp only [h, after, hmem, if_false, StateT.run_bind, StateT.run_get, pure_bind, hknown]
  rfl

theorem after_watch_succ_of_not_mem (h : l.aim p = .ok (.place path target))
    (hknown : Entries.get? known path.render = none) (hmem : path.render ∉ stack) :
    (l.watch (n + 1) stack p).after known before =
      (enter (stack ++ [path.render]) (l.watch n (stack ++ [path.render])) path.render target).after
        known before := by
  unfold watch
  simp only [h, after, hmem, if_false, StateT.run_bind, StateT.run_get, pure_bind, hknown]

/-! ### The moments of a pass -/

/-- What is gone through at a moment: on no stack, a string in scope; else, the strings of the value that
stands at the place on top of the stack. -/
inductive Within (l : Lookup) : Moment → Prop
  | outermost {text : String} : text ∈ l.scope.strings l.snapshot → Within l (.resolving [] text)
  | entering {stack : List String} {path : Path} {target : Value} :
      l.snapshot.get? path = some target → Within l (.entering (stack ++ [path.render]) target)
  | resolving {stack : List String} {path : Path} {target : Value} {text : String} :
      l.snapshot.get? path = some target → text ∈ target.strings →
      Within l (.resolving (stack ++ [path.render]) text)

/-- The canonical texts of the paths that placeholders of the snapshot are written with. -/
def written (l : Lookup) : List String :=
  l.occurring.filterMap fun p => (Path.parse p.path).toOption.map Path.render

/-- What is said of each moment of a pass. -/
structure Proper (l : Lookup) (m : Moment) : Prop where
  /-- The places on the stack are all different. -/
  distinct : m.stack.Nodup
  /-- Each of them is written in a placeholder of the snapshot. -/
  written : m.stack ⊆ l.written
  /-- They are no more than there are different placeholders. -/
  bounded : m.stack.length ≤ l.occurring.dedup.length
  /-- What is gone through belongs to one value of the snapshot. -/
  within : l.Within m

theorem mem_written_of_aim (haim : l.aim p = .ok (.place path target)) (hp : p ∈ l.occurring) :
    path.render ∈ l.written := by
  obtain ⟨-, hparse, -⟩ := aim_eq_place_iff.1 haim
  exact List.mem_filterMap.2 ⟨p, hp, by rw [hparse]; rfl⟩

/-- Different texts of paths are no more than the different placeholders they are written in. -/
theorem length_le_of_subset_written (hnodup : stack.Nodup) (hsub : stack ⊆ l.written) :
    stack.length ≤ l.occurring.dedup.length := by
  have hdedup : stack ⊆ l.occurring.dedup.filterMap
      fun p => (Path.parse p.path).toOption.map Path.render := by
    intro c hc
    obtain ⟨p, hp, hpath⟩ := List.mem_filterMap.1 (hsub hc)
    exact List.mem_filterMap.2 ⟨p, List.mem_dedup.2 hp, hpath⟩
  exact Nat.le_trans (hnodup.length_le_of_subset hdedup) (List.length_filterMap_le _ _)

/-! ### Watching changes nothing -/

/-- Watched computations that come to an end, with moments of which all this is true, and do what
others do. -/
def watches (l : Lookup) : ExceptRelation ReferenceError Watched Resolving where
  Rel x y := ∀ known before, ∃ during, (∀ m ∈ during, l.Proper m) ∧
    x.after known before = some (y.run known, before ++ during)
  of_pure a known before := ⟨[], by simp, by rw [List.append_nil]; rfl⟩
  of_bind := by
    intro α β x y f g hxy hfg known before
    obtain ⟨during, hduring, hx⟩ := hxy known before
    cases hy : y.run known with
    | error e =>
      rw [hy] at hx
      refine ⟨during, hduring, ?_⟩
      rw [after_bind_of_error hx, StateT.run_bind, hy]
      rfl
    | ok r =>
      obtain ⟨a, known'⟩ := r
      rw [hy] at hx
      obtain ⟨later, hlater, hf⟩ := hfg a known' (before ++ during)
      refine ⟨during ++ later, fun m hm => ?_, ?_⟩
      · exact (List.mem_append.1 hm).elim (hduring m) (hlater m)
      · rw [after_bind_of_ok hx, hf, StateT.run_bind, hy, List.append_assoc]
        rfl
  of_throw e known before := ⟨[], by simp, by rw [List.append_nil]; rfl⟩

/-- A moment that is written down is one more moment. -/
theorem watches_note {α : Type} {x : Watched α} {y : Resolving α} {moment : Moment}
    (hm : l.Proper moment) (h : l.watches.Rel x y) : l.watches.Rel (note moment >>= fun _ => x) y := by
  intro known before
  obtain ⟨during, hduring, hx⟩ := h known (before ++ [moment])
  refine ⟨moment :: during, ?_, ?_⟩
  · simpa using ⟨hm, hduring⟩
  · rw [after_bind_of_ok (after_note moment), hx, List.append_assoc]
    rfl

theorem watches_watchText {look : Placeholder → Watched Value} {look' : Placeholder → Resolving Value}
    {text : String} (hmoment : l.Proper (.resolving stack text))
    (h : ∀ q ∈ placeholdersOf text, l.watches.Rel (look q) (look' q)) :
    l.watches.Rel (watchText stack look text) (resolveText look' text) :=
  watches_note hmoment (l.watches.of_resolveText h)

/-- A place is resolved and remembered as it is without being watched. -/
theorem after_enter {look : Placeholder → Watched Value} {y : Resolving Value} {here : String}
    (hmoment : l.Proper (.entering stack target))
    (h : l.watches.Rel (target.mapStrings (watchText stack look)) y) :
    ∃ during, (∀ moment ∈ during, l.Proper moment) ∧
      (enter stack look here target).after known before =
        some ((y.run known).map fun r => (r.1, Entries.insert r.2 here r.1), before ++ during) := by
  obtain ⟨during, hduring, hx⟩ := h known (before ++ [.entering stack target])
  refine ⟨.entering stack target :: during, by simpa using ⟨hmoment, hduring⟩, ?_⟩
  rw [List.append_assoc, List.singleton_append] at hx
  rw [enter, after_bind_of_ok (after_note _)]
  cases hy : y.run known with
  | error e =>
    rw [hy] at hx
    exact after_bind_of_error hx
  | ok r =>
    rw [hy] at hx
    rw [after_bind_of_ok hx]
    rfl

/-- A lookup that has not to resolve a new place. -/
theorem watches_of_new (hnew : ∀ path target known before, l.aim p = .ok (.place path target) →
      Entries.get? known path.render = none → path.render ∉ stack →
      ∃ during, (∀ moment ∈ during, l.Proper moment) ∧
        (l.watch n stack p).after known before =
          some ((l.value m stack p).run known, before ++ during)) :
    l.watches.Rel (l.watch n stack p) (l.value m stack p) := by
  rcases haim : l.aim p with e | ⟨v⟩ | ⟨path, target⟩
  · rw [watch_of_error haim, value_of_error haim]
    exact l.watches.of_throw e
  · rw [watch_of_value haim, value_of_value haim]
    exact l.watches.of_pure v
  · intro known before
    cases hget : Entries.get? known path.render with
    | some v =>
      rw [after_watch_of_known haim hget, value_of_known haim hget]
      exact ⟨[], by simp, by rw [List.append_nil]⟩
    | none =>
      by_cases hmem : path.render ∈ stack
      · rw [after_watch_of_mem haim hget hmem, value_of_mem haim hget hmem]
        exact ⟨[], by simp, by rw [List.append_nil]⟩
      · exact hnew path target known before haim hget hmem

/-- **Each lookup comes to an end.** On a proper stack, with as many lookups left as there are placeholders
that are not on it, a watched lookup does what the lookup of a pass does. -/
theorem watches_watch (hnodup : stack.Nodup) (hsub : stack ⊆ l.written) (hp : p ∈ l.occurring)
    (hn : l.occurring.dedup.length ≤ n + stack.length)
    (hm : l.occurring.dedup.length ≤ m + stack.length) :
    l.watches.Rel (l.watch n stack p) (l.value m stack p) := by
  induction n generalizing stack p m with
  | zero =>
    refine watches_of_new fun path target known before haim _ hmem => ?_
    have hlength := length_le_of_subset_written (nodup_append_singleton hnodup hmem)
      (append_singleton_subset hsub (mem_written_of_aim haim hp))
    rw [List.length_append, List.length_singleton] at hlength
    omega
  | succ n ih =>
    refine watches_of_new fun path target known before haim hget hmem => ?_
    have hnodup' := nodup_append_singleton hnodup hmem
    have hsub' := append_singleton_subset hsub (mem_written_of_aim haim hp)
    have hlength := length_le_of_subset_written hnodup' hsub'
    obtain ⟨-, -, htarget, -⟩ := aim_eq_place_iff.1 haim
    obtain ⟨m, rfl⟩ : ∃ k, m = k + 1 := by
      refine ⟨m - 1, ?_⟩
      rw [List.length_append, List.length_singleton] at hlength
      omega
    have hrel : l.watches.Rel
        (target.mapStrings (watchText (stack ++ [path.render]) (l.watch n (stack ++ [path.render]))))
        (target.mapStrings (resolveText (l.value m (stack ++ [path.render])))) := by
      refine l.watches.of_mapStrings target fun text ht => ?_
      refine watches_watchText ⟨hnodup', hsub', hlength, .resolving htarget ht⟩ fun q hq => ?_
      refine ih hnodup' hsub' (mem_occurring_of_aim haim ht hq) ?_ ?_ <;>
        rw [List.length_append, List.length_singleton] <;> omega
    rw [after_watch_succ_of_not_mem haim hget hmem, value_succ_of_not_mem haim hget hmem]
    exact after_enter ⟨hnodup', hsub', hlength, .entering htarget⟩ hrel

/-- Watched passes that come to an end, with moments of which all this is true, and do what passes do. -/
def passesWatch (l : Lookup) :
    MonadRelation (StateT (Progress × List Moment) Option) (StateM Progress) where
  Rel x y := ∀ progress before, ∃ during, (∀ m ∈ during, l.Proper m) ∧
    x.run (progress, before) = some ((y.run progress).1, ((y.run progress).2, before ++ during))
  of_pure a progress before := ⟨[], by simp, by rw [List.append_nil]; rfl⟩
  of_bind := by
    intro α β x y f g hxy hfg progress before
    obtain ⟨during, hduring, hx⟩ := hxy progress before
    obtain ⟨later, hlater, hf⟩ := hfg (y.run progress).1 (y.run progress).2 (before ++ during)
    refine ⟨during ++ later, fun m hm => ?_, ?_⟩
    · exact (List.mem_append.1 hm).elim (hduring m) (hlater m)
    · rw [StateT.run_bind, hx, ← List.append_assoc]
      exact hf

theorem passesWatch_watchString {text : String} (ht : text ∈ l.scope.strings l.snapshot)
    (hn : l.occurring.dedup.length ≤ n) :
    l.passesWatch.Rel (l.watchString n text) (l.replaceString text) := by
  rintro ⟨known, failure⟩ before
  cases failure with
  | some e => exact ⟨[], by simp, by rw [List.append_nil]; rfl⟩
  | none =>
    have hmoment : l.Proper (.resolving [] text) :=
      ⟨List.nodup_nil, List.nil_subset _, Nat.zero_le _, .outermost ht⟩
    have hdepth : l.occurring.dedup.length ≤ l.depth := (List.dedup_sublist _).length_le
    have hrel : l.watches.Rel (watchText [] (l.watch n []) text) (l.string text) := by
      refine watches_watchText hmoment fun p hp => ?_
      refine watches_watch List.nodup_nil (List.nil_subset _) ?_ hn hdepth
      exact List.mem_flatMap.2 ⟨text, l.scope.strings_subset l.snapshot ht, hp⟩
    obtain ⟨during, hduring, hx⟩ := hrel known before
    refine ⟨during, hduring, ?_⟩
    simp only [StateT.run] at hx ⊢
    rw [watchString, hx, replaceString]
    cases l.string text known <;> rfl

/-! ### The limit -/

/-- Watched computations that are the same where the first one comes to an end. -/
def watchedAgree : ExceptRelation ReferenceError Watched Watched where
  Rel x y := ∀ known before r, x.after known before = some r → y.after known before = some r
  of_pure _ _ _ _ h := h
  of_bind := by
    intro α β x y f g hxy hfg known before r h
    cases hx : x.after known before with
    | none =>
      rw [after_bind_of_none hx] at h
      cases h
    | some result =>
      match result, hx with
      | (.error e, during), hx =>
        rw [after_bind_of_error hx] at h
        rw [after_bind_of_error (hxy _ _ _ hx)]
        exact h
      | (.ok (a, known'), during), hx =>
        rw [after_bind_of_ok hx] at h
        rw [after_bind_of_ok (hxy _ _ _ hx)]
        exact hfg a _ _ _ h
  of_throw _ _ _ _ h := h

theorem watchedAgree_watchText {look look' : Placeholder → Watched Value} {text : String}
    (h : ∀ q, watchedAgree.Rel (look q) (look' q)) :
    watchedAgree.Rel (watchText stack look text) (watchText stack look' text) :=
  watchedAgree.of_bind (fun _ _ _ h => h) fun _ => watchedAgree.of_resolveText fun q _ => h q

/-- Lookups within two limits agree when they do where a place is put on the stack. -/
theorem agree_of_new (hnew : ∀ path target known before r, l.aim p = .ok (.place path target) →
      Entries.get? known path.render = none → path.render ∉ stack →
      (l.watch n stack p).after known before = some r →
      (l.watch m stack p).after known before = some r) :
    watchedAgree.Rel (l.watch n stack p) (l.watch m stack p) := by
  rcases haim : l.aim p with e | ⟨v⟩ | ⟨path, target⟩
  · rw [watch_of_error haim, watch_of_error haim]
    exact watchedAgree.of_throw e
  · rw [watch_of_value haim, watch_of_value haim]
    exact watchedAgree.of_pure v
  · intro known before r h
    cases hget : Entries.get? known path.render with
    | some v =>
      rw [after_watch_of_known haim hget] at h ⊢
      exact h
    | none =>
      by_cases hmem : path.render ∈ stack
      · rw [after_watch_of_mem haim hget hmem] at h ⊢
        exact h
      · exact hnew path target known before r haim hget hmem h

/-- A higher limit changes nothing where the limit was enough. -/
theorem watch_agree_of_le (hnm : n ≤ m) :
    watchedAgree.Rel (l.watch n stack p) (l.watch m stack p) := by
  induction n generalizing m stack p with
  | zero =>
    refine agree_of_new fun path target known before r haim hget hmem h => ?_
    rw [after_watch_zero_of_not_mem haim hget hmem] at h
    cases h
  | succ n ih =>
    obtain ⟨m, rfl⟩ : ∃ k, m = k + 1 := ⟨m - 1, by omega⟩
    refine agree_of_new fun path target known before r haim hget hmem h => ?_
    rw [after_watch_succ_of_not_mem haim hget hmem] at h ⊢
    have hrel : watchedAgree.Rel
        (enter (stack ++ [path.render]) (l.watch n (stack ++ [path.render])) path.render target)
        (enter (stack ++ [path.render]) (l.watch m (stack ++ [path.render])) path.render target) := by
      refine watchedAgree.of_bind (fun _ _ _ h => h) fun _ => ?_
      refine watchedAgree.of_bind ?_ fun _ _ _ _ h => h
      refine watchedAgree.of_mapStrings target fun text _ => ?_
      exact watchedAgree_watchText fun q => ih (by omega)
    exact hrel known before r h

theorem passesAgree_watchString (hnm : n ≤ m) (text : String) :
    passesAgree.Rel (l.watchString n text) (l.watchString m text) := by
  rintro ⟨⟨known, failure⟩, before⟩ r h
  cases failure with
  | some e => exact h
  | none =>
    have hagree : watchedAgree.Rel (watchText [] (l.watch n []) text)
        (watchText [] (l.watch m []) text) :=
      watchedAgree_watchText fun _ => watch_agree_of_le hnm
    obtain ⟨result, hresult, rfl⟩ := Option.map_eq_some_iff.1 h
    exact Option.map_eq_some_iff.2 ⟨result, hagree known before result hresult, rfl⟩

theorem watchRun_eq_some_of_le {r : Resolution × List Moment} (hnm : n ≤ m)
    (h : l.watchRun n = some r) : l.watchRun m = some r := by
  obtain ⟨s, hs, rfl⟩ := Option.map_eq_some_iff.1 h
  have hrel := passesAgree.of_scopeMapStrings l.scope l.snapshot fun text _ =>
    passesAgree_watchString (l := l) hnm text
  exact Option.map_eq_some_iff.2 ⟨s, hrel _ s hs, rfl⟩

/-- **Resolving comes to an end.** Whatever the document, the options, the environment and the scope, a
pass goes through finitely many moments, and as many nested lookups as the snapshot has different
placeholders are enough for it. At each moment the stack holds different canonical paths, each of them
written in a placeholder of the snapshot, and what is gone through belongs to the one value that stands
at the path on top. -/
theorem run_terminates (l : Lookup) :
    ∃ moments : List Moment, (∀ m ∈ moments, l.Proper m) ∧
      ∀ extra, l.watchRun (l.occurring.dedup.length + extra) = some (l.run, moments) := by
  have hrel := l.passesWatch.of_scopeMapStrings l.scope l.snapshot fun text ht =>
    passesWatch_watchString ht (Nat.le_refl _)
  obtain ⟨moments, hmoments, hrun⟩ := hrel ⟨[], none⟩ []
  refine ⟨moments, hmoments, fun extra => watchRun_eq_some_of_le (Nat.le_add_right _ extra) ?_⟩
  rw [watchRun, hrun]
  rfl

/-- A string on no stack, then the place it leads to and the two strings that stand there. -/
example : ((watchRun ⟨{}, [], [("a", .string "$\x7bb\x7d"), ("b", .sequence [.string "x", .string "y"])],
    .only "a"⟩ 1).map fun r => r.2.map Moment.stack) = some [[], ["b"], ["b"], ["b"]] := by
  decide +kernel

end Lookup

end ConfigTree
