import ConfigTree.Proofs.Descent
import ConfigTree.Proofs.Reference.Aim
import ConfigTree.Proofs.Reference.Success

/-!
# The plain resolver

A pass remembers what it has resolved. The plain resolver remembers nothing: it resolves a place each
time a placeholder leads to it, and keeps only the stack of places it is resolving, to find cycles.
This is what placeholders mean; the table of a pass is there to save work.

The plain resolver is given a limit on how deep lookups are nested, and has no result where that is not
enough. It always has one where the limit is the number of placeholders of the document
(`plain_ne_none`), as the places on the stack are all different, and a higher limit changes nothing
(`plain_eq_some_of_le`).

## Dependence

One place depends on another when its value holds a placeholder that leads there. No place that can be
resolved depends on itself, however many steps are allowed, since resolving takes a smaller limit after
each step. So the stack, which holds places that lead to the present one, can turn a value into a cycle
error and do nothing else: a placeholder that has a value on one stack has it on every stack of places
that lead to it (`plain_eq_pure_of_stack`).
-/

namespace ConfigTree

open Relation

namespace Lookup

/-- The value of a placeholder that is met while the places of `stack` are being resolved. -/
def plain (l : Lookup) : Nat → List String → Placeholder → Attempt Value
  | limit, stack, p =>
    match l.aim p with
    | .error e => throw e
    | .ok (.value v) => pure v
    | .ok (.place path target) =>
      if path.render ∈ stack then throw (.cycle (stack ++ [path.render]))
      else
        match limit with
        | 0 => none
        | limit + 1 => target.mapStrings (resolveText (plain l limit (stack ++ [path.render])))

/-- Replaces one string, unless the pass was stopped before or is stopped by it. -/
def plainString (l : Lookup) (limit : Nat) (text : String) :
    StateT (Option ReferenceError) Option Value := fun failure =>
  match failure with
  | some e => some (.string text, some e)
  | none =>
    (resolveText (l.plain limit []) text).run.map fun
      | .ok v => (v, none)
      | .error e => (.string text, some e)

/-- The pass of the plain resolver over the whole snapshot; none where the limit is not enough. -/
def plainRun (l : Lookup) (limit : Nat) : Option Resolution :=
  ((l.scope.mapStrings (l.plainString limit) l.snapshot).run none).map fun r => ⟨r.1, r.2⟩

variable {l : Lookup} {p : Placeholder} {path : Path} {target v : Value} {c : String}
  {stack stack' : List String} {n m : Nat}

/-! ### One lookup -/

theorem plain_of_error {e : ReferenceError} (h : l.aim p = .error e) :
    l.plain n stack p = throw e := by
  unfold plain
  simp only [h]

theorem plain_of_value (h : l.aim p = .ok (.value v)) : l.plain n stack p = pure v := by
  unfold plain
  simp only [h]

/-- A place that is on the stack is a cycle. -/
theorem plain_of_mem (h : l.aim p = .ok (.place path target)) (hmem : path.render ∈ stack) :
    l.plain n stack p = throw (.cycle (stack ++ [path.render])) := by
  unfold plain
  simp only [h]
  exact if_pos hmem

theorem plain_zero_of_not_mem (h : l.aim p = .ok (.place path target))
    (hmem : path.render ∉ stack) : l.plain 0 stack p = none := by
  unfold plain
  simp only [h]
  exact if_neg hmem

/-- A place that is not on the stack is put on it, and its value is resolved. -/
theorem plain_succ_of_not_mem (h : l.aim p = .ok (.place path target))
    (hmem : path.render ∉ stack) :
    l.plain (n + 1) stack p =
      target.mapStrings (resolveText (l.plain n (stack ++ [path.render]))) := by
  unfold plain
  simp only [h]
  exact if_neg hmem

/-! ### Success -/

/-- On this stack and within this limit, a value resolves to another. -/
def Resolves (l : Lookup) (limit : Nat) (stack : List String) (target v : Value) : Prop :=
  Value.Replaced (Becomes fun p u => l.plain limit stack p = pure u) target v

/-- What it takes for a placeholder to have a value. -/
theorem plain_eq_pure_iff :
    l.plain n stack p = pure v ↔
      l.aim p = .ok (.value v) ∨ ∃ path target m, l.aim p = .ok (.place path target) ∧
        path.render ∉ stack ∧ n = m + 1 ∧ l.Resolves m (stack ++ [path.render]) target v := by
  rcases haim : l.aim p with e | ⟨u⟩ | ⟨path, target⟩
  · rw [plain_of_error haim]
    simp [Attempt.throw_ne_pure]
  · rw [plain_of_value haim, Attempt.pure_inj]
    simp
  · by_cases hmem : path.render ∈ stack
    · rw [plain_of_mem haim hmem]
      refine ⟨fun h => absurd h Attempt.throw_ne_pure, ?_⟩
      rintro (h | ⟨_, _, _, h, hmem', -⟩) <;> cases h
      exact absurd hmem hmem'
    · cases n with
      | zero =>
        rw [plain_zero_of_not_mem haim hmem]
        refine ⟨fun h => (nomatch h), ?_⟩
        rintro (h | ⟨_, _, _, _, _, h, -⟩) <;> cases h
      | succ m =>
        rw [plain_succ_of_not_mem haim hmem, mapStrings_eq_pure_iff]
        constructor
        · exact fun h => .inr ⟨path, target, m, rfl, hmem, rfl, h⟩
        · rintro (h | ⟨_, _, _, h, -, hm, hres⟩) <;> cases h
          cases hm
          exact hres

theorem plain_unique {v v' : Value} (h : l.plain n stack p = pure v)
    (h' : l.plain n stack p = pure v') : v = v' :=
  Attempt.pure_inj.1 (h.symm.trans h')

theorem Resolves.unique {v v' : Value} (h : l.Resolves n stack target v)
    (h' : l.Resolves n stack target v') : v = v' := by
  refine Value.Replaced.unique (fun text u u' hu hu' => ?_) h h'
  exact hu.unique hu' fun p w w' hw hw' => plain_unique hw hw'

/-- A value resolves on another stack, and within another limit, where its placeholders do. -/
theorem Resolves.imp (h : l.Resolves n stack target v)
    (hp : ∀ text ∈ target.strings, ∀ p ∈ placeholdersOf text, ∀ u, l.plain n stack p = pure u →
      l.plain m stack' p = pure u) : l.Resolves m stack' target v :=
  Value.Replaced.imp h fun text ht _ hu => hu.imp (hp text ht)

theorem Resolves.exists_of_mem (h : l.Resolves n stack target v) {text : String}
    (ht : text ∈ target.strings) (hp : p ∈ placeholdersOf text) : ∃ u, l.plain n stack p = pure u := by
  obtain ⟨u, hu, -⟩ := Value.Replaced.exists_of_mem h text ht
  exact hu.exists_of_mem hp

/-! ### The stack does not matter -/

/-- What stands at a place resolves within this limit, on some stack. -/
def Settles (l : Lookup) (n : Nat) (c : String) : Prop :=
  ∃ target stack v, l.StandsAt c target ∧ l.Resolves n stack target v

/-- What resolves depends on what resolves within a lower limit. -/
theorem settles_descend (n : Nat) (c c' : String) (h : l.Settles n c) (hc : l.DependsOn c c') :
    ∃ m < n, l.Settles m c' := by
  obtain ⟨target, stack, v, hat, hv⟩ := h
  obtain ⟨target', hat', text, ht, p, hp, path, next, haim, rfl⟩ := hc
  obtain rfl := hat.unique hat'
  obtain ⟨u, hu⟩ := hv.exists_of_mem ht hp
  rcases plain_eq_pure_iff.1 hu with h | ⟨path', next', m, h, -, rfl, hres⟩
  · cases haim.symm.trans h
  · cases haim.symm.trans h
    exact ⟨m, by omega, next, _, u, ⟨p, path, haim, rfl⟩, hres⟩

/-- No place that resolves depends on itself. -/
theorem not_dependsOn_self (h : l.Settles n c) : ¬ TransGen l.DependsOn c c :=
  not_transGen_self settles_descend h

/-- **The stack does not matter.** A placeholder that has a value has it on every stack of places that
lead to it. -/
theorem plain_eq_pure_of_stack (h : l.plain n stack p = pure v)
    (hstack : ∀ path target, l.aim p = .ok (.place path target) →
      ∀ c ∈ stack', TransGen l.DependsOn c path.render) :
    l.plain n stack' p = pure v := by
  induction n generalizing stack stack' p v with
  | zero =>
    rcases plain_eq_pure_iff.1 h with h | ⟨_, _, _, _, _, hn, _⟩
    · exact plain_eq_pure_iff.2 (.inl h)
    · cases hn
  | succ n ih =>
    rcases plain_eq_pure_iff.1 h with h | ⟨path, target, m, haim, -, hn, hres⟩
    · exact plain_eq_pure_iff.2 (.inl h)
    · obtain rfl : n = m := by omega
      have hlead := hstack path target haim
      have hmem : path.render ∉ stack' := fun hm =>
        not_dependsOn_self ⟨target, _, v, ⟨p, path, haim, rfl⟩, hres⟩ (hlead _ hm)
      refine plain_eq_pure_iff.2 (.inr ⟨path, target, n, haim, hmem, rfl, ?_⟩)
      refine hres.imp fun text ht q hq u hu => ih hu fun path' target' haim' => ?_
      exact transGen_of_mem_append hlead
        ⟨target, ⟨p, path, haim, rfl⟩, text, ht, q, hq, path', target', haim', rfl⟩

/-- What stands at a place resolves to the same value on every stack of places that lead to those it
depends on. -/
theorem Resolves.of_stack (h : l.Resolves n stack target v) (hat : l.StandsAt c target)
    (hstack : ∀ c', l.DependsOn c c' → ∀ a ∈ stack', TransGen l.DependsOn a c') :
    l.Resolves n stack' target v :=
  h.imp fun text ht q hq _ hu => plain_eq_pure_of_stack hu fun path target' haim =>
    hstack _ ⟨target, hat, text, ht, q, hq, path, target', haim, rfl⟩

/-! ### The limit -/

/-- Attempts that are the same where the first one comes to an end. -/
def sameIfEnds : ExceptRelation ReferenceError Attempt Attempt where
  Rel x y := ∀ r, x = some r → y = some r
  of_pure _ _ h := h
  of_bind := by
    intro α β x y f g hxy hfg r h
    match x, h with
    | some (.error e), h =>
      rw [hxy _ rfl]
      exact h
    | some (.ok a), h =>
      rw [hxy _ rfl]
      exact hfg a r h
  of_throw _ _ h := h

/-- Lookups within two limits are related when they are where a place is put on the stack. -/
theorem of_plain (R : ExceptRelation ReferenceError Attempt Attempt)
    (h : ∀ path target, l.aim p = .ok (.place path target) → path.render ∉ stack →
      R.Rel (l.plain n stack p) (l.plain m stack p)) :
    R.Rel (l.plain n stack p) (l.plain m stack p) := by
  rcases haim : l.aim p with e | ⟨v⟩ | ⟨path, target⟩
  · rw [plain_of_error haim, plain_of_error haim]
    exact R.of_throw e
  · rw [plain_of_value haim, plain_of_value haim]
    exact R.of_pure v
  · by_cases hmem : path.render ∈ stack
    · rw [plain_of_mem haim hmem, plain_of_mem haim hmem]
      exact R.of_throw _
    · exact h path target haim hmem

/-- A higher limit changes nothing where the limit was enough. -/
theorem plain_eq_some_of_le (hnm : n ≤ m) :
    sameIfEnds.Rel (l.plain n stack p) (l.plain m stack p) := by
  induction n generalizing m stack p with
  | zero =>
    refine of_plain sameIfEnds fun path target haim hmem r h => ?_
    rw [plain_zero_of_not_mem haim hmem] at h
    cases h
  | succ n ih =>
    obtain ⟨m, rfl⟩ : ∃ k, m = k + 1 := ⟨m - 1, by omega⟩
    refine of_plain sameIfEnds fun path target haim hmem => ?_
    rw [plain_succ_of_not_mem haim hmem, plain_succ_of_not_mem haim hmem]
    refine sameIfEnds.of_mapStrings target fun text _ => ?_
    exact sameIfEnds.of_resolveText fun q _ => ih (by omega)

/-- Attempts that come to an end. -/
def ends : ExceptRelation ReferenceError Attempt Attempt where
  Rel x _ := x ≠ none
  of_pure _ h := nomatch h
  of_bind := by
    intro α β x y f g hx hf h
    match x, h with
    | none, _ => exact hx rfl
    | some (.error e), h => cases h
    | some (.ok a), h => exact hf a h
  of_throw _ h := nomatch h

/-- The placeholders that occur in the snapshot. -/
def occurring (l : Lookup) : List Placeholder :=
  (Value.stringsOfEntries l.snapshot).flatMap placeholdersOf

/-- The canonical text of the place that a placeholder leads to. -/
def place? (l : Lookup) (p : Placeholder) : Option String :=
  match l.aim p with
  | .ok (.place path _) => some path.render
  | _ => none

theorem mem_occurring_of_aim {text : String} (haim : l.aim p = .ok (.place path target))
    (ht : text ∈ target.strings) {q : Placeholder} (hq : q ∈ placeholdersOf text) :
    q ∈ l.occurring := by
  obtain ⟨-, -, hget, -⟩ := aim_eq_place_iff.1 haim
  exact List.mem_flatMap.2 ⟨text, Value.strings_subset_of_documentGet? hget ht, hq⟩

theorem mem_places_of_aim (haim : l.aim p = .ok (.place path target)) (hp : p ∈ l.occurring) :
    path.render ∈ l.occurring.filterMap l.place? :=
  List.mem_filterMap.2 ⟨p, hp, by rw [place?, haim]⟩

/-- Different places to which placeholders of the snapshot lead are no more than these placeholders. -/
theorem length_le_depth (hnodup : stack.Nodup) (hsub : stack ⊆ l.occurring.filterMap l.place?) :
    stack.length ≤ l.depth :=
  Nat.le_trans (hnodup.length_le_of_subset hsub) (List.length_filterMap_le _ _)

/-- The number of placeholders is limit enough: the places on the stack are all different. -/
theorem plain_ne_none (hnodup : stack.Nodup) (hsub : stack ⊆ l.occurring.filterMap l.place?)
    (hp : p ∈ l.occurring) (hn : l.depth ≤ n + stack.length) :
    ends.Rel (l.plain n stack p) (l.plain n stack p) := by
  induction n generalizing stack p with
  | zero =>
    refine of_plain ends fun path target haim hmem => ?_
    have hlength := length_le_depth (nodup_append_singleton hnodup hmem)
      (append_singleton_subset hsub (mem_places_of_aim haim hp))
    rw [List.length_append, List.length_singleton] at hlength
    omega
  | succ n ih =>
    refine of_plain ends fun path target haim hmem => ?_
    rw [plain_succ_of_not_mem haim hmem]
    refine ends.of_mapStrings target fun text ht => ?_
    refine ends.of_resolveText fun q hq => ih (nodup_append_singleton hnodup hmem)
      (append_singleton_subset hsub (mem_places_of_aim haim hp))
      (mem_occurring_of_aim haim ht hq) ?_
    rw [List.length_append, List.length_singleton]
    omega

/-! ### Values -/

/-- The plain resolver makes this value of a placeholder, under some limit. -/
def HasValue (l : Lookup) (p : Placeholder) (v : Value) : Prop := ∃ n, l.plain n [] p = pure v

theorem HasValue.unique {v' : Value} (h : l.HasValue p v) (h' : l.HasValue p v') : v = v' := by
  obtain ⟨n, hn⟩ := h
  obtain ⟨m, hm⟩ := h'
  exact plain_unique (plain_eq_some_of_le (Nat.le_max_left n m) _ hn)
    (plain_eq_some_of_le (Nat.le_max_right n m) _ hm)

/-- A placeholder of the snapshot has its value already where the limit is their number. -/
theorem hasValue_iff_of_mem (hp : p ∈ l.occurring) :
    l.HasValue p v ↔ l.plain l.depth [] p = pure v := by
  refine ⟨fun h => ?_, fun h => ⟨_, h⟩⟩
  obtain ⟨n, hn⟩ := h
  obtain ⟨r, hr⟩ := Option.ne_none_iff_exists'.1
    (plain_ne_none (l := l) (n := l.depth) List.nodup_nil (by simp) hp (by simp))
  have hmax := plain_eq_some_of_le (Nat.le_max_left n l.depth) _ hn
  rw [plain_eq_some_of_le (Nat.le_max_right n l.depth) _ hr] at hmax
  exact hr.trans hmax

/-- What resolves on the stack of its place alone resolves to what is made of its strings. -/
theorem Resolves.replaced (h : l.Resolves n stack target v) (hat : l.StandsAt c target) :
    Value.Replaced (Becomes l.HasValue) target v := by
  have hempty : l.Resolves n [] target v := h.of_stack hat (by simp)
  exact Value.Replaced.imp hempty fun _ _ _ hu => hu.imp fun _ _ _ hw => ⟨n, hw⟩

/-- Where each string has become what the plain resolver makes of it, a value is settled. -/
theorem replaced_unique {v' : Value} (h : Value.Replaced (Becomes l.HasValue) target v)
    (h' : Value.Replaced (Becomes l.HasValue) target v') : v = v' := by
  refine Value.Replaced.unique (fun text u u' hu hu' => ?_) h h'
  exact hu.unique hu' fun p w w' hw hw' => hw.unique hw'

end Lookup

end ConfigTree
