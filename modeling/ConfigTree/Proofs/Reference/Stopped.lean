import ConfigTree.Proofs.Document.Overwritten
import ConfigTree.Proofs.Reference.Table

/-!
# What a failing pass leaves

A pass rewrites a document in place, string by string, and resolves copies of other values on the side. When
it fails it has rewritten a part. Which part is it, and does what was done before decide where the pass fails
or how?

A failing pass stops at the first bad string (`pass_eq_failure_iff`). The strings in scope before it have
become what they become when each is resolved by itself, it and all that follows are as they were, and the
error is the one that it gives when it is resolved by itself. So of what the pass did on the side nothing is
seen.
-/

namespace ConfigTree

open Value

/-! ### A traversal that stops -/

/-- The second value is the first one in which the strings before a string `s` are replaced, each by a value
related to it, and this string and all that follows are as they were. -/
inductive Value.StoppedAt (R : String → Value → Prop) (s : String) : Value → Value → Prop
  /-- The string itself. -/
  | string : StoppedAt R s (.string s) (.string s)
  /-- The items before the one that holds the string are replaced, and those after it are not. -/
  | sequence {before before' after : List Value} {v w : Value} :
      ReplacedItems R before before' → StoppedAt R s v w →
      StoppedAt R s (.sequence (before ++ v :: after)) (.sequence (before' ++ w :: after))
  /-- The entries before the one that holds the string are replaced, and those after it are not. -/
  | mapping {before before' after : List (String × Value)} {key : String} {v w : Value} :
      ReplacedEntries R before before' → StoppedAt R s v w →
      StoppedAt R s (.mapping (before ++ (key, v) :: after)) (.mapping (before' ++ (key, w) :: after))

/-- The second document is the first one in which the strings in scope before a string `s` in scope are
replaced, and this string and all that follows are as they were. -/
inductive StoppedIn (scope : Scope) (R : String → Value → Prop) (s : String) :
    Document → Document → Prop
  /-- The entries in scope before the one that holds the string are replaced. -/
  | entry {before before' after : Document} {key : String} {v w : Value} :
      ReplacedIn scope R before before' → scope.contains key = true → Value.StoppedAt R s v w →
      StoppedIn scope R s (before ++ (key, v) :: after) (before' ++ (key, w) :: after)

/-- The string is one of the strings of the value. -/
theorem Value.StoppedAt.mem_strings {R : String → Value → Prop} {s : String} {v w : Value}
    (h : StoppedAt R s v w) : s ∈ v.strings := by
  induction h with
  | string => exact List.mem_singleton_self s
  | sequence _ _ ih =>
    rw [strings, stringsOfItems_eq_flatMap]
    exact List.mem_flatMap.2 ⟨_, by simp, ih⟩
  | mapping _ _ ih =>
    rw [strings, stringsOfEntries_eq_flatMap]
    exact List.mem_flatMap.2 ⟨(_, _), List.mem_append_right _ List.mem_cons_self, ih⟩

/-- The string is one of the strings in scope. -/
theorem StoppedIn.mem_strings {scope : Scope} {R : String → Value → Prop} {s : String} {d d' : Document}
    (h : StoppedIn scope R s d d') : s ∈ scope.strings d := by
  cases h with
  | entry _ hkey hstop =>
    exact Scope.strings_subset_of_mem (List.mem_append_right _ List.mem_cons_self) hkey hstop.mem_strings

theorem Scope.mapStrings_eq_mapM {m : Type → Type} [Monad m] [LawfulMonad m] (scope : Scope)
    (f : String → m Value) (d : Document) :
    scope.mapStrings f d = d.mapM fun e =>
      (e.1, ·) <$> if scope.contains e.1 then e.2.mapStrings f else pure e.2 := by
  induction d with
  | nil => rw [mapStrings, List.mapM_nil]
  | cons e d ih => simp only [mapStrings, List.mapM_cons, ih, bind_map_left, bind_pure_comp]

theorem run_map_eq_some_iff {σ α β : Type} {x : StateT σ Option α} {h : α → β} {t t' : σ} {b : β} :
    (h <$> x).run t = some (b, t') ↔ ∃ a, x.run t = some (a, t') ∧ h a = b := by
  rw [StateT.run_map]
  constructor
  · intro hrun
    obtain ⟨⟨a, t''⟩, ha, hr⟩ := Option.map_eq_some_iff.1 hrun
    cases hr
    exact ⟨a, ha, rfl⟩
  · rintro ⟨a, ha, rfl⟩
    exact Option.map_eq_some_iff.2 ⟨(a, t'), ha, rfl⟩

section Stopping

variable {α ε : Type} {g : α → StateT (Option ε) Option α} {xs ys : List α} {e : ε}

/-- Steps that leave everything as it is once they are stopped. -/
def StaysStopped (g : α → StateT (Option ε) Option α) : Prop :=
  ∀ x e, (g x).run (some e) = some (x, some e)

theorem StaysStopped.mapM (hg : StaysStopped g) : (xs.mapM g).run (some e) = some (xs, some e) := by
  induction xs with
  | nil => rfl
  | cons x xs ih => simp [List.mapM_cons, hg x e, ih]

/-- A traversal is stopped at the first step that stops it: those before it are done, and what follows is
as it was. -/
theorem StaysStopped.mapM_eq_iff (hg : StaysStopped g) :
    (xs.mapM g).run none = some (ys, some e) ↔
      ∃ before x after before' y, xs = before ++ x :: after ∧ ys = before' ++ y :: after ∧
        (before.mapM g).run none = some (before', none) ∧ (g x).run none = some (y, some e) := by
  constructor
  · intro h
    induction xs generalizing ys with
    | nil => cases h
    | cons x xs ih =>
      rw [List.mapM_cons, StateT.run_bind] at h
      obtain ⟨⟨y, failure⟩, hx, h⟩ := Option.bind_eq_some_iff.1 h
      rw [StateT.run_bind] at h
      obtain ⟨⟨zs, failure'⟩, hxs, h⟩ := Option.bind_eq_some_iff.1 h
      cases h
      cases failure with
      | some e' =>
        rw [hg.mapM] at hxs
        cases hxs
        exact ⟨[], x, xs, [], y, rfl, rfl, rfl, hx⟩
      | none =>
        obtain ⟨before, z, after, before', z', rfl, rfl, hbefore, hz⟩ := ih hxs
        refine ⟨x :: before, z, after, y :: before', z', rfl, rfl, ?_, hz⟩
        simp [List.mapM_cons, hx, hbefore]
  · rintro ⟨before, x, after, before', y, rfl, rfl, hbefore, hx⟩
    simp [List.mapM_append, List.mapM_cons, hbefore, hx, hg.mapM]

/-- Visiting the value of an entry. -/
theorem StaysStopped.entry {κ : Type} {visit : κ × α → StateT (Option ε) Option α}
    (h : ∀ x e, (visit x).run (some e) = some (x.2, some e)) :
    StaysStopped fun x => (x.1, ·) <$> visit x :=
  fun x e => run_map_eq_some_iff.2 ⟨x.2, h x e, rfl⟩

end Stopping

/-! ### Passes over values and documents -/

namespace Lookup

variable {f : String → Attempt Value} {s : String} {v w : Value} {d d' : Document} {e : ReferenceError}

/-- Passes that do nothing once they are stopped. -/
def passesStayStopped (e : ReferenceError) :
    MonadRelation (StateT (Option ReferenceError) Option) Id where
  Rel x y := x.run (some e) = some (y, some e)
  of_pure _ := rfl
  of_bind := by
    intro α β x y f g hxy hfg
    rw [StateT.run_bind, hxy]
    exact hfg y

theorem staysStopped_mapStrings : StaysStopped (mapStrings (attempt f)) := by
  intro v e
  have hstay := (passesStayStopped e).of_mapStrings (f := attempt f) (g := fun s => pure (.string s)) v
    fun _ _ => rfl
  rw [mapStrings_pure] at hstay
  exact hstay

theorem attempt_eq_failure_iff :
    (attempt f s).run none = some (w, some e) ↔ f s = throw e ∧ w = .string s := by
  constructor
  · intro h
    obtain ⟨result, hresult, h⟩ := Option.map_eq_some_iff.1 h
    cases result with
    | ok u => cases h
    | error e' =>
      cases h
      exact ⟨hresult, rfl⟩
  · rintro ⟨h, rfl⟩
    exact Option.map_eq_some_iff.2 ⟨.error e, h, rfl⟩

theorem items_eq_ok_iff {vs ws : List Value} :
    (vs.mapM (mapStrings (attempt f))).run none = some (ws, none) ↔
      ReplacedItems (fun t u => f t = pure u) vs ws := by
  rw [← mapStringsOfItems_eq_mapM,
    (passesSucceed.of_mapStringsOfItems vs fun t _ => passesSucceed_attempt f t).1 ws]
  exact ⟨replacedItems_of_mapStrings vs ws, mapStrings_of_replacedItems⟩

theorem entries_eq_ok_iff {es fs : List (String × Value)} :
    (es.mapM fun e => (e.1, ·) <$> mapStrings (attempt f) e.2).run none = some (fs, none) ↔
      ReplacedEntries (fun t u => f t = pure u) es fs := by
  rw [← mapStringsOfEntries_eq_mapM,
    (passesSucceed.of_mapStringsOfEntries es fun t _ => passesSucceed_attempt f t).1 fs]
  exact ⟨replacedEntries_of_mapStrings es fs, mapStrings_of_replacedEntries⟩

/-- Nothing stops a pass over a value without strings. -/
theorem mapStrings_eq_failure_iff_of_strings_eq_nil (h : v.strings = []) :
    (v.mapStrings (attempt f)).run none = some (w, some e) ↔
      ∃ s, f s = throw e ∧ StoppedAt (fun t u => f t = pure u) s v w := by
  rw [mapStrings_eq_pure fun s hs => by simp [h] at hs]
  constructor
  · rintro ⟨⟩
  · rintro ⟨s, -, hstop⟩
    simpa [h] using hstop.mem_strings

/-- A pass over a value is stopped at the first string at which the attempt fails. -/
theorem mapStrings_eq_failure_iff :
    (v.mapStrings (attempt f)).run none = some (w, some e) ↔
      ∃ s, f s = throw e ∧ StoppedAt (fun t u => f t = pure u) s v w := by
  induction v using Value.induction generalizing w with
  | leaf v hv =>
    cases v with
    | string t =>
      rw [mapStrings, attempt_eq_failure_iff]
      constructor
      · rintro ⟨ht, rfl⟩
        exact ⟨t, ht, .string⟩
      · rintro ⟨s, hs, ⟨⟩⟩
        exact ⟨hs, rfl⟩
    | _ =>
      exact mapStrings_eq_failure_iff_of_strings_eq_nil
        (by simp_all [IsLeaf, strings, stringsOfItems, stringsOfEntries])
  | sequence items _ ih =>
    rw [mapStrings, mapStringsOfItems_eq_mapM, bind_pure_comp, run_map_eq_some_iff]
    simp only [staysStopped_mapStrings.mapM_eq_iff, items_eq_ok_iff]
    constructor
    · rintro ⟨_, ⟨before, v, after, before', w, rfl, rfl, hbefore, hv⟩, rfl⟩
      obtain ⟨s, hs, hstop⟩ := (ih v (by simp)).1 hv
      exact ⟨s, hs, .sequence hbefore hstop⟩
    · rintro ⟨s, hs, hstop⟩
      cases hstop with
      | sequence hbefore hstop =>
        exact ⟨_, ⟨_, _, _, _, _, rfl, rfl, hbefore, (ih _ (by simp)).2 ⟨s, hs, hstop⟩⟩, rfl⟩
  | mapping entries _ ih =>
    have hstays : StaysStopped fun x : String × Value => (x.1, ·) <$> mapStrings (attempt f) x.2 :=
      .entry fun x => staysStopped_mapStrings x.2
    rw [mapStrings, mapStringsOfEntries_eq_mapM, bind_pure_comp, run_map_eq_some_iff]
    simp only [hstays.mapM_eq_iff, entries_eq_ok_iff, run_map_eq_some_iff]
    constructor
    · rintro ⟨_, ⟨before, x, after, before', _, rfl, rfl, hbefore, w, hv, rfl⟩, rfl⟩
      obtain ⟨s, hs, hstop⟩ := (ih x (by simp)).1 hv
      exact ⟨s, hs, .mapping hbefore hstop⟩
    · rintro ⟨s, hs, hstop⟩
      cases hstop with
      | mapping hbefore hstop =>
        exact ⟨_, ⟨_, _, _, _, _, rfl, rfl, hbefore, _, (ih (_, _) (by simp)).2 ⟨s, hs, hstop⟩, rfl⟩, rfl⟩

theorem scopeMapStrings_eq_ok_iff {scope : Scope} :
    (scope.mapStrings (attempt f) d).run none = some (d', none) ↔
      ReplacedIn scope (fun t u => f t = pure u) d d' := by
  rw [← scopeMapStrings_eq_pure_iff_replacedIn]
  exact (passesSucceed.of_scopeMapStrings scope d fun t _ => passesSucceed_attempt f t).1 d'

/-- A pass over a document is stopped at the first string in scope at which the attempt fails. -/
theorem scopeMapStrings_eq_failure_iff {scope : Scope} :
    (scope.mapStrings (attempt f) d).run none = some (d', some e) ↔
      ∃ s, f s = throw e ∧ StoppedIn scope (fun t u => f t = pure u) s d d' := by
  have hstays : StaysStopped fun x : String × Value =>
      (x.1, ·) <$> if scope.contains x.1 then mapStrings (attempt f) x.2 else pure x.2 := by
    refine .entry fun x e => ?_
    split
    · exact staysStopped_mapStrings x.2 e
    · rfl
  rw [scope.mapStrings_eq_mapM, hstays.mapM_eq_iff]
  simp only [← scope.mapStrings_eq_mapM, scopeMapStrings_eq_ok_iff, run_map_eq_some_iff]
  constructor
  · rintro ⟨before, ⟨key, v⟩, after, before', _, rfl, rfl, hbefore, w, hv, rfl⟩
    cases hkey : scope.contains key with
    | false =>
      rw [hkey] at hv
      cases hv
    | true =>
      rw [hkey] at hv
      obtain ⟨s, hs, hstop⟩ := mapStrings_eq_failure_iff.1 hv
      exact ⟨s, hs, .entry hbefore hkey hstop⟩
  · rintro ⟨s, hs, hstop⟩
    cases hstop with
    | @entry before before' after key v w hbefore hkey hstop =>
      refine ⟨before, (key, v), after, before', (key, w), rfl, rfl, hbefore, w, ?_, rfl⟩
      rw [if_pos hkey]
      exact mapStrings_eq_failure_iff.2 ⟨s, hs, hstop⟩

/-! ### Strings by themselves -/

variable {l : Lookup} {text : String}

/-- What a string becomes when it is resolved by itself, with nothing resolved before. -/
def alone (l : Lookup) (text : String) : Except ReferenceError Value := (l.string text).run' []

/-- In the place of a string stands what it becomes when it is resolved by itself. In the place of one
without placeholders stands the string. -/
structure BecomesAlone (l : Lookup) (text : String) (v : Value) : Prop where
  /-- The string has a value by itself. -/
  value : l.alone text = .ok v
  /-- A string without placeholders stays. -/
  same : Template.containsPlaceholder text = false → v = .string text

theorem alone_of_no_placeholder (h : Template.containsPlaceholder text = false) :
    l.alone text = .ok (.string text) := by
  rw [alone, string, resolveText, h]
  rfl

theorem becomesAlone_iff : l.BecomesAlone text v ↔ l.alone text = .ok v := by
  refine ⟨BecomesAlone.value, fun h => ⟨h, fun hclean => ?_⟩⟩
  rw [alone_of_no_placeholder hclean] at h
  exact (Except.ok.inj h).symm

theorem containsPlaceholder_of_alone (h : l.alone text = .error e) :
    Template.containsPlaceholder text = true := by
  by_contra hclean
  rw [alone_of_no_placeholder (Bool.not_eq_true _ ▸ hclean)] at h
  cases h

/-- A string in scope becomes by itself what the plain resolver makes of it. -/
theorem resolveText_plain_eq_alone (ht : text ∈ l.scope.strings l.snapshot) :
    resolveText (l.plain l.depth []) text = ExceptT.mk (some (l.alone text)) := by
  obtain ⟨r, hr⟩ := Option.ne_none_iff_exists'.1 (resolveText_plain_ne_none ht)
  obtain ⟨known, -, hrun⟩ := remembers_string text [] r sound_nil hr
  have halone : l.alone text = r := by
    rw [alone, StateT.run']
    change (·.1) <$> (l.string text).run [] = r
    rw [hrun]
    cases r <;> rfl
  rw [halone]
  exact hr

/-- **What was resolved before changes nothing.** A pass does what it does when each string in scope is
resolved by itself. -/
theorem run_eq_iff_alone {r : Resolution} :
    l.run = r ↔ (l.scope.mapStrings (attempt fun t => ExceptT.mk (some (l.alone t))) l.snapshot).run none =
      some (r.document, r.failure) := by
  have hsame : l.scope.mapStrings (l.plainString l.depth) l.snapshot =
      l.scope.mapStrings (attempt fun t => ExceptT.mk (some (l.alone t))) l.snapshot :=
    (MonadRelation.eq _).of_scopeMapStrings l.scope l.snapshot fun t ht => by
      rw [plainString_eq_attempt]
      exact funext fun failure => by simp only [attempt, resolveText_plain_eq_alone ht]
  obtain ⟨s, hs, hrun⟩ := Option.map_eq_some_iff.1 (plainRun_depth (l := l))
  rw [← hsame, hs, ← hrun, Option.some.injEq]
  constructor
  · rintro rfl
    rfl
  · rintro rfl
    rfl

end Lookup

namespace Resolver

/-- **A failing pass stops at the first bad string.** There is a string in scope that holds the beginning of
a placeholder and gives the error when it is resolved by itself. Each string in scope before it has become
what it becomes by itself. This string is as it was, and so is all that follows, all that is out of scope, and
all that is no string. And wherever a document has such a string, the pass leaves just this. -/
theorem pass_eq_failure_iff (options : ResolverOptions) (env : Environment) (scope : Scope)
    (d d' : Document) (e : ReferenceError) :
    pass options env scope d = ⟨d', some e⟩ ↔
      ∃ s, Template.containsPlaceholder s = true ∧
        Lookup.alone ⟨options, env, d, scope⟩ s = .error e ∧
        StoppedIn scope (Lookup.BecomesAlone ⟨options, env, d, scope⟩) s d d' := by
  set l : Lookup := ⟨options, env, d, scope⟩
  have hbecomes : (fun t u => (ExceptT.mk (some (l.alone t)) : Attempt Value) = pure u) =
      l.BecomesAlone := by
    funext t u
    rw [Lookup.becomesAlone_iff]
    exact propext ⟨fun h => Option.some.inj h, fun h => congrArg some h⟩
  rw [pass, Lookup.run_eq_iff_alone, Lookup.scopeMapStrings_eq_failure_iff, hbecomes]
  constructor
  · rintro ⟨s, hs, hstop⟩
    have halone : l.alone s = .error e := Option.some.inj hs
    exact ⟨s, Lookup.containsPlaceholder_of_alone halone, halone, hstop⟩
  · rintro ⟨s, -, hs, hstop⟩
    exact ⟨s, congrArg some hs, hstop⟩

/-- The string in the middle of the list is the first bad one in scope. -/
example : pass {} [] (.except "kept")
    [("kept", .string "${none}"), ("a", .string "${b}"),
      ("list", .sequence [.string "${b}", .string "${none}", .string "${b}"]), ("b", .bool true)] =
    ⟨[("kept", .string "${none}"), ("a", .bool true),
      ("list", .sequence [.bool true, .string "${none}", .string "${b}"]), ("b", .bool true)],
      some (.notFound "${none}")⟩ := by
  decide +kernel

end Resolver

end ConfigTree
