import ConfigTree.Proofs.Reference.Clean

/-!
# Skipping an entry without placeholders

A pass around a final entry and a pass over the whole document treat the entry in different ways. The first
leaves it out, and what leads into it is put in at once. The second visits it, and what leads into it goes
on the stack, is resolved and is remembered. Can one tell from the outcome which of them it was?

One cannot if the entry holds no placeholders (`resolveExcept_eq_resolve`). A place in it depends on no
other, so it is never on the stack when a placeholder leads to it, and what stands there resolves to itself.
-/

namespace ConfigTree

open Relation

namespace Lookup

variable {options : ResolverOptions} {env : Environment} {d : Document} {key text : String}
  {p : Placeholder} {path : Path} {target v : Value} {stack : List String} {n : Nat}

/-- The lookups of a pass over the whole document. -/
def throughout (options : ResolverOptions) (env : Environment) (d : Document) : Lookup :=
  ⟨options, env, d, .all⟩

/-- The lookups of a pass around the entry of a key. -/
def besides (options : ResolverOptions) (env : Environment) (d : Document) (key : String) : Lookup :=
  ⟨options, env, d, .except key⟩

/-! ### Where placeholders point -/

/-- A placeholder that leads to no place has the same value, or fails in the same way, when an entry is
final. -/
theorem aim_besides_of_ne_place
    (h : ∀ path target, (throughout options env d).aim p ≠ .ok (.place path target)) :
    (besides options env d key).aim p = (throughout options env d).aim p := by
  cases hdomain : p.domain with
  | some name =>
    rw [aim_of_domain hdomain, aim_of_domain hdomain]
    rfl
  | none =>
    cases hparse : Path.parse p.path with
    | error fault => rw [aim_of_malformed hdomain hparse, aim_of_malformed hdomain hparse]
    | ok path =>
      cases hget : d.get? path with
      | none =>
        rw [aim_of_nowhere (l := besides options env d key) hdomain hparse hget,
          aim_of_nowhere (l := throughout options env d) hdomain hparse hget]
      | some target =>
        have haim := aim_of_place (l := throughout options env d) hdomain hparse hget rfl
        exact absurd haim (h path target)

/-- What a path leads to inside an entry without placeholders holds none. -/
theorem clean_of_isFinalized (hv : Entries.get? d key = some v) (hclean : v.Clean)
    (hpath : (Scope.except key).isFinalized path = true) (hget : d.get? path = some target) :
    target.Clean := by
  match path, hpath with
  | .key name :: rest, hpath =>
    obtain rfl : name = key := beq_iff_eq.1 hpath
    obtain ⟨u, hu, htarget⟩ := Option.bind_eq_some_iff.1 hget
    obtain rfl : v = u := Option.some.inj (hv.symm.trans hu)
    exact fun s hs => hclean s (Value.strings_subset_of_get? htarget hs)

/-- A place that holds no placeholders depends on no place. -/
theorem not_dependsOn_of_clean {l : Lookup} {c c' : String} (hat : l.StandsAt c target)
    (hclean : target.Clean) : ¬ l.DependsOn c c' := by
  rintro ⟨target', hat', s, hs, q, hq, -⟩
  obtain rfl := hat.unique hat'
  exact absurd (containsPlaceholder_of_mem hq) (by simp [hclean s hs])

theorem resolveText_of_clean {look : Placeholder → Attempt Value}
    (h : Template.containsPlaceholder text = false) : resolveText look text = pure (.string text) := by
  rw [resolveText, h]
  rfl

/-! ### Lookups -/

/-- A placeholder that leads into the entry gets what is there, on every stack of places that lead to it. -/
theorem plain_of_isFinalized (hv : Entries.get? d key = some v) (hclean : v.Clean)
    (haim : (throughout options env d).aim p = .ok (.place path target))
    (hpath : (Scope.except key).isFinalized path = true)
    (hstack : ∀ c ∈ stack, TransGen (throughout options env d).DependsOn c path.render) :
    sameIfEnds.Rel ((throughout options env d).plain n stack p) (pure target) := by
  obtain ⟨-, -, hget, -⟩ := aim_eq_place_iff.1 haim
  have htarget : target.Clean := clean_of_isFinalized hv hclean hpath hget
  have hmem : path.render ∉ stack := by
    intro hmem
    obtain ⟨c, hc, -⟩ := TransGen.head'_iff.1 (hstack _ hmem)
    exact not_dependsOn_of_clean ⟨p, path, haim, rfl⟩ htarget hc
  cases n with
  | zero =>
    rw [plain_zero_of_not_mem haim hmem]
    exact fun _ h => nomatch h
  | succ n =>
    rw [plain_succ_of_not_mem haim hmem,
      Value.mapStrings_eq_pure fun s hs => resolveText_of_clean (htarget s hs)]
    exact sameIfEnds.of_pure target

/-- A lookup that has not to resolve a new place. -/
theorem plain_besides_of_new (hv : Entries.get? d key = some v) (hclean : v.Clean)
    (hstack : ∀ path target, (throughout options env d).aim p = .ok (.place path target) →
      ∀ c ∈ stack, TransGen (throughout options env d).DependsOn c path.render)
    (hnew : ∀ path target, (throughout options env d).aim p = .ok (.place path target) →
      (besides options env d key).aim p = .ok (.place path target) → path.render ∉ stack →
      sameIfEnds.Rel ((throughout options env d).plain n stack p)
        ((besides options env d key).plain n stack p)) :
    sameIfEnds.Rel ((throughout options env d).plain n stack p)
      ((besides options env d key).plain n stack p) := by
  rcases haim : (throughout options env d).aim p with e | ⟨u⟩ | ⟨path, target⟩
  · have haim' : (besides options env d key).aim p = .error e := by
      rw [aim_besides_of_ne_place (by simp [haim]), haim]
    rw [plain_of_error haim, plain_of_error haim']
    exact sameIfEnds.of_throw e
  · have haim' : (besides options env d key).aim p = .ok (.value u) := by
      rw [aim_besides_of_ne_place (by simp [haim]), haim]
    rw [plain_of_value haim, plain_of_value haim']
    exact sameIfEnds.of_pure u
  · obtain ⟨hdomain, hparse, hget, -⟩ := aim_eq_place_iff.1 haim
    cases hpath : (Scope.except key).isFinalized path with
    | true =>
      have haim' : (besides options env d key).aim p = .ok (.value target) :=
        aim_of_final hdomain hparse hget hpath
      rw [plain_of_value haim']
      exact plain_of_isFinalized hv hclean haim hpath (hstack _ _ haim)
    | false =>
      have haim' : (besides options env d key).aim p = .ok (.place path target) :=
        aim_of_place hdomain hparse hget hpath
      by_cases hmem : path.render ∈ stack
      · rw [plain_of_mem haim hmem, plain_of_mem haim' hmem]
        exact sameIfEnds.of_throw _
      · exact hnew path target haim haim' hmem

/-- **A final entry without placeholders changes no lookup**, whatever its place is called by. -/
theorem plain_besides (hv : Entries.get? d key = some v) (hclean : v.Clean)
    (hstack : ∀ path target, (throughout options env d).aim p = .ok (.place path target) →
      ∀ c ∈ stack, TransGen (throughout options env d).DependsOn c path.render) :
    sameIfEnds.Rel ((throughout options env d).plain n stack p)
      ((besides options env d key).plain n stack p) := by
  induction n generalizing stack p with
  | zero =>
    refine plain_besides_of_new hv hclean hstack fun path target haim _ hmem => ?_
    rw [plain_zero_of_not_mem haim hmem]
    exact fun _ h => nomatch h
  | succ n ih =>
    refine plain_besides_of_new hv hclean hstack fun path target haim haim' hmem => ?_
    rw [plain_succ_of_not_mem haim hmem, plain_succ_of_not_mem haim' hmem]
    refine sameIfEnds.of_mapStrings target fun s hs => ?_
    refine sameIfEnds.of_resolveText fun q hq => ih fun path' target' hq' => ?_
    exact transGen_of_mem_append (hstack _ _ haim)
      ⟨target, ⟨p, path, haim, rfl⟩, s, hs, q, hq, path', target', hq', rfl⟩

/-! ### Passes -/

theorem plainString_of_clean {l : Lookup} (h : Template.containsPlaceholder text = false) :
    l.plainString n text = pure (.string text) := by
  funext failure
  cases failure with
  | some e => rfl
  | none =>
    rw [plainString, resolveText_of_clean h]
    rfl

theorem run_besides (hd : Entries.Distinct d) (hv : Entries.get? d key = some v) (hclean : v.Clean) :
    (besides options env d key).run = (throughout options env d).run := by
  set n := (throughout options env d).depth
  have hskip : Scope.all.mapStrings ((besides options env d key).plainString n) d =
      (Scope.except key).mapStrings ((besides options env d key).plainString n) d := by
    refine Scope.mapStrings_all_eq _ fun e he hkey s hs => ?_
    have hkey : e.1 = key := by simpa [Scope.contains] using hkey
    obtain rfl : v = e.2 := Option.some.inj (hv.symm.trans (hd.get?_of_mem (hkey ▸ he)))
    exact plainString_of_clean (hclean s hs)
  have hplain : ∀ p, sameIfEnds.Rel ((throughout options env d).plain n [] p)
      ((besides options env d key).plain n [] p) := fun _ => plain_besides hv hclean (by simp)
  have hrel := passesAgree.of_scopeMapStrings .all d fun text _ => passesAgree_plainString hplain text
  obtain ⟨r, hr, hrun⟩ := Option.map_eq_some_iff.1 (plainRun_depth (l := throughout options env d))
  refine run_eq_of_plainRun (n := n) (Option.map_eq_some_iff.2 ⟨r, ?_, hrun⟩)
  rw [hskip] at hrel
  exact hrel none r hr

end Lookup

namespace Resolver

variable {options : ResolverOptions} {env : Environment} {d : Document} {key : String} {v : Value}

/-- **Skipping an entry without placeholders cannot be noticed.** A pass around it leaves the document that
a pass over the whole document leaves, with the same failure or none. -/
theorem resolveExcept_eq_resolve (hd : Entries.Distinct d) (hv : Entries.get? d key = some v)
    (hclean : v.Clean) :
    (placeholders options env).resolveExcept d key = (placeholders options env).resolve d none :=
  Lookup.run_besides hd hv hclean

/-- A document with an entry that others refer to, as a whole and in part, and with a cycle further down. -/
def cited : Document :=
  [("copy", .string "${paths}"), ("paths", .sequence [.string "/a", .null]),
    ("first", .string "${paths[0]}/${paths.1}"), ("a", .string "${b}"), ("b", .string "${paths.0} ${a}")]

theorem resolveExcept_cited :
    Entries.Distinct cited ∧ Entries.get? cited "paths" = some (.sequence [.string "/a", .null]) ∧
      (Value.sequence [.string "/a", .null]).Clean ∧
      (placeholders {} []).resolveExcept cited "paths" = (placeholders {} []).resolve cited none ∧
      (placeholders {} []).resolve cited none =
        ⟨[("copy", .sequence [.string "/a", .null]), ("paths", .sequence [.string "/a", .null]),
          ("first", .string "/a/null"), ("a", .string "${b}"), ("b", .string "${paths.0} ${a}")],
          some (.cycle ["b", "a", "b"])⟩ := by
  have hd : Entries.Distinct cited := by decide
  have hv : Entries.get? cited "paths" = some (.sequence [.string "/a", .null]) := rfl
  have hclean : (Value.sequence [.string "/a", .null]).Clean := by
    intro s hs
    obtain rfl : s = "/a" := List.mem_singleton.1 hs
    decide
  exact ⟨hd, hv, hclean, resolveExcept_eq_resolve hd hv hclean, by decide +kernel⟩

end Resolver

end ConfigTree
