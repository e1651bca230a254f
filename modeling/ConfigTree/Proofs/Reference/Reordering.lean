import ConfigTree.Proofs.Document.Reordered
import ConfigTree.Proofs.Reference.Table

/-!
# The order of entries does not matter to a pass

The stack, the table and the document that is being rewritten are shared by all the strings of a pass, and
a document with its entries in another order fills the table in another order. Neither can be told from
the outcome: what a placeholder becomes is what the plain resolver makes of it on an empty stack, and that
is read from the document before the pass. So the pass over a reordered document leaves the reordered
document (`exists_run_of_reordered`), and the pass over one entry does to it what the pass over the whole
document does (`resolve_only_eq_iff`).

This is about success only. Which of several bad strings stops a pass does depend on the order.
-/

namespace ConfigTree

open Value

/-! ### One entry, and all of them -/

section Entries

variable {R : String → Value → Prop} {d d' : Document} {k : String} {v : Value}

theorem replacedIn_only_iff_of_not_mem (hk : k ∉ Entries.keys d) :
    ReplacedIn (.only k) R d d' ↔ d' = d := by
  induction d generalizing d' with
  | nil =>
    constructor
    · rintro ⟨⟩
      rfl
    · rintro rfl
      exact .nil
  | cons e d ih =>
    have hkey : Scope.contains (.only k) e.1 = false := by
      rw [Scope.contains, beq_eq_false_iff_ne]
      rintro rfl
      exact hk (by simp [Entries.keys])
    have hrest : k ∉ Entries.keys d := fun hm => hk (List.mem_cons_of_mem _ hm)
    constructor
    · intro h
      cases h with
      | inside hkey' => exact absurd (hkey.symm.trans hkey') (by simp)
      | outside _ h => rw [(ih hrest).1 h]
    · rintro rfl
      exact .outside hkey ((ih hrest).2 rfl)

/-- Replacing the strings of one entry writes its new value and leaves the others. -/
theorem replacedIn_only_iff (hd : Entries.Distinct d) (hv : Entries.get? d k = some v) :
    ReplacedIn (.only k) R d d' ↔ ∃ w, Replaced R v w ∧ d' = Entries.insert d k w := by
  induction d generalizing d' with
  | nil => cases hv
  | cons e d ih =>
    obtain ⟨key, x⟩ := e
    rw [Entries.get?] at hv
    by_cases hkey : key = k
    · subst hkey
      rw [if_pos rfl] at hv
      cases hv
      have hrest : key ∉ Entries.keys d := (List.nodup_cons.1 hd).1
      simp only [Entries.insert, if_true]
      constructor
      · intro h
        cases h with
        | inside _ hx h => exact ⟨_, hx, by rw [(replacedIn_only_iff_of_not_mem hrest).1 h]⟩
        | outside hk' => simp [Scope.contains] at hk'
      · rintro ⟨w, hw, rfl⟩
        exact .inside (by simp [Scope.contains]) hw ((replacedIn_only_iff_of_not_mem hrest).2 rfl)
    · rw [if_neg hkey] at hv
      have hout : Scope.contains (.only k) key = false := by simpa [Scope.contains] using hkey
      simp only [Entries.insert, hkey, if_false]
      constructor
      · intro h
        cases h with
        | inside hin => exact absurd (hout.symm.trans hin) (by simp)
        | outside _ h =>
          obtain ⟨w, hw, rfl⟩ := (ih (List.nodup_cons.1 hd).2 hv).1 h
          exact ⟨w, hw, rfl⟩
      · rintro ⟨w, hw, rfl⟩
        exact .outside hout ((ih (List.nodup_cons.1 hd).2 hv).2 ⟨w, hw, rfl⟩)

/-- Where the strings of each entry can be replaced, those of the document can. -/
theorem exists_replacedEntries (hd : Entries.Distinct d)
    (h : ∀ k v, Entries.get? d k = some v → ∃ w, Replaced R v w) :
    ∃ d', ReplacedEntries R d d' := by
  induction d with
  | nil => exact ⟨[], .nil⟩
  | cons e d ih =>
    obtain ⟨key, x⟩ := e
    obtain ⟨w, hw⟩ := h key x (if_pos rfl)
    obtain ⟨d', hd'⟩ := ih (List.nodup_cons.1 hd).2 fun k v hv => by
      refine h k v ?_
      have hmem : k ∈ Entries.keys d := (Entries.isSome_get?_iff d k).1 (by simp [hv])
      have hne : key ≠ k := fun he => (List.nodup_cons.1 hd).1 (he ▸ hmem)
      rwa [Entries.get?, if_neg hne]
    exact ⟨_, .cons hw hd'⟩

end Entries

/-! ### Reordered documents -/

variable {V W : Placeholder → Value → Prop} {s t : String} {ps : List Part} {v w : Value}

theorem interpolate_of_reordered (p : Placeholder) (h : Reordered v w) :
    p.interpolate v = p.interpolate w := by
  cases h <;> rfl

theorem TextOf.of_reordered (h : TextOf V ps t)
    (hVW : ∀ p v, V p v → ∃ w, W p w ∧ Reordered v w) : TextOf W ps t := by
  induction h with
  | nil => exact .nil
  | literal _ ih => exact .literal ih
  | reference hv ht _ ih =>
    obtain ⟨w, hw, hr⟩ := hVW _ _ hv
    exact .reference hw ((interpolate_of_reordered _ hr).symm.trans ht) ih

/-- Where placeholders stand for reordered values, strings become reordered values. -/
theorem Becomes.exists_reordered (h : Becomes V s v)
    (hVW : ∀ p v, V p v → ∃ w, W p w ∧ Reordered v w) : ∃ w, Becomes W s w ∧ Reordered v w := by
  cases h with
  | same hs => exact ⟨_, .same hs, .refl _⟩
  | single hs hp hv =>
    obtain ⟨w, hw, hr⟩ := hVW _ _ hv
    exact ⟨w, .single hs hp hw, hr⟩
  | text hs hp hsingle ht => exact ⟨_, .text hs hp hsingle (ht.of_reordered hVW), .refl _⟩

namespace Lookup

variable {l l' : Lookup} {d e : Document} {p : Placeholder} {path : Path} {target : Value}
  {stack : List String} {n : Nat}

/-- The same lookups in another document. -/
def within (l : Lookup) (e : Document) : Lookup := { l with snapshot := e }

theorem get?_eq_none_of_reordered (hd : d.Wellformed) (h : ReorderedEntries d e)
    (hnone : d.get? path = none) : e.get? path = none := by
  have he : e.Wellformed := ⟨h.distinct hd.1, h.wellformed hd.2⟩
  cases hget : e.get? path with
  | none => rfl
  | some u =>
    obtain ⟨u', hu', -⟩ := h.symm.documentGet? he hget
    cases hnone.symm.trans hu'

theorem aim_place_of_reordered (hd : l.snapshot.Wellformed) (h : ReorderedEntries l.snapshot e)
    (haim : l.aim p = .ok (.place path target)) :
    ∃ target', (l.within e).aim p = .ok (.place path target') ∧ Reordered target target' := by
  obtain ⟨hdomain, hparse, hget, hfinal⟩ := aim_eq_place_iff.1 haim
  obtain ⟨target', hget', hr⟩ := h.documentGet? hd hget
  exact ⟨target', aim_eq_place_iff.2 ⟨hdomain, hparse, hget', hfinal⟩, hr⟩

theorem aim_value_of_reordered (hd : l.snapshot.Wellformed) (h : ReorderedEntries l.snapshot e)
    (haim : l.aim p = .ok (.value v)) :
    ∃ w, (l.within e).aim p = .ok (.value w) ∧ Reordered v w := by
  rcases aim_eq_value_iff.1 haim with
    ⟨name, hdomain, hv⟩ | ⟨hdomain, path, hparse, ⟨hget, hv⟩ | ⟨hget, hfinal⟩⟩
  · exact ⟨v, aim_eq_value_iff.2 (.inl ⟨name, hdomain, hv⟩), .refl v⟩
  · have hget' : (l.within e).snapshot.get? path = none := get?_eq_none_of_reordered hd h hget
    exact ⟨v, aim_eq_value_iff.2 (.inr ⟨hdomain, path, hparse, .inl ⟨hget', hv⟩⟩), .refl v⟩
  · obtain ⟨w, hget', hr⟩ := h.documentGet? hd hget
    exact ⟨w, aim_eq_value_iff.2 (.inr ⟨hdomain, path, hparse, .inr ⟨hget', hfinal⟩⟩), hr⟩

/-- In a reordered document a placeholder has the reordered value. -/
theorem plain_of_reordered (hd : l.snapshot.Wellformed) (h : ReorderedEntries l.snapshot e)
    (hv : l.plain n stack p = pure v) :
    ∃ w, (l.within e).plain n stack p = pure w ∧ Reordered v w := by
  induction n generalizing stack p v with
  | zero =>
    rcases plain_eq_pure_iff.1 hv with haim | ⟨_, _, _, _, _, hn, _⟩
    · obtain ⟨w, hw, hr⟩ := aim_value_of_reordered hd h haim
      exact ⟨w, plain_eq_pure_iff.2 (.inl hw), hr⟩
    · cases hn
  | succ n ih =>
    rcases plain_eq_pure_iff.1 hv with haim | ⟨path, target, m, haim, hmem, hn, hres⟩
    · obtain ⟨w, hw, hr⟩ := aim_value_of_reordered hd h haim
      exact ⟨w, plain_eq_pure_iff.2 (.inl hw), hr⟩
    · obtain rfl : n = m := by omega
      obtain ⟨target', haim', hr⟩ := aim_place_of_reordered hd h haim
      obtain ⟨u, hu, hvu⟩ := Replaced.reordered hr hres
      obtain ⟨w, hw, huw⟩ := hu.exists_reordered fun text x hx =>
        hx.exists_reordered fun q y hy => ih hy
      exact ⟨w, plain_eq_pure_iff.2 (.inr ⟨path, target', n, haim', hmem, rfl, hw⟩), hvu.trans huw⟩

/-- A pass over a reordered document leaves the reordered document. -/
theorem exists_run_of_reordered (hscope : l.scope = .all) (hd : l.snapshot.Wellformed)
    (h : ReorderedEntries l.snapshot e) (hrun : l.run = ⟨d, none⟩) :
    ∃ e', (l.within e).run = ⟨e', none⟩ ∧ ReorderedEntries d e' := by
  have hall : (l.within e).scope = .all := hscope
  rw [run_eq_ok_iff, hscope, replacedIn_all_iff] at hrun
  obtain ⟨u, hu, hdu⟩ := ReplacedEntries.reordered h hrun
  obtain ⟨e', he', hue⟩ := hu.exists_reordered (S := Becomes (l.within e).HasValue) fun text x hx =>
    hx.exists_reordered fun q y ⟨n, hn⟩ => by
      obtain ⟨w, hw, hr⟩ := plain_of_reordered hd h hn
      exact ⟨w, ⟨n, hw⟩, hr⟩
  refine ⟨e', ?_, .trans hdu hue⟩
  rw [run_eq_ok_iff, hall, replacedIn_all_iff]
  exact he'

/-! ### Passes over single entries -/

/-- The plain resolver reads of a lookup only where placeholders point. -/
theorem plain_congr (h : ∀ p, l.aim p = l'.aim p) : l.plain n stack p = l'.plain n stack p := by
  have haim : l.aim = l'.aim := funext h
  induction n generalizing stack p with
  | zero => rw [plain.eq_def, plain.eq_def, haim]
  | succ n ih =>
    have hfun : ∀ stack, l.plain n stack = l'.plain n stack := fun stack => funext fun p => ih
    rw [plain.eq_def, plain.eq_def]
    simp only [haim, hfun]

theorem hasValue_congr (h : ∀ p, l.aim p = l'.aim p) : l.HasValue = l'.HasValue := by
  funext p v
  simp only [HasValue, plain_congr h]

end Lookup

namespace Resolver

variable {options : ResolverOptions} {env : Environment} {d e d' : Document} {k : String} {v : Value}

theorem resolve_all_eq_iff :
    (placeholders options env).resolve d none = ⟨d', none⟩ ↔
      ReplacedEntries (Becomes (Lookup.HasValue ⟨options, env, d, .all⟩)) d d' :=
  Lookup.run_eq_ok_iff.trans replacedIn_all_iff

/-- A pass over one entry reads the same values as the pass over the whole document. -/
theorem resolve_only_eq_iff :
    (placeholders options env).resolve d (some k) = ⟨d', none⟩ ↔
      ReplacedIn (.only k) (Becomes (Lookup.HasValue ⟨options, env, d, .all⟩)) d d' := by
  have hvalue : Lookup.HasValue ⟨options, env, d, .all⟩ = Lookup.HasValue ⟨options, env, d, .only k⟩ :=
    Lookup.hasValue_congr fun _ => rfl
  rw [hvalue]
  exact Lookup.run_eq_ok_iff

/-- A pass over one entry succeeds exactly when its strings can be replaced. -/
theorem resolve_only_eq_iff_of_get? (hd : Entries.Distinct d) (hv : Entries.get? d k = some v) :
    (placeholders options env).resolve d (some k) = ⟨d', none⟩ ↔
      ∃ w, Replaced (Becomes (Lookup.HasValue ⟨options, env, d, .all⟩)) v w ∧
        d' = Entries.insert d k w :=
  resolve_only_eq_iff.trans (replacedIn_only_iff hd hv)

theorem exists_resolve_of_reordered (hd : d.Wellformed) (h : ReorderedEntries d e)
    (hrun : (placeholders options env).resolve d none = ⟨d', none⟩) :
    ∃ e', (placeholders options env).resolve e none = ⟨e', none⟩ ∧ ReorderedEntries d' e' :=
  Lookup.exists_run_of_reordered (l := ⟨options, env, d, .all⟩) rfl hd h hrun

/-- **What an entry resolves to depends neither on the order of entries nor on the other entries of the
pass.** Reordering the entries of a document, at any depth, reorders the outcome of a pass over it; and a
pass over it succeeds exactly when the passes over its single entries do, each of which writes the value
that the pass over the whole document gives this entry, and nothing else. -/
theorem resolve_order_independent (hd : d.Wellformed) :
    (∀ e, ReorderedEntries d e →
      (((placeholders options env).resolve d none).failure = none ↔
        ((placeholders options env).resolve e none).failure = none) ∧
      (((placeholders options env).resolve d none).failure = none →
        ReorderedEntries ((placeholders options env).resolve d none).document
          ((placeholders options env).resolve e none).document)) ∧
    (((placeholders options env).resolve d none).failure = none ↔
      ∀ k ∈ Entries.keys d, ((placeholders options env).resolve d (some k)).failure = none) ∧
    (((placeholders options env).resolve d none).failure = none →
      ∀ k ∈ Entries.keys d, ∃ v,
        Entries.get? ((placeholders options env).resolve d none).document k = some v ∧
        ((placeholders options env).resolve d (some k)).document = Entries.insert d k v) := by
  have hsingle : ∀ {d' k}, (placeholders options env).resolve d none = ⟨d', none⟩ →
      k ∈ Entries.keys d → ∃ w, Entries.get? d' k = some w ∧
        (placeholders options env).resolve d (some k) = ⟨Entries.insert d k w, none⟩ := by
    intro d' k hrun hk
    obtain ⟨v, hv⟩ := Option.isSome_iff_exists.1 ((Entries.isSome_get?_iff d k).2 hk)
    obtain ⟨w, hw, hvw⟩ := (resolve_all_eq_iff.1 hrun).get? hv
    exact ⟨w, hw, (resolve_only_eq_iff_of_get? hd.1 hv).2 ⟨w, hvw, rfl⟩⟩
  refine ⟨fun e h => ⟨⟨fun hok => ?_, fun hok => ?_⟩, fun hok => ?_⟩,
    ⟨fun hok k hk => ?_, fun hall => ?_⟩, fun hok k hk => ?_⟩
  · obtain ⟨d', hrun⟩ := Resolution.failure_eq_none_iff.1 hok
    obtain ⟨e', he', -⟩ := exists_resolve_of_reordered hd h hrun
    rw [he']
  · obtain ⟨e', hrun⟩ := Resolution.failure_eq_none_iff.1 hok
    obtain ⟨d', hd', -⟩ := exists_resolve_of_reordered ⟨h.distinct hd.1, h.wellformed hd.2⟩ h.symm hrun
    rw [hd']
  · obtain ⟨d', hrun⟩ := Resolution.failure_eq_none_iff.1 hok
    obtain ⟨e', he', hr⟩ := exists_resolve_of_reordered hd h hrun
    rw [hrun, he']
    exact hr
  · obtain ⟨d', hrun⟩ := Resolution.failure_eq_none_iff.1 hok
    obtain ⟨w, -, hw⟩ := hsingle hrun hk
    rw [hw]
  · obtain ⟨d', hd'⟩ := exists_replacedEntries
      (R := Becomes (Lookup.HasValue ⟨options, env, d, .all⟩)) hd.1 fun k v hv => by
        have hk : k ∈ Entries.keys d := (Entries.isSome_get?_iff d k).1 (by simp [hv])
        obtain ⟨d', hrun⟩ := Resolution.failure_eq_none_iff.1 (hall k hk)
        obtain ⟨w, hw, -⟩ := (resolve_only_eq_iff_of_get? hd.1 hv).1 hrun
        exact ⟨w, hw⟩
    rw [resolve_all_eq_iff.2 hd']
  · obtain ⟨d', hrun⟩ := Resolution.failure_eq_none_iff.1 hok
    obtain ⟨w, hw, hwrun⟩ := hsingle hrun hk
    rw [hrun, hwrun]
    exact ⟨w, hw, rfl⟩

/-- A document with a reference to a later entry, which holds one itself. -/
def forward : Document :=
  [("a", .string "${b.y}"), ("b", .mapping [("x", .string "${c}"), ("y", .string "1${c}")]),
    ("c", .number (.int 2))]

theorem resolve_forward :
    forward.Wellformed ∧
      ReorderedEntries ((placeholders {} []).resolve forward none).document
        ((placeholders {} []).resolve forward.reverse none).document ∧
      ∃ v, Entries.get? ((placeholders {} []).resolve forward none).document "a" = some v ∧
        ((placeholders {} []).resolve forward (some "a")).document = Entries.insert forward "a" v := by
  have hwellformed : forward.Wellformed := by decide
  have hok : ((placeholders {} []).resolve forward none).failure = none := by decide +kernel
  have hindependent := @resolve_order_independent {} [] forward hwellformed
  refine ⟨hwellformed, ?_, hindependent.2.2 hok "a" (by decide)⟩
  exact (hindependent.1 forward.reverse (.of_perm (List.reverse_perm _).symm)).2 hok

end Resolver

end ConfigTree
