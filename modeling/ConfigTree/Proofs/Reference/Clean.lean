import ConfigTree.Proofs.NumberText
import ConfigTree.Proofs.Reference.Equations

/-!
# What a pass leaves as it is

A pass leaves a document as it is when no string of it holds the beginning of a placeholder. Could a
document with placeholders be left as it is too, each of them standing for the text it was written with?

When globals and variables hold no beginnings of placeholders it could not. In a text that is left as it
is, some placeholder is covered by what is put in for it: as long as the texts put in are too short to
cover their placeholders, the parts that follow stand too far to the left (`exists_covering`). What
covers a placeholder is no fallback, which is shorter, so it comes from the document, where it is a string
that is left as it is and holds a placeholder itself. As this goes on within lower and lower limits, it
comes to an end, and so there is no such text (`resolve_self_iff`).
-/

namespace ConfigTree

open Template

/-- No string of the value, at any depth, holds the beginning of a placeholder. -/
def Value.Clean (v : Value) : Prop := ∀ s ∈ v.strings, containsPlaceholder s = false

/-- No string of the document, at any depth, holds the beginning of a placeholder. -/
def Document.Clean (d : Document) : Prop :=
  ∀ s ∈ Value.stringsOfEntries d, containsPlaceholder s = false

/-- No variable has a value that holds the beginning of a placeholder. -/
def Environment.Clean (env : Environment) : Prop :=
  ∀ name text, env.lookup name = some text → containsPlaceholder text = false

theorem Value.clean_string_iff {s : String} :
    (Value.string s).Clean ↔ containsPlaceholder s = false := by
  simp [Value.Clean, Value.strings]

/-! ### What is put in -/

namespace Placeholder

variable {p : Placeholder} {v : Value} {text : String}

/-- What is put into a longer text is a string, or holds no beginning of a placeholder. -/
theorem interpolate_cases (h : p.interpolate v = .ok text) :
    v = .string text ∨ containsPlaceholder text = false := by
  cases v with
  | string s =>
    cases h
    exact .inl rfl
  | number n =>
    cases h
    rw [containsPlaceholder_eq_false_iff]
    exact .inr fun hpair => n.dollar_not_mem_text (hpair.subset (by simp))
  | bool b =>
    cases h
    cases b <;> exact .inr (by decide)
  | null =>
    cases h
    exact .inr (by decide)
  | _ => cases h

theorem containsPlaceholder_of_interpolate (hv : v.Clean) (h : p.interpolate v = .ok text) :
    containsPlaceholder text = false := by
  rcases interpolate_cases h with rfl | hclean
  · exact Value.clean_string_iff.1 hv
  · exact hclean

end Placeholder

namespace Lookup

variable {l : Lookup} {p : Placeholder} {v : Value} {s : String} {stack : List String} {n : Nat}

theorem clean_or_fallback_of_inDomain {name : String} (hglobals : l.options.globals.Clean)
    (henv : l.env.Clean) (hname : p.domain = some name) (h : l.inDomain p name = .ok v) :
    v.Clean ∨ ∃ text, p.fallback = some text ∧ v = .string text := by
  have hstands : StandsFor l.options l.env l.snapshot [] p v := standsFor_of_inDomain hname h
  cases hstands with
  | inDocument hnone => cases hname.symm.trans hnone
  | notInDocument hnone => cases hname.symm.trans hnone
  | inGlobal _ hglobal _ hget =>
    refine .inl fun t ht => hglobals t ?_
    exact Value.strings_subset_of_entriesGet? hglobal (Value.strings_subset_of_get? hget ht)
  | notInGlobal _ _ _ _ htext => exact .inr ⟨_, htext, rfl⟩
  | «variable» _ _ _ htext =>
    exact .inl (Value.clean_string_iff.2 (henv _ _ htext))
  | noVariable _ _ _ _ htext => exact .inr ⟨_, htext, rfl⟩

/-- What is put in as it is holds no beginning of a placeholder, or is a fallback. -/
theorem clean_or_fallback_of_aim (hglobals : l.options.globals.Clean) (henv : l.env.Clean)
    (hscope : ∀ path, l.scope.isFinalized path = false) (h : l.aim p = .ok (.value v)) :
    v.Clean ∨ ∃ text, p.fallback = some text ∧ v = .string text := by
  rcases aim_eq_value_iff.1 h with ⟨name, hname, h⟩ | ⟨-, path, -, ⟨-, h⟩ | ⟨-, hfinal⟩⟩
  · exact clean_or_fallback_of_inDomain hglobals henv hname h
  · exact .inr (Placeholder.missing_eq_ok_iff.1 h)
  · rw [hscope path] at hfinal
    cases hfinal

end Lookup

/-! ### Texts that are left as they are -/

/-- Of two texts that begin differently but are the same, a piece that lies within a piece. -/
theorem infix_of_append_eq {α : Type} {before before' xs ys rest rest' : List α}
    (h : before ++ (xs ++ rest) = before' ++ (ys ++ rest')) (hle : before'.length ≤ before.length)
    (hcover : before.length + xs.length ≤ before'.length + ys.length) : xs <:+: ys := by
  have hbefore : before' <+: before :=
    List.prefix_of_prefix_length_le ⟨_, h.symm⟩ (List.prefix_append before _) hle
  obtain ⟨shift, rfl⟩ := hbefore
  rw [List.append_assoc, List.append_cancel_left_eq, ← List.append_assoc] at h
  have hxs : shift ++ xs <+: ys := by
    refine List.prefix_of_prefix_length_le ⟨_, h⟩ (List.prefix_append ys _) ?_
    simp only [List.length_append] at hcover ⊢
    omega
  obtain ⟨tail, htail⟩ := hxs
  exact ⟨shift, tail, htail⟩

/-- When the text put together is the text that the parts were cut from, some placeholder lies within
what is put in for it. -/
theorem TextOf.exists_covering {V : Placeholder → Value → Prop} {ps : List Part} {t : String}
    (h : TextOf V ps t) {before before' : List Char}
    (heq : before ++ ps.flatMap source = before' ++ t.toList)
    (hle : before'.length ≤ before.length)
    (hlt : before'.length < before.length ∨ ∃ p, .reference p ∈ ps) :
    ∃ p, .reference p ∈ ps ∧ ∃ v text, V p v ∧ p.interpolate v = .ok text ∧
      p.raw.toList <:+: text.toList := by
  induction h generalizing before before' with
  | nil =>
    have hlength := congrArg List.length heq
    simp only [List.flatMap_nil, List.append_nil, String.toList_empty] at hlength
    rcases hlt with hlt | ⟨p, hp⟩
    · omega
    · cases hp
  | @literal text rest ps _ ih =>
    rw [List.flatMap_cons, source, String.toList_append, ← List.append_assoc, ← List.append_assoc]
      at heq
    have hle' : (before' ++ text.toList).length ≤ (before ++ text.toList).length := by
      simp only [List.length_append]
      omega
    obtain ⟨p, hp, hcovered⟩ := ih heq hle' <| by
      rcases hlt with hlt | ⟨p, hp⟩
      · left
        simp only [List.length_append]
        omega
      · exact .inr ⟨p, by simpa using hp⟩
    exact ⟨p, List.mem_cons_of_mem _ hp, hcovered⟩
  | @reference p v text rest ps hv htext _ ih =>
    rw [List.flatMap_cons, source, String.toList_append] at heq
    by_cases hcover : before.length + p.raw.toList.length ≤ before'.length + text.toList.length
    · exact ⟨p, List.mem_cons_self, v, text, hv, htext, infix_of_append_eq heq hle hcover⟩
    · -- What is put in ends before the placeholder does, and the rest stands too far to the left.
      have hshort : (before' ++ text.toList).length < (before ++ p.raw.toList).length := by
        simp only [List.length_append]
        omega
      rw [← List.append_assoc, ← List.append_assoc] at heq
      obtain ⟨q, hq, hcovered⟩ := ih heq hshort.le (.inl hshort)
      exact ⟨q, List.mem_cons_of_mem _ hq, hcovered⟩

theorem containsPlaceholder_of_covered {body : List Char} {p : Placeholder} {text : String}
    (h : placeholderOf body = .ok p) (hcovered : p.raw.toList <:+: text.toList) :
    containsPlaceholder text = true :=
  containsPlaceholder_iff.2 ((containsPlaceholder_iff.1 (containsPlaceholder_raw h)).trans hcovered)

/-- When a string with a placeholder becomes itself, one of its placeholders stands for a string that it
lies within. -/
theorem Becomes.exists_covering {V : Placeholder → Value → Prop} {s : String}
    (h : Becomes V s (.string s)) (hs : containsPlaceholder s = true) :
    ∃ body p text, placeholderOf body = .ok p ∧ V p (.string text) ∧
      p.raw.toList <:+: text.toList := by
  generalize hv : Value.string s = v at h
  cases h with
  | same hs' => cases hs.symm.trans hs'
  | @single p _ _ hparse hV =>
    subst hv
    have hcut := parts_eq_ok_iff.1 hparse
    obtain ⟨body, hbody⟩ := hcut.exists_body List.mem_cons_self
    have hraw : p.raw.toList = s.toList := by simpa [source] using hcut.flatMap_source
    exact ⟨body, p, s, hbody, hV, hraw ▸ List.infix_rfl⟩
  | @text ps t _ hparse _ ht =>
    cases hv
    have hcut := parts_eq_ok_iff.1 hparse
    have hall : [] ++ ps.flatMap source = [] ++ s.toList := hcut.flatMap_source
    obtain ⟨p, hp, v, text, hV, htext, hcovered⟩ := ht.exists_covering hall (Nat.le_refl _)
      (.inr (hcut.exists_reference_iff.2 (containsPlaceholder_iff.1 hs)))
    obtain ⟨body, hbody⟩ := hcut.exists_body hp
    have hpair : containsPlaceholder text = true := containsPlaceholder_of_covered hbody hcovered
    rcases Placeholder.interpolate_cases htext with rfl | hclean
    · exact ⟨body, p, text, hbody, hV, hcovered⟩
    · cases hpair.symm.trans hclean

namespace Lookup

variable {l : Lookup} {p : Placeholder} {v : Value} {s : String} {stack : List String} {n : Nat}

/-- What a placeholder has on some stack it has on the empty one. -/
theorem hasValue_of_plain (h : l.plain n stack p = pure v) : l.HasValue p v :=
  ⟨n, plain_eq_pure_of_stack h (by simp)⟩

/-- In a document that is left as it is, no string with a placeholder becomes itself. -/
theorem containsPlaceholder_of_becomes_self (hglobals : l.options.globals.Clean)
    (henv : l.env.Clean) (hscope : ∀ path, l.scope.isFinalized path = false)
    (hself : Value.ReplacedEntries (Becomes l.HasValue) l.snapshot l.snapshot)
    (h : Becomes (fun p v => l.plain n stack p = pure v) s (.string s)) :
    containsPlaceholder s = false := by
  -- The text that covers a placeholder is such a string again, within a lower limit.
  induction n using Nat.strongRecOn generalizing s stack with
  | ind n ih =>
    by_contra hs
    rw [Bool.not_eq_false] at hs
    obtain ⟨body, p, text, hbody, hV, hcovered⟩ := h.exists_covering hs
    have htext : ¬ containsPlaceholder text = false := by
      rw [Bool.not_eq_false]
      exact containsPlaceholder_of_covered hbody hcovered
    rcases plain_eq_pure_iff.1 hV with haim | ⟨path, target, m, haim, -, hn, hres⟩
    · rcases clean_or_fallback_of_aim hglobals henv hscope haim with hclean | ⟨fallback, hfallback, heq⟩
      · exact htext (Value.clean_string_iff.1 hclean)
      · cases heq
        have hlt := length_fallback_lt hbody hfallback
        exact absurd hcovered.length_le (by omega)
    · obtain ⟨-, -, hget, -⟩ := aim_eq_place_iff.1 haim
      obtain ⟨u, hu, hreplaced⟩ := hself.documentGet? hget
      obtain rfl : target = u := Option.some.inj (hget.symm.trans hu)
      have hat : l.StandsAt path.render target := ⟨p, path, haim, rfl⟩
      obtain rfl : target = .string text := replaced_unique hreplaced (hres.replaced hat)
      cases hres with
      | string h => exact htext (ih m (by omega) h)

/-- Where a value holds no beginning of a placeholder, it stands as it was after a pass over its entry. -/
theorem get?_run_of_clean {d : Document} {first : Segment} {rest : Path} (hrun : l.run = ⟨d, none⟩)
    (hkey : l.scope.contains first.documentKey = true)
    (hget : l.snapshot.get? (first :: rest) = some v) (hv : v.Clean) :
    d.get? (first :: rest) = some v := by
  obtain ⟨c, hc, hrest⟩ := Option.bind_eq_some_iff.1 hget
  obtain ⟨c', hc', hreplaced⟩ := (run_eq_ok_iff.1 hrun).get? hkey hc
  obtain ⟨u, hu, hvu⟩ := Value.Replaced.readsAlong.get? hreplaced hrest
  have hsame : Value.Replaced (fun s u => u = .string s) v u :=
    hvu.imp fun s hs u hu => (becomes_iff_of_no_placeholder (hv s hs)).1 hu
  have hself : Value.Replaced (fun s u => u = .string s) v v :=
    (Value.replaced_self_iff v).2 fun s _ => rfl
  obtain rfl := hsame.unique (fun _ _ _ h h' => h.trans h'.symm) hself
  exact Option.bind_eq_some_iff.2 ⟨c', hc', hu⟩

end Lookup

namespace Resolver

variable {options : ResolverOptions} {env : Environment} {d : Document}

/-- **A pass leaves a document as it is when and only when it holds no beginning of a placeholder**, as
long as globals and variables hold none. -/
theorem resolve_self_iff (hglobals : options.globals.Clean) (henv : env.Clean) :
    (placeholders options env).resolve d none = ⟨d, none⟩ ↔ d.Clean := by
  set l : Lookup := ⟨options, env, d, .all⟩
  have hrun : (placeholders options env).resolve d none = ⟨d, none⟩ ↔
      ∀ s ∈ Value.stringsOfEntries d, Becomes l.HasValue s (.string s) := by
    rw [← Value.replacedEntries_self_iff, ← replacedIn_all_iff]
    exact Lookup.run_eq_ok_iff (l := l)
  rw [hrun]
  constructor
  · intro hself s hs
    have hwithin : Becomes (fun p v => l.plain l.depth [] p = pure v) s (.string s) := by
      refine (hself s hs).imp fun p hp v => (Lookup.hasValue_iff_of_mem ?_).1
      exact List.mem_flatMap.2 ⟨s, hs, hp⟩
    exact Lookup.containsPlaceholder_of_becomes_self hglobals henv (fun _ => rfl)
      ((Value.replacedEntries_self_iff d).2 hself) hwithin
  · exact fun hclean s hs => .same (hclean s hs)

end Resolver

end ConfigTree
