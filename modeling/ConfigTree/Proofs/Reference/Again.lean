import ConfigTree.Proofs.Reference.Clean

/-!
# Resolving again

A resolved document should hold no placeholders, so that resolving it again changes nothing. What could
bring new ones in? Globals and variables could, and so it is said that they must not hold any. But there
are two more ways, for what is put into a text is not looked at again. A fallback ends at the first
closing brace, and may hold the beginning of a placeholder. And a beginning can arise where two parts of
a text meet, a dollar sign at the end of one and a brace at the start of the next.

There are no other ways. A pass over the result changes nothing exactly when each string of the document
is put together without these two (`Tidy`, `resolve_again_iff`).
-/

namespace ConfigTree

open Template

/-- Nothing like a placeholder arises when the string becomes what its placeholders stand for, which `V`
tells. -/
structure Tidy (V : Placeholder → Value → Prop) (s : String) : Prop where
  /-- No fallback that is put in holds the beginning of a placeholder. -/
  fallback : ∀ p ∈ Lookup.placeholdersOf s, ∀ text, p.fallback = some text → V p (.string text) →
    containsPlaceholder text = false
  /-- No beginning of a placeholder arises between a part and the next. -/
  seam : ∀ qs rs t u, parse s = .ok (qs ++ rs) → TextOf V qs t → TextOf V rs u → ¬ Seam t u

section Texts

variable {V W : Placeholder → Value → Prop} {s t u : String} {ps qs rs : List Part} {v w : Value}

theorem TextOf.append (h : TextOf V qs t) (hu : TextOf V rs u) : TextOf V (qs ++ rs) (t ++ u) := by
  induction h with
  | nil => simpa using hu
  | literal _ ih =>
    rw [String.append_assoc]
    exact .literal ih
  | reference hv htext _ ih =>
    rw [String.append_assoc]
    exact .reference hv htext ih

/-- What is put into a clean text is clean. -/
theorem TextOf.containsPlaceholder_of_mem (h : TextOf V ps t) (ht : containsPlaceholder t = false)
    {p : Placeholder} (hp : .reference p ∈ ps) :
    ∃ v text, V p v ∧ p.interpolate v = .ok text ∧ containsPlaceholder text = false := by
  induction h with
  | nil => cases hp
  | literal _ ih =>
    exact ih (containsPlaceholder_append_eq_false_iff.1 ht).2.1 (by simpa using hp)
  | reference hv htext _ ih =>
    obtain ⟨hclean, hrest, -⟩ := containsPlaceholder_append_eq_false_iff.1 ht
    rcases List.mem_cons.1 hp with hp | hp
    · cases hp
      exact ⟨_, _, hv, htext, hclean⟩
    · exact ih hrest hp

/-- A text is clean that is put together of clean parts without a seam. -/
theorem TextOf.containsPlaceholder_eq_false (h : TextOf V ps t)
    (hliteral : ∀ text, .literal text ∈ ps → containsPlaceholder text = false)
    (hvalue : ∀ p, .reference p ∈ ps → ∀ v, V p v → v.Clean)
    (hseam : ∀ qs rs t u, ps = qs ++ rs → TextOf V qs t → TextOf V rs u → ¬ Seam t u) :
    containsPlaceholder t = false := by
  induction h with
  | nil => decide
  | @literal text rest ps hrest ih =>
    refine containsPlaceholder_append_eq_false_iff.2 ⟨hliteral text (by simp), ?_, ?_⟩
    · refine ih (fun t ht => hliteral t (by simp [ht])) (fun p hp => hvalue p (by simp [hp])) ?_
      rintro qs rs t u rfl ht hu hmeet
      exact hseam (.literal text :: qs) rs _ u rfl (.literal ht) hu (hmeet.append_left text)
    · have hfirst : TextOf V [.literal text] (text ++ "") := .literal .nil
      rw [String.append_empty] at hfirst
      exact hseam _ ps text rest rfl hfirst hrest
  | @reference p v text rest ps hv htext hrest ih =>
    have hclean := Placeholder.containsPlaceholder_of_interpolate (hvalue p (by simp) v hv) htext
    refine containsPlaceholder_append_eq_false_iff.2 ⟨hclean, ?_, ?_⟩
    · refine ih (fun t ht => hliteral t (by simp [ht])) (fun p hp => hvalue p (by simp [hp])) ?_
      rintro qs rs t u rfl ht hu hmeet
      exact hseam (.reference p :: qs) rs _ u rfl (.reference hv htext ht) hu (hmeet.append_left text)
    · have hfirst : TextOf V [.reference p] (text ++ "") := .reference hv htext .nil
      rw [String.append_empty] at hfirst
      exact hseam _ ps text rest rfl hfirst hrest

/-- A tidy string becomes something clean where its placeholders stand for something clean. -/
theorem Becomes.clean (h : Becomes W s v) (htidy : Tidy V s)
    (hWV : ∀ p ∈ Lookup.placeholdersOf s, ∀ v, W p v → V p v)
    (hvalue : ∀ p ∈ Lookup.placeholdersOf s, ∀ v, W p v → v.Clean) : v.Clean := by
  cases h with
  | same hs => exact Value.clean_string_iff.2 hs
  | single _ hparse hv =>
    exact hvalue _ ((Lookup.mem_placeholdersOf_iff hparse).2 List.mem_cons_self) _ hv
  | @text ps t _ hparse _ ht =>
    refine Value.clean_string_iff.2 (ht.containsPlaceholder_eq_false (fun text hmem => ?_) (fun p hp => ?_) ?_)
    · exact (parts_eq_ok_iff.1 hparse).containsPlaceholder_literal hmem
    · exact hvalue p ((Lookup.mem_placeholdersOf_iff hparse).2 hp)
    · rintro qs rs t u rfl ht hu
      have hmem : ∀ p, .reference p ∈ qs ++ rs → ∀ v, W p v → V p v := fun p hp =>
        hWV p ((Lookup.mem_placeholdersOf_iff hparse).2 hp)
      refine htidy.seam qs rs t u hparse (ht.imp fun p hp => hmem p ?_) (hu.imp fun p hp => hmem p ?_)
      · exact List.mem_append_left _ hp
      · exact List.mem_append_right _ hp

/-- The text of parts among which there is no placeholder is the text that they were cut from. -/
theorem TextOf.toList_eq (h : TextOf V ps t) (hps : ∀ p, .reference p ∉ ps) :
    t.toList = ps.flatMap source := by
  induction h with
  | nil => rfl
  | literal _ ih =>
    rw [String.toList_append, List.flatMap_cons, ih fun p hp => hps p (List.mem_cons_of_mem _ hp)]
    rfl
  | reference => exact absurd List.mem_cons_self (hps _)

/-- A text of the parts of a string is clean where the string becomes something clean. -/
theorem Becomes.containsPlaceholder_of_parts (h : Becomes V s v) (hv : v.Clean)
    (hV : ∀ p v v', V p v → V p v' → v = v') (hparse : parse s = .ok ps) (ht : TextOf V ps t) :
    containsPlaceholder t = false := by
  cases h with
  | same hs =>
    have hcut := parts_eq_ok_iff.1 hparse
    have hnone : ∀ p, .reference p ∉ ps := fun p hp =>
      containsPlaceholder_eq_false_iff.1 hs (hcut.exists_reference_iff.1 ⟨p, hp⟩)
    rw [containsPlaceholder_eq_false_iff, ht.toList_eq hnone, hcut.flatMap_source,
      ← containsPlaceholder_eq_false_iff]
    exact hs
  | single _ hparse' hVv =>
    cases hparse.symm.trans hparse'
    cases ht with
    | reference hVu htext hrest =>
      cases hrest
      rw [String.append_empty]
      exact Placeholder.containsPlaceholder_of_interpolate (hV _ _ _ hVv hVu ▸ hv) htext
  | text _ hparse' _ ht' =>
    cases hparse.symm.trans hparse'
    rw [ht.unique ht' hV]
    exact Value.clean_string_iff.1 hv

/-- A string that becomes something clean is tidy. -/
theorem Becomes.tidy (h : Becomes V s v) (hv : v.Clean) (hV : ∀ p v v', V p v → V p v' → v = v') :
    Tidy V s where
  fallback p hp text _ hVp := by
    cases h with
    | same hs => cases hs.symm.trans (Lookup.containsPlaceholder_of_mem hp)
    | single _ hparse hVv =>
      have hmem := (Lookup.mem_placeholdersOf_iff hparse).1 hp
      cases List.mem_singleton.1 hmem
      cases hV _ _ _ hVv hVp
      exact Value.clean_string_iff.1 hv
    | text _ hparse _ ht =>
      have hmem := (Lookup.mem_placeholdersOf_iff hparse).1 hp
      obtain ⟨u, text', hVu, htext, hclean'⟩ :=
        ht.containsPlaceholder_of_mem (Value.clean_string_iff.1 hv) hmem
      cases hV _ _ _ hVu hVp
      cases htext
      exact hclean'
  seam qs rs t u hparse ht hu := by
    have hclean := h.containsPlaceholder_of_parts hv hV hparse (ht.append hu)
    exact (containsPlaceholder_append_eq_false_iff.1 hclean).2.2

end Texts

/-- A placeholder stands for one thing only. -/
theorem StandsFor.unique {options : ResolverOptions} {env : Environment} {before after : Document}
    {p : Placeholder} {v v' : Value} (h : StandsFor options env before after p v)
    (h' : StandsFor options env before after p v') : v = v' := by
  cases h <;> cases h' <;> simp_all

namespace Lookup

variable {l : Lookup} {p : Placeholder} {v : Value} {s : String} {stack : List String} {n : Nat}
  {V : Placeholder → Value → Prop}

/-- In a document of tidy strings, placeholders have values that are clean. -/
theorem clean_of_plain (hglobals : l.options.globals.Clean) (henv : l.env.Clean)
    (hscope : ∀ path, l.scope.isFinalized path = false) (hV : ∀ p v, l.HasValue p v → V p v)
    (htidy : ∀ s ∈ Value.stringsOfEntries l.snapshot, Tidy V s)
    (hs : s ∈ Value.stringsOfEntries l.snapshot) (hp : p ∈ placeholdersOf s)
    (h : l.plain n stack p = pure v) : v.Clean := by
  induction n using Nat.strongRecOn generalizing stack p v s with
  | ind n ih =>
    rcases plain_eq_pure_iff.1 h with haim | ⟨path, target, m, haim, -, hn, hres⟩
    · rcases clean_or_fallback_of_aim hglobals henv hscope haim with hclean | ⟨text, htext, rfl⟩
      · exact hclean
      · exact Value.clean_string_iff.2
          ((htidy s hs).fallback p hp text htext (hV p _ (hasValue_of_plain h)))
    · obtain ⟨-, -, hget, -⟩ := aim_eq_place_iff.1 haim
      intro t ht
      obtain ⟨s', hs', u, hu, hmem⟩ := hres.exists_of_mem_right t ht
      have hs' := Value.strings_subset_of_documentGet? hget hs'
      refine hu.clean (htidy s' hs') (fun q _ w hw => hV q w (hasValue_of_plain hw)) ?_ t hmem
      exact fun q hq w hw => ih m (by omega) hs' hq hw

end Lookup

namespace Resolver

variable {options : ResolverOptions} {env : Environment} {before after : Document}

/-- **When resolving again changes nothing.** As long as globals and variables hold no beginning of a
placeholder, a pass over the result of a pass leaves it as it is exactly when each string was put together
without a fallback that holds one and without one that arises between two parts. -/
theorem resolve_again_iff (hglobals : options.globals.Clean) (henv : env.Clean)
    (h : (placeholders options env).resolve before none = ⟨after, none⟩) :
    (placeholders options env).resolve after none = ⟨after, none⟩ ↔
      ∀ s ∈ Value.stringsOfEntries before, Tidy (StandsFor options env before after) s := by
  set l : Lookup := ⟨options, env, before, .all⟩
  have hafter : Value.ReplacedEntries (Becomes l.HasValue) before after :=
    replacedIn_all_iff.1 (Lookup.run_eq_ok_iff.1 h)
  have hstands : ∀ p v, l.HasValue p v → StandsFor options env before after p v := fun p v hv =>
    Lookup.standsFor_of_hasValue (l := l) (fun _ => rfl) hafter hv
  rw [resolve_self_iff hglobals henv]
  constructor
  · intro hclean s hs
    obtain ⟨u, hu, hsub⟩ := hafter.exists_of_mem s hs
    have hu' : Becomes (StandsFor options env before after) s u := hu.imp fun p _ => hstands p
    exact hu'.tidy (fun t ht => hclean t (hsub ht)) fun _ _ _ => StandsFor.unique
  · intro htidy t ht
    obtain ⟨s, hs, u, hu, hmem⟩ := hafter.exists_of_mem_right t ht
    refine hu.clean (htidy s hs) (fun p _ => hstands p) (fun p hp v hv => ?_) t hmem
    obtain ⟨n, hn⟩ := hv
    exact Lookup.clean_of_plain (l := l) hglobals henv (fun _ => rfl) hstands htidy hs hp hn

/-- A document with a dollar sign before what is put in, and one in a fallback. -/
def priced : Document :=
  [("price", .string "$${amount}"), ("amount", .number (.int 5)), ("note", .string "${remark:-in $}")]

/-- What becomes of it. -/
def printed : Document :=
  [("price", .string "$5"), ("amount", .number (.int 5)), ("note", .string "in $")]

/-- No brace follows either dollar sign in the end. -/
theorem resolve_priced :
    Document.Clean [] ∧ Environment.Clean [] ∧
      (placeholders {} []).resolve priced none = ⟨printed, none⟩ ∧
      ∀ s ∈ Value.stringsOfEntries priced, Tidy (StandsFor {} [] priced printed) s := by
  have hglobals : Document.Clean [] := by simp [Document.Clean, Value.stringsOfEntries]
  have henv : Environment.Clean [] := by simp [Environment.Clean, Environment.lookup]
  have honce : (placeholders {} []).resolve priced none = ⟨printed, none⟩ := by decide +kernel
  have htwice : (placeholders {} []).resolve printed none = ⟨printed, none⟩ := by decide +kernel
  exact ⟨hglobals, henv, honce, (resolve_again_iff hglobals henv honce).1 htwice⟩

/-- A document in which the beginning of a placeholder arises. -/
def seamed : Document :=
  [("text", .string "$${rest}"), ("rest", .string "\x7bname\x7d"), ("name", .string "Ann")]

/-- Resolving again can change something although there are neither globals nor variables. -/
theorem not_resolve_again :
    ¬ ∀ (options : ResolverOptions) (env : Environment) (before after : Document),
      options.globals.Clean → env.Clean →
      (placeholders options env).resolve before none = ⟨after, none⟩ →
      (placeholders options env).resolve after none = ⟨after, none⟩ := by
  intro hagain
  have hglobals : Document.Clean [] := by simp [Document.Clean, Value.stringsOfEntries]
  have henv : Environment.Clean [] := by simp [Environment.Clean, Environment.lookup]
  have honce : (placeholders {} []).resolve seamed none = ⟨[("text", .string "$\x7bname\x7d"),
      ("rest", .string "\x7bname\x7d"), ("name", .string "Ann")], none⟩ := by decide +kernel
  have htwice := hagain {} [] _ _ hglobals henv honce
  revert htwice
  decide +kernel

end Resolver

end ConfigTree
