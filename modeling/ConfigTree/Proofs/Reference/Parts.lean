import ConfigTree.Reference.Template
import Mathlib.Data.List.Infix
import Mathlib.Tactic.SplitIfs

/-!
# The parts of a text

A text is cut at the first beginning of a placeholder, at the first closing brace after it, and so on
in what is left. The result can be told without cutting: `Cut cs ps` says that the parts stand in the
text one after another, that no beginning of a placeholder stands before the first placeholder, and no
closing brace in the body of one. Cutting gives such parts when there are some (`parts_eq_ok_iff`).
-/

namespace ConfigTree

/-- A failure that is not a cycle. -/
def ReferenceError.NoCycle (e : ReferenceError) : Prop := ∀ chain, e ≠ .cycle chain

namespace Template

variable {a b : Char} {cs before after body rest : List Char} {ps : List Part} {p : Placeholder}

/-! ### Where a text is split -/

theorem pair_infix_cons_iff {c : Char} :
    [a, b] <:+: c :: cs ↔ (c = a ∧ cs.head? = some b) ∨ [a, b] <:+: cs := by
  rw [List.infix_cons_iff]
  refine or_congr_left ?_
  cases cs with
  | nil => simp [List.cons_prefix_cons]
  | cons d cs => simp [List.cons_prefix_cons, eq_comm]

theorem splitAtPair_eq_none_iff : splitAtPair a b cs = none ↔ ¬ [a, b] <:+: cs := by
  fun_induction splitAtPair a b cs with
  | case1 => simp
  | case2 c => simp [pair_infix_cons_iff]
  | case3 c d rest h => simp [pair_infix_cons_iff, h]
  | case4 c d rest h ih =>
    rw [Option.map_eq_none_iff, ih, pair_infix_cons_iff (c := c)]
    simp [h]

theorem splitAtPair_append (hab : a ≠ b) (h : ¬ [a, b] <:+: before) :
    splitAtPair a b (before ++ a :: b :: after) = some (before, after) := by
  induction before with
  | nil => simp [splitAtPair]
  | cons c before ih =>
    rw [pair_infix_cons_iff, not_or] at h
    cases before with
    | nil =>
      rw [List.singleton_append, splitAtPair, if_neg fun hc => hab hc.2]
      simp [splitAtPair]
    | cons d before =>
      have hcd : ¬ (c = a ∧ d = b) := by simpa using h.1
      rw [List.cons_append, List.cons_append, splitAtPair, if_neg hcd, ← List.cons_append,
        ih h.2]
      rfl

theorem eq_of_splitAtPair (h : splitAtPair a b cs = some (before, after)) :
    cs = before ++ a :: b :: after := by
  fun_induction splitAtPair a b cs generalizing before with
  | case1 => cases h
  | case2 c => cases h
  | case3 c d rest hcd =>
    cases h
    rw [hcd.1, hcd.2]
    rfl
  | case4 c d rest hcd ih =>
    obtain ⟨r, hr, heq⟩ := Option.map_eq_some_iff.1 h
    cases heq
    rw [ih hr]
    rfl

theorem not_infix_of_splitAtPair (h : splitAtPair a b cs = some (before, after)) :
    ¬ [a, b] <:+: before := by
  fun_induction splitAtPair a b cs generalizing before with
  | case1 => cases h
  | case2 c => cases h
  | case3 c d rest hcd =>
    cases h
    simp
  | case4 c d rest hcd ih =>
    obtain ⟨r, hr, heq⟩ := Option.map_eq_some_iff.1 h
    cases heq
    rw [pair_infix_cons_iff, not_or]
    refine ⟨?_, ih hr⟩
    rintro ⟨hc, hhead⟩
    have hd : (d :: rest).head? = some b := by
      rw [eq_of_splitAtPair hr, List.head?_append, hhead]
      rfl
    exact hcd ⟨hc, Option.some.inj hd⟩

theorem splitAtChar_append (h : a ∉ before) :
    splitAtChar a (before ++ a :: after) = some (before, after) := by
  induction before with
  | nil => simp [splitAtChar]
  | cons c before ih =>
    rw [List.mem_cons, not_or] at h
    rw [List.cons_append, splitAtChar, if_neg (Ne.symm h.1), ih h.2]
    rfl

theorem eq_of_splitAtChar (h : splitAtChar a cs = some (before, after)) :
    cs = before ++ a :: after ∧ a ∉ before := by
  induction cs generalizing before with
  | nil => cases h
  | cons c cs ih =>
    rw [splitAtChar] at h
    split_ifs at h with hc
    · cases h
      simp [hc]
    · obtain ⟨r, hr, heq⟩ := Option.map_eq_some_iff.1 h
      cases heq
      obtain ⟨hcs, hmem⟩ := ih hr
      exact ⟨by rw [List.cons_append, ← hcs], by simp [hmem, Ne.symm hc]⟩

/-! ### How a text is cut -/

theorem parts_of_none (h : splitAtPair '$' '\x7b' cs = none) : parts cs = .ok (literalPart cs) := by
  rw [parts]
  split
  · rfl
  · next heq => cases h.symm.trans heq

theorem parts_of_unclosed (hopened : splitAtPair '$' '\x7b' cs = some (before, after))
    (hclosed : splitAtChar '\x7d' after = none) :
    parts cs = .error (.malformed (String.ofList ('$' :: '\x7b' :: after)) "missing closing '\x7d'") := by
  rw [parts]
  split
  · next heq => cases hopened.symm.trans heq
  · next heq =>
    cases hopened.symm.trans heq
    split
    · rfl
    · next heq => cases hclosed.symm.trans heq

theorem parts_of_malformed {e : ReferenceError}
    (hopened : splitAtPair '$' '\x7b' cs = some (before, after))
    (hclosed : splitAtChar '\x7d' after = some (body, rest)) (hp : placeholderOf body = .error e) :
    parts cs = .error e := by
  rw [parts]
  split
  · next heq => cases hopened.symm.trans heq
  · next heq =>
    cases hopened.symm.trans heq
    split
    · next heq => cases hclosed.symm.trans heq
    · next heq =>
      cases hclosed.symm.trans heq
      rw [hp]

theorem parts_of_placeholder (hopened : splitAtPair '$' '\x7b' cs = some (before, after))
    (hclosed : splitAtChar '\x7d' after = some (body, rest)) (hp : placeholderOf body = .ok p) :
    parts cs = (parts rest).map fun ps => literalPart before ++ .reference p :: ps := by
  rw [parts]
  split
  · next heq => cases hopened.symm.trans heq
  · next heq =>
    cases hopened.symm.trans heq
    split
    · next heq => cases hclosed.symm.trans heq
    · next heq =>
      cases hclosed.symm.trans heq
      rw [hp]

theorem noCycle_of_placeholderOf {e : ReferenceError} (h : placeholderOf body = .error e) :
    e.NoCycle := by
  simp only [placeholderOf] at h
  split at h
  · cases h
    rintro _ ⟨⟩
  · cases h

/-- What breaks the grammar is not a cycle. -/
theorem noCycle_of_parts {e : ReferenceError} (h : parts cs = .error e) : e.NoCycle := by
  induction cs using parts.induct with
  | case1 cs hnone =>
    rw [parts_of_none hnone] at h
    cases h
  | case2 cs before after hopened hclosed =>
    rw [parts_of_unclosed hopened hclosed] at h
    cases h
    rintro _ ⟨⟩
  | case3 cs before after hopened body rest hclosed e' hp =>
    rw [parts_of_malformed hopened hclosed hp] at h
    cases h
    exact noCycle_of_placeholderOf hp
  | case4 cs before after hopened body rest hclosed p hp ih =>
    rw [parts_of_placeholder hopened hclosed hp] at h
    cases hrest : parts rest with
    | error e' =>
      rw [hrest] at h
      cases h
      exact ih hrest
    | ok ps =>
      rw [hrest] at h
      cases h

/-- The text consists of these parts: there is nothing like a placeholder in what stands for itself. -/
inductive Cut : List Char → List Part → Prop
  /-- A text without a beginning of a placeholder is one part, or none. -/
  | plain {cs : List Char} : ¬ ['$', '\x7b'] <:+: cs → Cut cs (literalPart cs)
  /-- Some text, a placeholder, and what follows it. -/
  | placeholder {before body rest : List Char} {p : Placeholder} {ps : List Part} :
      ¬ ['$', '\x7b'] <:+: before → '\x7d' ∉ body → placeholderOf body = .ok p → Cut rest ps →
      Cut (before ++ '$' :: '\x7b' :: (body ++ '\x7d' :: rest)) (literalPart before ++ .reference p :: ps)

/-- Cutting gives the parts that a text consists of. -/
theorem parts_eq_ok_iff : parts cs = .ok ps ↔ Cut cs ps := by
  constructor
  · intro h
    induction cs using parts.induct generalizing ps with
    | case1 cs hnone =>
      rw [parts_of_none hnone] at h
      cases h
      exact .plain (splitAtPair_eq_none_iff.1 hnone)
    | case2 cs before after hopened hclosed =>
      rw [parts_of_unclosed hopened hclosed] at h
      cases h
    | case3 cs before after hopened body rest hclosed e' hp =>
      rw [parts_of_malformed hopened hclosed hp] at h
      cases h
    | case4 cs before after hopened body rest hclosed p hp ih =>
      rw [parts_of_placeholder hopened hclosed hp] at h
      cases hrest : parts rest with
      | error e' =>
        rw [hrest] at h
        cases h
      | ok qs =>
        rw [hrest] at h
        cases h
        obtain ⟨hafter, hbody⟩ := eq_of_splitAtChar hclosed
        rw [eq_of_splitAtPair hopened, hafter]
        exact .placeholder (not_infix_of_splitAtPair hopened) hbody hp (ih hrest)
  · intro h
    induction h with
    | plain hnone => exact parts_of_none (splitAtPair_eq_none_iff.2 hnone)
    | placeholder hbefore hbody hp _ ih =>
      rw [parts_of_placeholder (splitAtPair_append (by decide) hbefore) (splitAtChar_append hbody) hp, ih]
      rfl

/-! ### Texts that hold a beginning of a placeholder -/

/-- A text put together of two holds the pair in one of them, or where they meet. -/
theorem pair_infix_append_iff {ds : List Char} :
    [a, b] <:+: cs ++ ds ↔
      [a, b] <:+: cs ∨ [a, b] <:+: ds ∨ cs.getLast? = some a ∧ ds.head? = some b := by
  induction cs with
  | nil => simp
  | cons c cs ih =>
    rw [List.cons_append, pair_infix_cons_iff, ih, pair_infix_cons_iff]
    cases cs with
    | nil => simp [or_comm]
    | cons d cs =>
      rw [List.getLast?_cons_cons, List.cons_append, List.head?_cons, List.head?_cons]
      tauto

theorem containsPlaceholder_eq_false_iff {text : String} :
    containsPlaceholder text = false ↔ ¬ ['$', '\x7b'] <:+: text.toList := by
  rw [containsPlaceholder, Option.isSome_eq_false_iff, Option.isNone_iff_eq_none,
    splitAtPair_eq_none_iff]

theorem containsPlaceholder_iff {text : String} :
    containsPlaceholder text = true ↔ ['$', '\x7b'] <:+: text.toList := by
  rw [← Bool.not_eq_false, containsPlaceholder_eq_false_iff, not_not]

/-- A beginning of a placeholder stands where the first text ends and the second begins. -/
def Seam (t u : String) : Prop := t.toList.getLast? = some '$' ∧ u.toList.head? = some '\x7b'

theorem Seam.append_left {t u : String} (h : Seam t u) (before : String) : Seam (before ++ t) u := by
  refine ⟨?_, h.2⟩
  rw [String.toList_append, List.getLast?_append, h.1]
  rfl

theorem containsPlaceholder_append_eq_false_iff {t u : String} :
    containsPlaceholder (t ++ u) = false ↔
      containsPlaceholder t = false ∧ containsPlaceholder u = false ∧ ¬ Seam t u := by
  simp only [containsPlaceholder_eq_false_iff, String.toList_append, pair_infix_append_iff, not_or,
    Seam]

/-! ### What parts were cut from -/

/-- The characters that a part was cut from. -/
def source : Part → List Char
  | .literal text => text.toList
  | .reference p => p.raw.toList

theorem flatMap_source_literalPart (cs : List Char) : (literalPart cs).flatMap source = cs := by
  rw [literalPart]
  cases cs <;> simp [source]

theorem raw_of_placeholderOf (h : placeholderOf body = .ok p) :
    p.raw.toList = '$' :: '\x7b' :: (body ++ ['\x7d']) := by
  simp only [placeholderOf] at h
  split at h
  · cases h
  · cases h
    exact String.toList_ofList

theorem containsPlaceholder_raw (h : placeholderOf body = .ok p) :
    containsPlaceholder p.raw = true :=
  containsPlaceholder_iff.2 ⟨[], body ++ ['\x7d'], (raw_of_placeholderOf h).symm⟩

/-- A fallback is shorter than its placeholder. -/
theorem length_fallback_lt (h : placeholderOf body = .ok p) {text : String}
    (htext : p.fallback = some text) : text.toList.length < p.raw.toList.length := by
  have hraw := raw_of_placeholderOf h
  simp only [placeholderOf] at h
  split at h
  · cases h
  · cases h
    obtain ⟨fallback, hfallback, rfl⟩ := Option.map_eq_some_iff.1 htext
    rw [splitFallback] at hfallback
    split at hfallback
    · next reference rest hsplit =>
      cases hfallback
      have hlt := length_of_splitAtPair hsplit
      rw [hraw, String.toList_ofList]
      simp only [List.length_cons, List.length_append]
      omega
    · cases hfallback

/-- The parts of a text, one after another, are the text. -/
theorem Cut.flatMap_source (h : Cut cs ps) : ps.flatMap source = cs := by
  induction h with
  | plain => exact flatMap_source_literalPart _
  | placeholder _ _ hp _ ih =>
    rw [List.flatMap_append, flatMap_source_literalPart, List.flatMap_cons, ih, source,
      raw_of_placeholderOf hp]
    simp

theorem eq_of_mem_literalPart {part : Part} (h : part ∈ literalPart cs) :
    part = .literal (String.ofList cs) := by
  rw [literalPart] at h
  split at h
  · cases h
  · exact List.mem_singleton.1 h

/-- A placeholder among the parts comes from a body. -/
theorem Cut.exists_body (h : Cut cs ps) (hp : .reference p ∈ ps) :
    ∃ body, placeholderOf body = .ok p := by
  induction h with
  | plain => cases eq_of_mem_literalPart hp
  | placeholder _ _ hbody _ ih =>
    rcases List.mem_append.1 hp with hp | hp
    · cases eq_of_mem_literalPart hp
    · rcases List.mem_cons.1 hp with hp | hp
      · cases hp
        exact ⟨_, hbody⟩
      · exact ih hp

/-- What stands for itself holds no beginning of a placeholder. -/
theorem Cut.containsPlaceholder_literal (h : Cut cs ps) {text : String} (ht : .literal text ∈ ps) :
    containsPlaceholder text = false := by
  rw [containsPlaceholder_eq_false_iff]
  induction h with
  | plain hnone =>
    cases eq_of_mem_literalPart ht
    rwa [String.toList_ofList]
  | placeholder hbefore _ _ _ ih =>
    rcases List.mem_append.1 ht with ht | ht
    · cases eq_of_mem_literalPart ht
      rwa [String.toList_ofList]
    · exact ih (by simpa using ht)

/-- A text has a placeholder when and only when it holds the beginning of one. -/
theorem Cut.exists_reference_iff (h : Cut cs ps) :
    (∃ p, .reference p ∈ ps) ↔ ['$', '\x7b'] <:+: cs := by
  cases h with
  | plain hnone =>
    refine iff_of_false (fun ⟨p, hp⟩ => ?_) hnone
    cases eq_of_mem_literalPart hp
  | @placeholder before body rest p =>
    refine iff_of_true ⟨p, List.mem_append_right _ List.mem_cons_self⟩ ?_
    exact ⟨before, body ++ '\x7d' :: rest, by simp⟩

end Template

end ConfigTree
