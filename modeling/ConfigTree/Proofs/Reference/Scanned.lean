import ConfigTree.Proofs.Reference.Body
import ConfigTree.Proofs.Reference.Related

/-!
# What the scanner of placeholders finds

A text is scanned from the left for the beginning of a placeholder, and what stands between this and the
next closing brace is its body, whatever it holds: another beginning of a placeholder is swallowed. Scanning
goes on behind the brace.

Is anything lost on the way, and is anything found that is not there? The parts can be told without a scanner.
They are the text, one after another; those that stand for themselves are not empty, hold no beginning of a
placeholder and are never next to each other; and each of the others is closed by its first brace and says
what its body says (`Scanned`). No other parts are like that, so these are the parts that the scanner gives
(`parts_eq_ok_iff_scanned`).

It gives none exactly where it meets a beginning that is not closed, or a body without a path. Beginnings
inside an earlier placeholder are not met (`Meets`).
-/

namespace ConfigTree

open Placeholder

namespace Template

variable {cs after : List Char} {ps : List Part}

/-! ### The parts of a text -/

/-- The text is one placeholder as it is written: it begins like one, and its only closing brace ends it. -/
def Enclosed (cs : List Char) : Prop := ∃ body, cs = '$' :: '\x7b' :: (body ++ ['\x7d']) ∧ '\x7d' ∉ body

/-- Not both of the parts stand for themselves. -/
def Apart (a b : Part) : Prop := ∀ text text', ¬ (a = .literal text ∧ b = .literal text')

/-- The parts are those of the text. -/
structure Scanned (cs : List Char) (ps : List Part) : Prop where
  /-- One after another, they are the text. -/
  lossless : ps.flatMap source = cs
  /-- What stands for itself is not empty and holds no beginning of a placeholder. -/
  literal : ∀ text, .literal text ∈ ps → text ≠ "" ∧ ¬ ['$', '\x7b'] <:+: text.toList
  /-- No two parts that stand for themselves are next to each other. -/
  apart : ps.IsChain Apart
  /-- A placeholder is closed by the first closing brace and says what its body says. -/
  reference : ∀ p, .reference p ∈ ps → ∃ body, '\x7d' ∉ body ∧ p.Says body

theorem Scanned.tail {part : Part} (h : Scanned cs (part :: ps)) : Scanned (ps.flatMap source) ps where
  lossless := rfl
  literal text ht := h.literal text (List.mem_cons_of_mem _ ht)
  apart := h.apart.of_cons
  reference p hp := h.reference p (List.mem_cons_of_mem _ hp)

theorem literalPart_of_ne_nil (h : cs ≠ []) : literalPart cs = [.literal (String.ofList cs)] := by
  rw [literalPart, if_neg (by simpa using h)]

/-- A text without a beginning of a placeholder may be put in front of parts that begin with a placeholder. -/
theorem Cut.literal_cons {text : String} (h : Cut cs ps) (hne : text ≠ "")
    (hplain : ¬ ['$', '\x7b'] <:+: text.toList) (hps : ∀ text', ps.head? ≠ some (.literal text')) :
    Cut (text.toList ++ cs) (.literal text :: ps) := by
  have htext : literalPart text.toList = [.literal text] := by
    rw [literalPart_of_ne_nil (by simpa using hne), String.ofList_toList]
  cases h with
  | @plain cs hcs =>
    by_cases hnil : cs = []
    · subst hnil
      rw [List.append_nil]
      exact htext ▸ .plain hplain
    · rw [literalPart_of_ne_nil hnil] at hps
      exact absurd rfl (hps _)
  | @placeholder before body rest p qs hbefore hbody hp hrest =>
    by_cases hnil : before = []
    · subst hnil
      have hcut := Cut.placeholder hplain hbody hp hrest
      rw [htext] at hcut
      exact hcut
    · rw [literalPart_of_ne_nil hnil] at hps
      exact absurd rfl (hps _)

theorem cut_of_scanned (h : Scanned cs ps) : Cut cs ps := by
  induction ps generalizing cs with
  | nil =>
    cases h.lossless
    exact .plain (by simp)
  | cons part ps ih =>
    have hrest := ih h.tail
    rw [← h.lossless, List.flatMap_cons]
    cases part with
    | literal text =>
      obtain ⟨hne, hplain⟩ := h.literal text List.mem_cons_self
      refine hrest.literal_cons hne hplain fun text' hhead => ?_
      obtain ⟨qs, rfl⟩ := List.head?_eq_some_iff.1 hhead
      exact (List.isChain_cons_cons.1 h.apart).1 text text' ⟨rfl, rfl⟩
    | reference p =>
      obtain ⟨body, hbody, hmeans⟩ := h.reference p List.mem_cons_self
      rw [source, hmeans.raw]
      simpa using hrest.reference_cons hbody hmeans

theorem ne_empty_of_mem_literalPart {text : String} (h : .literal text ∈ literalPart cs) : text ≠ "" := by
  rintro rfl
  rw [literalPart] at h
  split at h
  · cases h
  · next hne =>
    have htext := Part.literal.inj (List.mem_singleton.1 h)
    rw [List.isEmpty_iff, ← String.ofList_eq_empty_iff] at hne
    exact hne htext.symm

/-- Between two parts that stand for themselves there is a placeholder. -/
theorem isChain_literalPart_append (cs : List Char) (p : Placeholder) (h : ps.IsChain Apart) :
    (literalPart cs ++ .reference p :: ps).IsChain Apart := by
  have hcons : (.reference p :: ps : List Part).IsChain Apart := by
    cases ps with
    | nil => exact .singleton _
    | cons part ps => exact .cons_cons (fun _ _ hne => nomatch hne.1) h
  rw [literalPart]
  split
  · exact hcons
  · exact .cons_cons (fun _ _ hne => nomatch hne.2) hcons

theorem scanned_of_cut (h : Cut cs ps) : Scanned cs ps where
  lossless := h.flatMap_source
  literal text ht := by
    refine ⟨?_, containsPlaceholder_eq_false_iff.1 (h.containsPlaceholder_literal ht)⟩
    induction h with
    | plain => exact ne_empty_of_mem_literalPart ht
    | placeholder _ _ _ _ ih =>
      rcases List.mem_append.1 ht with ht | ht
      · exact ne_empty_of_mem_literalPart ht
      · exact ih (by simpa using ht)
  apart := by
    induction h with
    | @plain cs =>
      rw [literalPart]
      split
      · exact .nil
      · exact .singleton _
    | @placeholder before body rest p ps _ _ _ _ ih => exact isChain_literalPart_append before p ih
  reference p hp := by
    induction h with
    | plain => cases eq_of_mem_literalPart hp
    | placeholder _ hbody hmeans _ ih =>
      rcases List.mem_append.1 hp with hp | hp
      · cases eq_of_mem_literalPart hp
      · rcases List.mem_cons.1 hp with hp | hp
        · cases hp
          exact ⟨_, hbody, placeholderOf_eq_ok_iff.1 hmeans⟩
        · exact ih hp

/-- The scanner gives the parts of the text. -/
theorem parts_eq_ok_iff_scanned : parts cs = .ok ps ↔ Scanned cs ps :=
  parts_eq_ok_iff.trans ⟨scanned_of_cut, cut_of_scanned⟩

/-! ### What the parts tell of the text -/

theorem hasReferences_iff : hasReferences ps = true ↔ ∃ p, .reference p ∈ ps := by
  rw [hasReferences, List.any_eq_true]
  constructor
  · rintro ⟨part, hpart, h⟩
    cases part with
    | literal text => cases h
    | reference p => exact ⟨p, hpart⟩
  · rintro ⟨p, hp⟩
    exact ⟨_, hp, rfl⟩

/-- There is a placeholder among the parts where the text holds the beginning of one. -/
theorem Scanned.hasReferences_eq {text : String} (h : Scanned text.toList ps) :
    hasReferences ps = containsPlaceholder text := by
  rw [Bool.eq_iff_iff, hasReferences_iff, containsPlaceholder_iff]
  exact (cut_of_scanned h).exists_reference_iff

/-- What is written as one placeholder has it as its only part. -/
theorem Scanned.eq_singleton (h : Scanned cs ps) (henclosed : Enclosed cs) : ∃ p, ps = [.reference p] := by
  obtain ⟨body, hcs, hbody⟩ := henclosed
  cases cut_of_scanned h with
  | plain hplain => exact absurd ⟨[], body ++ ['\x7d'], by simp [hcs]⟩ hplain
  | @placeholder before body' rest p qs hbefore hbody' hp hrest =>
    -- Both writings of the text are split at the same beginning and at the same brace.
    have hopen : splitAtPair '$' '\x7b' ([] ++ '$' :: '\x7b' :: (body ++ '\x7d' :: [])) =
        some ([], body ++ '\x7d' :: []) := splitAtPair_append (by decide) (by simp)
    rw [List.nil_append, ← hcs, splitAtPair_append (by decide) hbefore] at hopen
    obtain ⟨rfl, hafter⟩ := Prod.mk.inj (Option.some.inj hopen)
    have hclose : splitAtChar '\x7d' (body ++ ['\x7d']) = some (body, []) := splitAtChar_append hbody
    rw [← hafter, splitAtChar_append hbody'] at hclose
    obtain ⟨rfl, rfl⟩ := Prod.mk.inj (Option.some.inj hclose)
    have hqs : qs = [] := by
      rw [← parts_eq_ok_iff, parts_of_none rfl] at hrest
      exact (Except.ok.inj hrest).symm
    exact ⟨p, by rw [hqs]; rfl⟩

/-- There is one placeholder and nothing else where the text is written as one. -/
theorem Scanned.isSome_single?_iff (h : Scanned cs ps) : (single? ps).isSome = true ↔ Enclosed cs := by
  constructor
  · intro hsome
    obtain ⟨p, hp⟩ := Option.isSome_iff_exists.1 hsome
    obtain ⟨body, hbody, hmeans⟩ := h.reference p (Lookup.eq_of_single?_eq_some hp ▸ List.mem_singleton_self _)
    refine ⟨body, ?_, hbody⟩
    rw [← h.lossless, Lookup.eq_of_single?_eq_some hp, ← hmeans.raw]
    simp [source]
  · intro henclosed
    obtain ⟨p, rfl⟩ := h.eq_singleton henclosed
    rfl

/-! ### Texts that are refused -/

/-- Scanning the first text from the left meets a beginning of a placeholder behind which stands the second
text: the first one that there is, or one in what follows the placeholder that begins there. -/
inductive Meets : List Char → List Char → Prop
  | first {before after : List Char} : ¬ ['$', '\x7b'] <:+: before →
      Meets (before ++ '$' :: '\x7b' :: after) after
  | later {before body rest after : List Char} : ¬ ['$', '\x7b'] <:+: before → '\x7d' ∉ body →
      Meets rest after → Meets (before ++ '$' :: '\x7b' :: (body ++ '\x7d' :: rest)) after

/-- What follows a beginning of a placeholder does not make it one: it is not closed, or it has no path. -/
def Broken (after : List Char) : Prop :=
  '\x7d' ∉ after ∨ ∃ body rest, after = body ++ '\x7d' :: rest ∧ '\x7d' ∉ body ∧ Pathless body

/-- The scanner fails where it meets something that does not make a placeholder. -/
theorem exists_parts_eq_error_iff :
    (∃ e, parts cs = .error e) ↔ ∃ after, Meets cs after ∧ Broken after := by
  constructor
  · rintro ⟨e, h⟩
    induction cs using parts.induct generalizing e with
    | case1 cs hnone =>
      rw [parts_of_none hnone] at h
      cases h
    | case2 cs before after hopened hclosed =>
      rw [eq_of_splitAtPair hopened]
      exact ⟨after, .first (not_infix_of_splitAtPair hopened), .inl (splitAtChar_eq_none_iff.1 hclosed)⟩
    | case3 cs before after hopened body rest hclosed e' hp =>
      obtain ⟨hafter, hbody⟩ := eq_of_splitAtChar hclosed
      rw [eq_of_splitAtPair hopened]
      exact ⟨after, .first (not_infix_of_splitAtPair hopened),
        .inr ⟨body, rest, hafter, hbody, exists_placeholderOf_eq_error_iff.1 ⟨e', hp⟩⟩⟩
    | case4 cs before after hopened body rest hclosed p hp ih =>
      rw [parts_of_placeholder hopened hclosed hp] at h
      obtain ⟨hafter, hbody⟩ := eq_of_splitAtChar hclosed
      cases hrest : parts rest with
      | ok ps =>
        rw [hrest] at h
        cases h
      | error e' =>
        obtain ⟨after', hmeets, hbroken⟩ := ih e' hrest
        rw [eq_of_splitAtPair hopened, hafter]
        exact ⟨after', .later (not_infix_of_splitAtPair hopened) hbody hmeets, hbroken⟩
  · rintro ⟨after, hmeets, hbroken⟩
    induction hmeets with
    | @first before after hbefore =>
      have hopened : splitAtPair '$' '\x7b' (before ++ '$' :: '\x7b' :: after) = some (before, after) :=
        splitAtPair_append (by decide) hbefore
      rcases hbroken with hclosed | ⟨body, rest, rfl, hbody, hpath⟩
      · exact ⟨_, parts_of_unclosed hopened (splitAtChar_eq_none_iff.2 hclosed)⟩
      · obtain ⟨e, he⟩ := exists_placeholderOf_eq_error_iff.2 hpath
        exact ⟨e, parts_of_malformed hopened (splitAtChar_append hbody) he⟩
    | @later before body rest after hbefore hbody _ ih =>
      obtain ⟨e, he⟩ := ih hbroken
      have hopened : splitAtPair '$' '\x7b' (before ++ '$' :: '\x7b' :: (body ++ '\x7d' :: rest)) =
          some (before, body ++ '\x7d' :: rest) := splitAtPair_append (by decide) hbefore
      have hclosed : splitAtChar '\x7d' (body ++ '\x7d' :: rest) = some (body, rest) := splitAtChar_append hbody
      -- An earlier placeholder may be broken too, and then the scanner stops there.
      cases hp : placeholderOf body with
      | error e' => exact ⟨e', parts_of_malformed hopened hclosed hp⟩
      | ok p => exact ⟨e, by rw [parts_of_placeholder hopened hclosed hp, he]; rfl⟩

/-- **The scanner loses nothing and finds what is there.** It gives exactly the parts of the text. Among them
is a placeholder if the text holds the beginning of one, and nothing but a placeholder if the text is written
as one. It gives none exactly where scanning the text from the left meets a beginning of a placeholder that is
not closed, or a placeholder without a path. -/
theorem parse_scans (text : String) :
    (∀ ps, parse text = .ok ps ↔ Scanned text.toList ps) ∧
    (∀ ps, parse text = .ok ps → hasReferences ps = containsPlaceholder text ∧
      ((single? ps).isSome = true ↔ Enclosed text.toList)) ∧
    ((∃ e, parse text = .error e) ↔ ∃ after, Meets text.toList after ∧ Broken after) := by
  refine ⟨fun ps => parts_eq_ok_iff_scanned, fun ps h => ?_, exists_parts_eq_error_iff⟩
  have hscanned := parts_eq_ok_iff_scanned.1 h
  exact ⟨hscanned.hasReferences_eq, hscanned.isSome_single?_iff⟩

/-- A text in which a dollar sign stands before a placeholder, a colon before which there is no name splits
nothing, a second colon with a minus sign belongs to the fallback, a beginning of a placeholder is swallowed
by a body, and blanks stand around a path. -/
def tangled : String := "$$\x7b a:b :-$\x7b:-c\x7d\x7b$\x7benv:\tHOME \x7d"

/-- Its parts. -/
def tangledParts : List Part :=
  [.literal "$", .reference ⟨"$\x7b a:b :-$\x7b:-c\x7d", none, "a:b", some "$\x7b:-c"⟩, .literal "\x7b",
    .reference ⟨"$\x7benv:\tHOME \x7d", some "env", "HOME", none⟩]

theorem parse_scans_tangled :
    parse tangled = .ok tangledParts ∧ Scanned tangled.toList tangledParts ∧
      hasReferences tangledParts = containsPlaceholder tangled ∧ ¬ Enclosed tangled.toList ∧
      ∃ after, Meets "$\x7ba\x7d$\x7b :-b\x7d".toList after ∧ Broken after := by
  have hparse : parse tangled = .ok tangledParts := by decide +kernel
  have htells := (parse_scans tangled).2.1 tangledParts hparse
  have hrefused : parse "$\x7ba\x7d$\x7b :-b\x7d" =
      .error (.malformed "$\x7b :-b\x7d" "empty reference") := by decide +kernel
  refine ⟨hparse, ((parse_scans tangled).1 tangledParts).1 hparse, htells.1, fun henclosed => ?_,
    (parse_scans _).2.2.1 ⟨_, hrefused⟩⟩
  exact absurd (htells.2.2 henclosed) (by decide)

end Template

end ConfigTree
