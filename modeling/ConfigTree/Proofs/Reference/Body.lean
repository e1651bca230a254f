import ConfigTree.Proofs.Reference.Parts
import ConfigTree.Proofs.Text.Trimmed

/-!
# What the body of a placeholder says

The body of a placeholder is split at a colon with a minus sign behind it, what stands before this is split at
a colon, and the rest is trimmed. Colons, minus signs and blanks may stand anywhere in it, so which of them
split the body, and which are part of what is said?

A body can be told what it says without splitting it (`Placeholder.Says`): its fallback stands behind the first
colon with a minus sign; its namespace is a name before the first colon of what is left, if that is a name; and
its path is the rest without the blanks around it (`Text.Trimmed`). A body is read as the placeholder that says
this (`placeholderOf_eq_ok_iff`), and refused where no path is left (`exists_placeholderOf_eq_error_iff`).
-/

namespace ConfigTree

/-! ### What a body says -/

namespace Placeholder

/-- The body is divided at its first colon with a minus sign behind it: before it stands the reference, behind
it the fallback. Without one, all is the reference. -/
inductive Divided (body : List Char) : List Char → Option (List Char) → Prop
  | whole : ¬ [':', '-'] <:+: body → Divided body body none
  | fallback {reference text : List Char} : body = reference ++ ':' :: '-' :: text →
      ¬ [':', '-'] <:+: reference → Divided body reference (some text)

/-- An ASCII letter or an underscore. -/
def BeginsName (c : Char) : Prop := 'A' ≤ c ∧ c ≤ 'Z' ∨ 'a' ≤ c ∧ c ≤ 'z' ∨ c = '_'

/-- A character that begins a name, an ASCII digit or a minus sign. -/
def ContinuesName (c : Char) : Prop := BeginsName c ∨ '0' ≤ c ∧ c ≤ '9' ∨ c = '-'

/-- The name of a namespace. -/
def IsName (cs : List Char) : Prop :=
  ∃ c rest, cs = c :: rest ∧ BeginsName c ∧ ∀ x ∈ rest, ContinuesName x

/-- The reference begins with the name of a namespace, ended by the first colon, and goes on with the path;
or it has no such beginning, and all of it is the path. -/
inductive Addressed (reference : List Char) : Option (List Char) → List Char → Prop
  | inNamespace {name path : List Char} : reference = name ++ ':' :: path → ':' ∉ name → IsName name →
      Addressed reference (some name) path
  | inDocument : (∀ name path, reference = name ++ ':' :: path → ':' ∉ name → ¬ IsName name) →
      Addressed reference none reference

/-- The placeholder has this body, and its fallback, its namespace and its path are what the body says. -/
structure Says (p : Placeholder) (body : List Char) : Prop where
  /-- It was written as the body in braces, after a dollar sign. -/
  raw : p.raw.toList = '$' :: '\x7b' :: (body ++ ['\x7d'])
  /-- The body is divided into reference and fallback, the reference into namespace and path. -/
  content : ∃ reference path, Divided body reference (p.fallback.map String.toList) ∧
    Addressed reference (p.domain.map String.toList) path ∧ Text.Trimmed path p.path.toList
  /-- There is a path. -/
  nonempty : p.path ≠ ""

/-- Where the path should be, the body has nothing but blanks. -/
def Pathless (body : List Char) : Prop :=
  ∃ reference fallback domain path, Divided body reference fallback ∧ Addressed reference domain path ∧
    ∀ c ∈ path, Text.isBlank c = true

end Placeholder

open Placeholder

namespace Template

variable {cs body reference path : List Char} {fallback domain : Option (List Char)} {p : Placeholder}

theorem splitFallback_eq_iff :
    splitFallback body = (reference, fallback) ↔ Divided body reference fallback := by
  constructor
  · intro h
    rw [splitFallback] at h
    split at h
    · next hsplit =>
      cases h
      exact .fallback (eq_of_splitAtPair hsplit) (not_infix_of_splitAtPair hsplit)
    · next hsplit =>
      cases h
      exact .whole (splitAtPair_eq_none_iff.1 hsplit)
  · rintro (hnone | ⟨rfl, hfirst⟩)
    · rw [splitFallback, splitAtPair_eq_none_iff.2 hnone]
    · rw [splitFallback, splitAtPair_append (by decide) hfirst]

theorem isIdentifier_iff : isIdentifier cs = true ↔ IsName cs := by
  have hbegins : ∀ c : Char, (c.isAlpha || c == '_') = true ↔ BeginsName c := by
    intro c
    have halpha : c.isAlpha = (c.isUpper || c.isLower) := rfl
    have hupper : c.isUpper = true ↔ 'A' ≤ c ∧ c ≤ 'Z' := decide_eq_true_iff
    have hlower : c.isLower = true ↔ 'a' ≤ c ∧ c ≤ 'z' :=
      Bool.and_eq_true_iff.trans (and_congr decide_eq_true_iff decide_eq_true_iff)
    rw [BeginsName, halpha, Bool.or_eq_true, Bool.or_eq_true, hupper, hlower, beq_iff_eq, or_assoc]
  have hcontinues : ∀ c : Char, (c.isAlphanum || c == '_' || c == '-') = true ↔ ContinuesName c := by
    intro c
    have hdigit : c.isDigit = true ↔ '0' ≤ c ∧ c ≤ '9' := by simp [Char.isDigit, Char.le_def]
    rw [ContinuesName, ← hbegins, ← hdigit, Char.isAlphanum]
    simp only [Bool.or_eq_true, beq_iff_eq, or_assoc, or_left_comm]
  cases cs with
  | nil => simp [isIdentifier, IsName]
  | cons c rest =>
    rw [isIdentifier, Bool.and_eq_true, List.all_eq_true, hbegins]
    simp only [hcontinues]
    constructor
    · rintro ⟨hc, hrest⟩
      exact ⟨c, rest, rfl, hc, hrest⟩
    · rintro ⟨_, _, heq, hc, hrest⟩
      cases heq
      exact ⟨hc, hrest⟩

theorem splitAtChar_eq_none_iff {a : Char} : splitAtChar a cs = none ↔ a ∉ cs := by
  constructor
  · intro h hmem
    obtain ⟨before, after, rfl, hfirst⟩ := List.eq_append_cons_of_mem hmem
    rw [splitAtChar_append hfirst] at h
    cases h
  · intro h
    cases hsplit : splitAtChar a cs with
    | none => rfl
    | some r =>
      obtain ⟨before, after⟩ := r
      rw [(eq_of_splitAtChar hsplit).1] at h
      exact absurd (by simp) h

theorem splitDomain_eq_iff : splitDomain reference = (domain, path) ↔ Addressed reference domain path := by
  rw [splitDomain]
  cases hsplit : splitAtChar ':' reference with
  | none =>
    have hcolon := splitAtChar_eq_none_iff.1 hsplit
    constructor
    · rintro ⟨⟩
      exact .inDocument fun name path heq _ _ => hcolon (by simp [heq])
    · rintro (⟨heq, -, -⟩ | -)
      · exact absurd (by simp [heq]) hcolon
      · rfl
  | some r =>
    obtain ⟨name, tail⟩ := r
    obtain ⟨heq, hfirst⟩ := eq_of_splitAtChar hsplit
    have hunique : ∀ {name' path'}, reference = name' ++ ':' :: path' → ':' ∉ name' →
        name' = name ∧ path' = tail := by
      intro name' path' heq' hfirst'
      rw [heq', splitAtChar_append hfirst'] at hsplit
      simpa using hsplit
    simp only
    split
    · next hname =>
      constructor
      · rintro ⟨⟩
        exact .inNamespace heq hfirst (isIdentifier_iff.1 hname)
      · rintro (⟨heq', hfirst', -⟩ | hno)
        · obtain ⟨rfl, rfl⟩ := hunique heq' hfirst'
          rfl
        · exact absurd (isIdentifier_iff.1 hname) (hno name tail heq hfirst)
    · next hname =>
      rw [isIdentifier_iff] at hname
      constructor
      · rintro ⟨⟩
        refine .inDocument fun name' path' heq' hfirst' hname' => ?_
        exact hname ((hunique heq' hfirst').1 ▸ hname')
      · rintro (⟨heq', hfirst', hname'⟩ | -)
        · exact absurd ((hunique heq' hfirst').1 ▸ hname') hname
        · rfl

theorem placeholderOf_eq (hfallback : splitFallback body = (reference, fallback))
    (hdomain : splitDomain reference = (domain, path)) :
    placeholderOf body =
      if (Text.trimBoth path).isEmpty then
        .error (.malformed (String.ofList ('$' :: '\x7b' :: (body ++ ['\x7d']))) "empty reference")
      else
        .ok ⟨String.ofList ('$' :: '\x7b' :: (body ++ ['\x7d'])), domain.map String.ofList,
          String.ofList (Text.trimBoth path), fallback.map String.ofList⟩ := by
  simp [placeholderOf, hfallback, hdomain]

theorem map_toList_map_ofList (o : Option (List Char)) : (o.map String.ofList).map String.toList = o := by
  cases o <;> simp

theorem map_ofList_map_toList (o : Option String) : (o.map String.toList).map String.ofList = o := by
  cases o <;> simp

/-- A body is read as the placeholder that says what the body says. -/
theorem placeholderOf_eq_ok_iff : placeholderOf body = .ok p ↔ p.Says body := by
  constructor
  · intro h
    have hraw := raw_of_placeholderOf h
    rcases hfallback : splitFallback body with ⟨reference, fallback⟩
    rcases hdomain : splitDomain reference with ⟨domain, path⟩
    rw [placeholderOf_eq hfallback hdomain] at h
    split_ifs at h with hempty
    cases h
    refine ⟨hraw, ⟨reference, path, ?_, ?_, ?_⟩, ?_⟩
    · rw [map_toList_map_ofList]
      exact splitFallback_eq_iff.1 hfallback
    · rw [map_toList_map_ofList]
      exact splitDomain_eq_iff.1 hdomain
    · rw [String.toList_ofList]
      exact Text.trimmed_trimBoth path
    · simpa using hempty
  · rintro ⟨hraw, ⟨reference, path, hfallback, hdomain, htrim⟩, hne⟩
    have hpath := Text.trimBoth_eq_iff.2 htrim
    rw [placeholderOf_eq (splitFallback_eq_iff.2 hfallback) (splitDomain_eq_iff.2 hdomain), hpath,
      if_neg (by simpa using hne), ← hraw]
    simp only [map_ofList_map_toList, String.ofList_toList]

/-- A placeholder may be put in front of the parts of a text. -/
theorem Cut.reference_cons {rest : List Char} {ps : List Part} (h : Cut rest ps) (hbody : '\x7d' ∉ body)
    (hmeans : p.Says body) : Cut ('$' :: '\x7b' :: (body ++ '\x7d' :: rest)) (.reference p :: ps) := by
  have hbefore : ¬ ['$', '\x7b'] <:+: ([] : List Char) := by simp
  exact .placeholder hbefore hbody (placeholderOf_eq_ok_iff.2 hmeans) h

/-- A body is refused where it has no path. -/
theorem exists_placeholderOf_eq_error_iff : (∃ e, placeholderOf body = .error e) ↔ Pathless body := by
  constructor
  · rintro ⟨e, h⟩
    rcases hfallback : splitFallback body with ⟨reference, fallback⟩
    rcases hdomain : splitDomain reference with ⟨domain, path⟩
    rw [placeholderOf_eq hfallback hdomain] at h
    split_ifs at h with hempty
    exact ⟨reference, fallback, domain, path, splitFallback_eq_iff.1 hfallback,
      splitDomain_eq_iff.1 hdomain, Text.trimBoth_eq_nil_iff.1 (List.isEmpty_iff.1 hempty)⟩
  · rintro ⟨reference, fallback, domain, path, hfallback, hdomain, hblank⟩
    rw [placeholderOf_eq (splitFallback_eq_iff.2 hfallback) (splitDomain_eq_iff.2 hdomain),
      Text.trimBoth_eq_nil_iff.2 hblank]
    exact ⟨_, rfl⟩

end Template

end ConfigTree
