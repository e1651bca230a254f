import ConfigTree.Reference.Error
import ConfigTree.Text.Blank

/-!
# Placeholders in a text

A string value may hold placeholders. A placeholder begins with a dollar sign and an opening brace
and ends at the next closing brace. Its body is a reference, which may be followed by a colon, a
minus sign and a fallback text. A reference is a path, which may be preceded by the identifier of a
namespace and a colon.

## The model

`Template.parse` cuts a text at its placeholders, from the left. What stands between two
placeholders becomes one literal part, and no literal part is empty. The cutting works on lists of
characters; each placeholder keeps the text it was written with.
-/

namespace ConfigTree

/-- One placeholder. -/
structure Placeholder where
  /-- The text it was written with, from the dollar sign to the closing brace. -/
  raw : String
  /-- The namespace that the path belongs to; none for the document itself. -/
  domain : Option String
  /-- The path, without blanks around it. -/
  path : String
  /-- The text that stands in when nothing is found. -/
  fallback : Option String
deriving DecidableEq, Repr

/-- A piece of a text. -/
inductive Part where
  /-- Characters that stand for themselves. -/
  | literal (text : String)
  /-- A placeholder. -/
  | reference (placeholder : Placeholder)
deriving DecidableEq, Repr

namespace Template

/-- The text before and after the first place where the pair `a`, `b` stands. -/
def splitAtPair (a b : Char) : List Char → Option (List Char × List Char)
  | [] => none
  | [_] => none
  | c :: d :: rest =>
    if c = a ∧ d = b then some ([], rest)
    else (splitAtPair a b (d :: rest)).map fun r => (c :: r.1, r.2)

/-- The text before and after the first place where `a` stands. -/
def splitAtChar (a : Char) : List Char → Option (List Char × List Char)
  | [] => none
  | c :: rest => if c = a then some ([], rest) else (splitAtChar a rest).map fun r => (c :: r.1, r.2)

/-- An identifier begins with an ASCII letter or an underscore and goes on with ASCII letters,
digits, underscores and minus signs. -/
def isIdentifier : List Char → Bool
  | [] => false
  | c :: cs => (c.isAlpha || c == '_') && cs.all fun c => c.isAlphanum || c == '_' || c == '-'

/-- The reference and the fallback that the body of a placeholder holds. -/
def splitFallback (body : List Char) : List Char × Option (List Char) :=
  match splitAtPair ':' '-' body with
  | some (reference, fallback) => (reference, some fallback)
  | none => (body, none)

/-- The namespace and the path that a reference holds. -/
def splitDomain (reference : List Char) : Option (List Char) × List Char :=
  match splitAtChar ':' reference with
  | some (name, path) => if isIdentifier name then (some name, path) else (none, reference)
  | none => (none, reference)

/-- The placeholder with this body. -/
def placeholderOf (body : List Char) : Except ReferenceError Placeholder :=
  let raw := String.ofList ('$' :: '\x7b' :: (body ++ ['\x7d']))
  let (reference, fallback) := splitFallback body
  let (domain, path) := splitDomain reference
  let path := Text.trimBoth path
  if path.isEmpty then .error (.malformed raw "empty reference")
  else .ok ⟨raw, domain.map String.ofList, String.ofList path, fallback.map String.ofList⟩

/-- The literal part that the characters make; none when there are no characters. -/
def literalPart (cs : List Char) : List Part :=
  if cs.isEmpty then [] else [.literal (String.ofList cs)]

/-- Splitting leaves a shorter text. -/
theorem length_of_splitAtChar {a : Char} {cs before after : List Char}
    (h : splitAtChar a cs = some (before, after)) : after.length < cs.length := by
  induction cs generalizing before with
  | nil => simp [splitAtChar] at h
  | cons c cs ih =>
    rw [splitAtChar] at h
    split at h
    · simp only [Option.some.injEq, Prod.mk.injEq] at h
      simp [← h.2]
    · obtain ⟨r, hr, he⟩ := Option.map_eq_some_iff.1 h
      have := @ih r.1 (by rw [hr, ← (Prod.mk.inj he).2])
      simp only [List.length_cons]
      omega

theorem length_of_splitAtPair {a b : Char} {cs before after : List Char}
    (h : splitAtPair a b cs = some (before, after)) : after.length < cs.length := by
  fun_induction splitAtPair a b cs generalizing before with
  | case1 => simp at h
  | case2 => simp at h
  | case3 =>
    simp only [Option.some.injEq, Prod.mk.injEq] at h
    simp only [List.length_cons, ← h.2]
    omega
  | case4 c d rest _ ih =>
    obtain ⟨r, hr, he⟩ := Option.map_eq_some_iff.1 h
    have := @ih r.1 (by rw [hr, ← (Prod.mk.inj he).2])
    simp only [List.length_cons] at *
    omega

/-- The parts of a text. -/
def parts (cs : List Char) : Except ReferenceError (List Part) :=
  match _opened : splitAtPair '$' '\x7b' cs with
  | none => .ok (literalPart cs)
  | some (before, after) =>
    match _closed : splitAtChar '\x7d' after with
    | none =>
      .error (.malformed (String.ofList ('$' :: '\x7b' :: after)) "missing closing '\x7d'")
    | some (body, rest) =>
      match placeholderOf body with
      | .error e => .error e
      | .ok p => (parts rest).map fun ps => literalPart before ++ .reference p :: ps
termination_by cs.length
decreasing_by
  have := length_of_splitAtPair _opened
  have := length_of_splitAtChar _closed
  omega

/-- The parts of a string value, or the first thing that is wrong with its placeholders. -/
def parse (text : String) : Except ReferenceError (List Part) := parts text.toList

/-- The placeholder that a text consists of, if it is one placeholder and nothing else. -/
def single? : List Part → Option Placeholder
  | [.reference p] => some p
  | _ => none

/-- Whether there is a placeholder among the parts. -/
def hasReferences (ps : List Part) : Bool :=
  ps.any fun
    | .reference _ => true
    | .literal _ => false

/-- Whether the text holds the beginning of a placeholder. -/
def containsPlaceholder (text : String) : Bool := (splitAtPair '$' '\x7b' text.toList).isSome

end Template

end ConfigTree
