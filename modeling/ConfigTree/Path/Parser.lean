import ConfigTree.Path.Fault
import ConfigTree.Text.Blank

/-!
# Reading a path from its text

A path text is a row of elements. An element is a bare key (a run of characters other than a dot
and the two brackets), a quoted key in brackets, or an index in brackets. Dots separate bare keys
from what comes before; there is none before a bracket. In a quoted key a backslash stands for the
character after it. An index may have blanks around it and one plus sign in front.

## The model

`elements` reads one element a step and remembers in a `Place` what came directly before. It ends
because each step leaves a shorter text.
-/

namespace ConfigTree.Path

/-- What stands directly before the text that is still to be read. -/
inductive Place where
  /-- Nothing: this is the beginning. -/
  | start
  /-- A dot. -/
  | afterDot
  /-- An element. -/
  | afterElement
deriving DecidableEq, Repr

/-- Whether a character marks a quoted key: the double quote or the apostrophe. -/
def isQuote (c : Char) : Bool := c == '"' || c == '\u0027'

/-- The key before the closing quote, and the text after that quote. -/
def readQuoted (quote : Char) : List Char → Except Fault (List Char × List Char)
  | [] => .error .unterminatedQuote
  | ['\\'] => .error .unterminatedQuote
  | '\\' :: c :: rest => (readQuoted quote rest).map fun r => (c :: r.1, r.2)
  | c :: rest =>
    if c = quote then .ok ([], rest)
    else (readQuoted quote rest).map fun r => (c :: r.1, r.2)

/-- The segment between an opening bracket, already read, and its closing bracket, and the text
after it. -/
def readBracket (cs : List Char) : Except Fault (Segment × List Char) :=
  match cs with
  | [] => .error .unterminatedBracket
  | q :: body =>
    if isQuote q then
      match readQuoted q body with
      | .error fault => .error fault
      | .ok (name, ']' :: rest) => .ok (.key (String.ofList name), rest)
      | .ok _ => .error .missingClose
    else
      let text := cs.takeWhile (· ≠ ']')
      match cs.dropWhile (· ≠ ']') with
      | [] => .error .unterminatedBracket
      | _ :: rest =>
        match Text.readIndex? (Text.trimBoth text) with
        | some i => .ok (.index i, rest)
        | none => .error (.notAnIndex (String.ofList text))

theorem length_dropWhile_le {α : Type} (p : α → Bool) (l : List α) :
    (l.dropWhile p).length ≤ l.length := by
  induction l with
  | nil => simp
  | cons a l ih =>
    rw [List.dropWhile_cons]
    split
    · exact Nat.le_succ_of_le ih
    · exact Nat.le_refl _

theorem length_of_readQuoted {q : Char} {cs name rest : List Char}
    (h : readQuoted q cs = .ok (name, rest)) : rest.length < cs.length := by
  fun_induction readQuoted q cs generalizing name rest with
  | case1 => simp at h
  | case2 => simp at h
  | case3 c body ih =>
    cases hr : readQuoted q body with
    | error e => simp [hr, Except.map] at h
    | ok r =>
      simp only [hr, Except.map, Except.ok.injEq, Prod.mk.injEq] at h
      have := ih hr
      simp only [List.length_cons, ← h.2]
      omega
  | case4 =>
    simp only [Except.ok.injEq, Prod.mk.injEq] at h
    simp [← h.2]
  | case5 c body _ _ _ ih =>
    cases hr : readQuoted q body with
    | error e => simp [hr, Except.map] at h
    | ok r =>
      simp only [hr, Except.map, Except.ok.injEq, Prod.mk.injEq] at h
      have := ih hr
      simp only [List.length_cons, ← h.2]
      omega

/-- Reading a bracket consumes something. -/
theorem length_of_readBracket {cs rest : List Char} {s : Segment}
    (h : readBracket cs = .ok (s, rest)) : rest.length < cs.length := by
  unfold readBracket at h
  split at h
  · simp at h
  · next q body =>
    split at h
    · split at h
      · simp at h
      · next name r hq =>
        have := length_of_readQuoted hq
        simp only [Except.ok.injEq, Prod.mk.injEq] at h
        simp only [List.length_cons, ← h.2] at *
        omega
      · simp at h
    · dsimp only at h
      split at h
      · simp at h
      · next c r hd =>
        have hl := length_dropWhile_le (fun x => decide (x ≠ ']')) (q :: body)
        rw [hd] at hl
        split at h
        · simp only [Except.ok.injEq, Prod.mk.injEq] at h
          simp only [List.length_cons, ← h.2] at *
          omega
        · simp at h

/-- The segments that the text writes after what `place` tells. -/
def elements (place : Place) (cs : List Char) : Except Fault Path :=
  match cs with
  | [] =>
    match place with
    | .start => .error .emptyPath
    | .afterDot => .error .trailingDot
    | .afterElement => .ok []
  | c :: rest =>
    if c = '.' then
      if place = .afterElement then elements .afterDot rest else .error .emptySegment
    else if c = '[' then
      if place = .afterDot then .error .bracketAfterDot
      else
        match _h : readBracket rest with
        | .error fault => .error fault
        | .ok (segment, rest') => (elements .afterElement rest').map (segment :: ·)
    else if c = ']' then .error .unexpectedClose
    else if place = .afterElement then .error .missingDot
    else
      let name := c :: rest.takeWhile (!isDelimiter ·)
      (elements .afterElement (rest.dropWhile (!isDelimiter ·))).map
        (Segment.key (String.ofList name) :: ·)
termination_by cs.length
decreasing_by
  · simp
  · have := length_of_readBracket _h
    simp only [List.length_cons]
    omega
  · have := length_dropWhile_le (!isDelimiter ·) rest
    simp only [List.length_cons]
    omega

/-- The path that a text writes, or what is wrong with it. -/
def parse (text : String) : Except Fault Path := elements .start text.toList

/-- The path that a text writes, or the error that names the text. -/
def parseText (text : String) : Except PathError Path :=
  match parse text with
  | .ok p => .ok p
  | .error fault => .error ⟨text, fault⟩

end ConfigTree.Path
