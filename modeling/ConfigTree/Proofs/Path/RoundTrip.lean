import ConfigTree.Path.Parser
import Mathlib.Tactic.SplitIfs

/-!
# Canonical texts are read back

Reading the canonical text of a path gives the path back (`parse_render`): each segment is read back,
whatever follows it (`elements_renderSegment`). The indices have to lie below `Text.indexBound`, as those
of every path that was read do (`inBounds_of_elements`).
-/

namespace ConfigTree

theorem exists_of_map_eq_ok {ε α β : Type} {f : α → β} {r : Except ε α} {b : β}
    (h : r.map f = .ok b) : ∃ a, r = .ok a ∧ f a = b := by
  cases r with
  | error e => cases h
  | ok a => exact ⟨a, rfl, Except.ok.inj h⟩

namespace Text

/-! ### Digits -/

theorem isBlank_of_isDigit {c : Char} (h : c.isDigit = true) : isBlank c = false := by
  obtain ⟨hlo, hhi⟩ : 48 ≤ c.toNat ∧ c.toNat ≤ 57 := by simpa using Char.isDigit_iff_toNat.1 h
  simp only [isBlank, blankRanges, List.any_cons, List.any_nil, Bool.or_false, Bool.or_eq_false_iff,
    decide_eq_false_iff_not]
  omega

theorem trimLeft_of_not_blank {cs : List Char} (h : ∀ c ∈ cs, isBlank c = false) :
    trimLeft cs = cs := by
  cases cs with
  | nil => rfl
  | cons c cs => rw [trimLeft_cons, if_neg (by simp [h c])]

/-- Where nothing is blank there is nothing to trim. -/
theorem trimBoth_of_not_blank {cs : List Char} (h : ∀ c ∈ cs, isBlank c = false) :
    trimBoth cs = cs := by
  have hrev : trimLeft cs.reverse = cs.reverse :=
    trimLeft_of_not_blank fun c hc => h c (List.mem_reverse.1 hc)
  rw [trimBoth, trimLeft_of_not_blank h, trimRight]
  rw [trimLeft] at hrev
  rw [hrev, List.reverse_reverse]

/-- The decimal text of an index is read back. -/
theorem readIndex?_toDigits {i : Nat} (hi : i < indexBound) :
    readIndex? (Nat.toDigits 10 i) = some i := by
  have hdigits : ∀ c ∈ Nat.toDigits 10 i, c.isDigit = true := fun c hc =>
    Nat.isDigit_of_mem_toDigits (by decide) (by decide) hc
  have hplus : dropPlus (Nat.toDigits 10 i) = Nat.toDigits 10 i := by
    unfold dropPlus
    split
    · next cs h => exact absurd (hdigits '+' (by simp [h])) (by decide)
    · rfl
  have hvalue : decimalValue (Nat.toDigits 10 i) = i := by
    rw [decimalValue, ← Nat.ofDigitChars_eq_foldl, Nat.ofDigitChars_ten_toDigits]
  rw [readIndex?]
  simp only [hplus, hvalue]
  exact if_pos ⟨Nat.toDigits_ne_nil, List.all_eq_true.2 hdigits, hi⟩

theorem lt_of_readIndex?_eq_some {cs : List Char} {i : Nat} (h : readIndex? cs = some i) :
    i < indexBound := by
  rw [readIndex?] at h
  split at h
  · next hc =>
    cases h
    exact hc.2.2
  · cases h

end Text

namespace Path

/-- The indices of a path lie below the bound that reading keeps them to. -/
def InBounds (p : Path) : Prop := ∀ i, Segment.index i ∈ p → i < Text.indexBound

theorem InBounds.tail {s : Segment} {p : Path} (h : InBounds (s :: p)) : InBounds p :=
  fun i hi => h i (List.mem_cons_of_mem _ hi)

/-! ### One segment -/

/-- A key between quotes, with its escapes, is read back. -/
theorem readQuoted_escape (name rest : List Char) :
    readQuoted '"' (escape name ++ '"' :: rest) = .ok (name, rest) := by
  induction name with
  | nil =>
    rw [escape, List.nil_append, readQuoted.eq_4 _ _ _ (by simp) (by simp)]
    exact if_pos rfl
  | cons c cs ih =>
    rw [escape]
    split
    · rw [List.cons_append, List.cons_append, readQuoted.eq_3, ih]
      rfl
    · next h =>
      rw [not_or] at h
      rw [List.cons_append, readQuoted.eq_4 _ _ _ (by simp [h.2]) (by simp [h.2]), if_neg h.1, ih]
      rfl

theorem readBracket_quoted (name rest : List Char) :
    readBracket ('"' :: (escape name ++ '"' :: ']' :: rest)) =
      .ok (.key (String.ofList name), rest) := by
  simp [readBracket, isQuote, readQuoted_escape]

/-- What stands in brackets and does not begin with a quote is read as an index. -/
theorem readBracket_unquoted {inner : List Char} {i : Nat} (hclose : ']' ∉ inner)
    (hquote : ∀ c ∈ inner.head?, isQuote c = false)
    (hi : Text.readIndex? (Text.trimBoth inner) = some i) (rest : List Char) :
    readBracket (inner ++ ']' :: rest) = .ok (.index i, rest) := by
  have hopen : ∀ c ∈ inner, decide (c ≠ ']') = true := by
    intro c hc
    rw [decide_eq_true_eq]
    rintro rfl
    exact hclose hc
  have htext : List.takeWhile (fun c => decide (c ≠ ']')) (inner ++ ']' :: rest) = inner := by
    rw [List.takeWhile_append_of_pos hopen]
    simp
  have hrest : List.dropWhile (fun c => decide (c ≠ ']')) (inner ++ ']' :: rest) = ']' :: rest := by
    rw [List.dropWhile_append_of_pos hopen]
    simp
  have hfirst : ∀ q ∈ (inner ++ ']' :: rest).head?, isQuote q = false := by
    cases inner with
    | nil =>
      rintro q ⟨⟩
      decide
    | cons c inner => exact hquote
  unfold readBracket
  split
  · next h => simp at h
  · next q body h =>
    simp only [hfirst q (by simp [h]), htext, hrest, hi, Bool.false_eq_true, if_false]

theorem readBracket_toDigits {i : Nat} (hi : i < Text.indexBound) (rest : List Char) :
    readBracket (Nat.toDigits 10 i ++ ']' :: rest) = .ok (.index i, rest) := by
  have hdigits : ∀ c ∈ Nat.toDigits 10 i, c.isDigit = true := fun c hc =>
    Nat.isDigit_of_mem_toDigits (by decide) (by decide) hc
  have htrim : Text.trimBoth (Nat.toDigits 10 i) = Nat.toDigits 10 i :=
    Text.trimBoth_of_not_blank fun c hc => Text.isBlank_of_isDigit (hdigits c hc)
  refine readBracket_unquoted (fun h => ?_) (fun c hc => ?_) ?_ rest
  · exact absurd (hdigits _ h) (by decide)
  · have hd : c.isDigit = true := hdigits c (List.mem_of_mem_head? hc)
    rw [isQuote, Bool.or_eq_false_iff, beq_eq_false_iff_ne, beq_eq_false_iff_ne]
    constructor <;> rintro rfl <;> exact absurd hd (by decide)
  · rw [htrim, Text.readIndex?_toDigits hi]

/-! ### The whole path -/

/-- What follows a segment begins with a dot or a bracket, or is empty. -/
theorem renderFrom_false_eq (p : Path) :
    renderFrom false p = [] ∨ ∃ c cs, renderFrom false p = c :: cs ∧ isDelimiter c = true := by
  cases p with
  | nil => exact .inl rfl
  | cons s p =>
    right
    cases s with
    | index i => exact ⟨'[', _, rfl, rfl⟩
    | key name =>
      rw [renderFrom, renderSegment]
      split
      · exact ⟨'[', _, rfl, rfl⟩
      · exact ⟨'.', _, rfl, rfl⟩

theorem elements_bracket {place : Place} {cs rest : List Char} {s : Segment}
    (hplace : place ≠ .afterDot) (h : readBracket cs = .ok (s, rest)) :
    elements place ('[' :: cs) = (elements .afterElement rest).map (s :: ·) := by
  rw [elements.eq_def]
  simp only [Char.reduceEq, if_false, if_true, hplace]
  split
  · next h' => rw [h] at h'; cases h'
  · next h' =>
    rw [h] at h'
    cases h'
    rfl

/-- A key that needs no quotes is read up to the next delimiter. -/
theorem elements_name {place : Place} {name rest : List Char} (hplace : place ≠ .afterElement)
    (hname : needsQuotes name = false)
    (hrest : rest = [] ∨ ∃ c cs, rest = c :: cs ∧ isDelimiter c = true) :
    elements place (name ++ rest) =
      (elements .afterElement rest).map (.key (String.ofList name) :: ·) := by
  obtain ⟨hne, hall⟩ : name.isEmpty = false ∧ name.any isDelimiter = false := by
    simpa [needsQuotes] using hname
  have hchars : ∀ c ∈ name, (!isDelimiter c) = true := by simpa using hall
  obtain ⟨c, cs, rfl⟩ := List.exists_cons_of_ne_nil (List.isEmpty_eq_false_iff.1 hne)
  have hc : c ≠ '.' ∧ c ≠ '[' ∧ c ≠ ']' := by
    have := hchars c (by simp)
    simp only [isDelimiter, Bool.not_eq_true', Bool.or_eq_false_iff, beq_eq_false_iff_ne] at this
    exact ⟨this.1.1, this.1.2, this.2⟩
  have htake : (cs ++ rest).takeWhile (!isDelimiter ·) = cs := by
    rw [List.takeWhile_append_of_pos fun x hx => hchars x (by simp [hx])]
    rcases hrest with rfl | ⟨d, ds, rfl, hd⟩ <;> simp [*]
  have hdrop : (cs ++ rest).dropWhile (!isDelimiter ·) = rest := by
    rw [List.dropWhile_append_of_pos fun x hx => hchars x (by simp [hx])]
    rcases hrest with rfl | ⟨d, ds, rfl, hd⟩ <;> simp [*]
  rw [List.cons_append, elements.eq_def]
  simp only [hc.1, hc.2.1, hc.2.2, hplace, if_false, htake, hdrop]

/-- A bare key is read, after a dot unless it comes first. -/
theorem elements_bare {first : Bool} {place : Place} {name rest : List Char}
    (hplace : place = if first then .start else .afterElement) (hname : needsQuotes name = false)
    (hrest : rest = [] ∨ ∃ c cs, rest = c :: cs ∧ isDelimiter c = true) :
    elements place ((if first then name else '.' :: name) ++ rest) =
      (elements .afterElement rest).map (.key (String.ofList name) :: ·) := by
  cases first with
  | true =>
    subst hplace
    exact elements_name (by simp) hname hrest
  | false =>
    subst hplace
    have hdot : elements .afterDot (name ++ rest) =
        (elements .afterElement rest).map (.key (String.ofList name) :: ·) :=
      elements_name (by simp) hname hrest
    rw [← hdot, if_neg Bool.false_ne_true, if_neg Bool.false_ne_true, List.cons_append, elements.eq_def]
    simp

/-- The text of a segment is read back, whatever follows it in the text of a path. -/
theorem elements_renderSegment {first : Bool} {place : Place} {s : Segment} {rest : List Char}
    (hplace : place = if first then .start else .afterElement) (hs : InBounds [s])
    (hrest : rest = [] ∨ ∃ c cs, rest = c :: cs ∧ isDelimiter c = true) :
    elements place (renderSegment first s ++ rest) =
      (elements .afterElement rest).map (s :: ·) := by
  have hbracket : place ≠ .afterDot := by
    rw [hplace]
    cases first <;> simp
  cases s with
  | index i =>
    rw [renderSegment, List.cons_append, List.append_assoc]
    exact elements_bracket hbracket (readBracket_toDigits (hs i (by simp)) rest)
  | key name =>
    rw [renderSegment]
    split
    · have hquoted := readBracket_quoted name.toList rest
      rw [String.ofList_toList] at hquoted
      rw [List.cons_append, List.cons_append, List.append_assoc]
      exact elements_bracket hbracket hquoted
    · next hname =>
      rw [Bool.not_eq_true] at hname
      rw [elements_bare hplace hname hrest, String.ofList_toList]

theorem elements_renderFrom_false {p : Path} (hp : InBounds p) :
    elements .afterElement (renderFrom false p) = .ok p := by
  induction p with
  | nil => simp [renderFrom, elements]
  | cons s p ih =>
    have hs : InBounds [s] := fun i hi => hp i (by simp_all)
    rw [renderFrom, elements_renderSegment (by rfl) hs (renderFrom_false_eq p), ih hp.tail]
    rfl

/-- The canonical text of a path is read as that path. -/
theorem parse_render {p : Path} (hne : p ≠ []) (hp : InBounds p) : parse (render p) = .ok p := by
  obtain ⟨s, p, rfl⟩ := List.exists_cons_of_ne_nil hne
  have hs : InBounds [s] := fun i hi => hp i (by simp_all)
  rw [parse, render, String.toList_ofList, renderFrom,
    elements_renderSegment (by rfl) hs (renderFrom_false_eq p), elements_renderFrom_false hp.tail]
  rfl

/-! ### Paths that were read -/

theorem inBounds_of_readBracket {cs rest : List Char} {s : Segment}
    (h : readBracket cs = .ok (s, rest)) : InBounds [s] := by
  rintro i hi
  obtain rfl : .index i = s := List.mem_singleton.1 hi
  unfold readBracket at h
  split at h
  · cases h
  · split at h
    · split at h <;> cases h
    · dsimp only at h
      split at h
      · cases h
      · split at h
        · next hi' =>
          cases h
          exact Text.lt_of_readIndex?_eq_some hi'
        · cases h

theorem inBounds_cons {s : Segment} {p : Path} (hs : InBounds [s]) (hp : InBounds p) :
    InBounds (s :: p) := by
  intro i hi
  rcases List.mem_cons.1 hi with rfl | hi
  · exact hs i (by simp)
  · exact hp i hi

/-- What is read has its indices below the bound. -/
theorem inBounds_of_elements {place : Place} {cs : List Char} {p : Path}
    (h : elements place cs = .ok p) : InBounds p := by
  fun_induction elements place cs generalizing p with
  | case3 =>
    cases h
    simp [InBounds]
  | case4 _ ih => exact ih h
  | case8 _ _ _ _ rest hbracket _ ih =>
    obtain ⟨q, hq, rfl⟩ := exists_of_map_eq_ok h
    exact inBounds_cons (inBounds_of_readBracket hbracket) (ih hq)
  | case11 =>
    rename_i ih
    obtain ⟨q, hq, rfl⟩ := exists_of_map_eq_ok h
    exact inBounds_cons (by simp [InBounds]) (ih hq)
  | _ => cases h

theorem ne_nil_of_elements {place : Place} {cs : List Char} {p : Path}
    (h : elements place cs = .ok p) (hplace : place ≠ .afterElement) : p ≠ [] := by
  fun_induction elements place cs generalizing p with
  | case3 => exact absurd rfl hplace
  | case4 => exact absurd rfl hplace
  | case8 =>
    obtain ⟨q, -, rfl⟩ := exists_of_map_eq_ok h
    exact List.cons_ne_nil _ _
  | case11 =>
    obtain ⟨q, -, rfl⟩ := exists_of_map_eq_ok h
    exact List.cons_ne_nil _ _
  | _ => cases h

end Path

end ConfigTree
