import ConfigTree.Proofs.Path.RoundTrip

/-!
# One text for each path

A path can be written in many ways: a key may be quoted without need, in either kind of quotes, and an
index may have blanks and a plus sign. `Path.canonical` reads a text and writes its path in the one way
that `Path.render` has for it.

Is this way good as a name? It is if two paths never have the same canonical text, whatever their keys
hold, and if reading the text again changes nothing. The first does not follow from reading canonical
texts back, since an index beyond `Text.indexBound` is written but not read: here the text is taken apart
segment by segment (`render_injective`). A segment ends where a delimiter follows, and what it begins
with tells how it is written.
-/

namespace ConfigTree

/-- A text is taken apart in one way where the first piece ends as soon as a condition fails. -/
theorem append_inj_of_head? {α : Type} {p : α → Bool} {l l' r r' : List α} (hl : ∀ a ∈ l, p a = true)
    (hl' : ∀ a ∈ l', p a = true) (hr : ∀ a ∈ r.head?, p a = false) (hr' : ∀ a ∈ r'.head?, p a = false)
    (h : l ++ r = l' ++ r') : l = l' ∧ r = r' := by
  have hstop : ∀ s : List α, (∀ a ∈ s.head?, p a = false) → s.takeWhile p = [] := by
    intro s hs
    cases s with
    | nil => rfl
    | cons a s => simp [hs a rfl]
  have htake := congrArg (List.takeWhile p) h
  rw [List.takeWhile_append_of_pos hl, List.takeWhile_append_of_pos hl', hstop r hr, hstop r' hr',
    List.append_nil, List.append_nil] at htake
  subst htake
  exact ⟨rfl, List.append_cancel_left h⟩

/-- A text that is put together piece by piece is taken apart in one way where no piece is empty and each
text begins with one piece only. The first piece may be written in its own way. -/
theorem injective_of_pieces {α β : Type} (text : Bool → List α → List β) (piece : Bool → α → List β)
    (hnil : ∀ first, text first [] = [])
    (hcons : ∀ first a l, text first (a :: l) = piece first a ++ text false l)
    (hne : ∀ first a, piece first a ≠ [])
    (hinj : ∀ first a a' l l', piece first a ++ text false l = piece first a' ++ text false l' →
      a = a' ∧ text false l = text false l')
    (first : Bool) : Function.Injective (text first) := by
  have hcons_ne : ∀ first a l, text first (a :: l) ≠ [] := fun first a l h => by
    rw [hcons] at h
    exact hne first a (List.append_eq_nil_iff.1 h).1
  intro l l' h
  induction l generalizing first l' with
  | nil =>
    cases l' with
    | nil => rfl
    | cons a' l' => exact absurd (h.symm.trans (hnil first)) (hcons_ne first a' l')
  | cons a l ih =>
    cases l' with
    | nil => exact absurd (h.trans (hnil first)) (hcons_ne first a l)
    | cons a' l' =>
      rw [hcons, hcons] at h
      obtain ⟨rfl, hrest⟩ := hinj first a a' l l' h
      rw [ih false hrest]

namespace Path

variable {first : Bool} {s t : Segment} {name name' rest rest' : List Char}

/-! ### One segment -/

theorem toDigits_append_inj {i j : Nat}
    (h : Nat.toDigits 10 i ++ ']' :: rest = Nat.toDigits 10 j ++ ']' :: rest') : i = j ∧ rest = rest' := by
  have hdigits : ∀ n, ∀ c ∈ Nat.toDigits 10 n, c.isDigit = true := fun n c hc =>
    Nat.isDigit_of_mem_toDigits (by decide) (by decide) hc
  have hstop : ∀ r : List Char, ∀ c ∈ (']' :: r).head?, c.isDigit = false := by
    intro r c hc
    obtain rfl := Option.some.inj hc
    decide
  obtain ⟨hij, hrest⟩ := append_inj_of_head? (hdigits i) (hdigits j) (hstop rest) (hstop rest') h
  have hvalue := congrArg (Nat.ofDigitChars 10 · 0) hij
  simp only [Nat.ofDigitChars_ten_toDigits] at hvalue
  exact ⟨hvalue, (List.cons.inj hrest).2⟩

theorem escape_append_inj (h : escape name ++ '"' :: rest = escape name' ++ '"' :: rest') :
    name = name' ∧ rest = rest' := by
  have hread := readQuoted_escape name rest
  rw [h, readQuoted_escape] at hread
  simpa [eq_comm] using hread

/-! ### Which segment a text begins with -/

theorem renderSegment_quoted {key : String} (h : needsQuotes key.toList = true) :
    renderSegment first (.key key) = '[' :: '"' :: (escape key.toList ++ ['"', ']']) := by
  rw [renderSegment, if_pos h]

theorem renderSegment_bare {key : String} (h : needsQuotes key.toList = false) :
    renderSegment first (.key key) = if first then key.toList else '.' :: key.toList := by
  rw [renderSegment, h, if_neg Bool.false_ne_true]

theorem of_needsQuotes_eq_false (h : needsQuotes name = false) :
    name ≠ [] ∧ ∀ c ∈ name, (!isDelimiter c) = true := by
  simpa [needsQuotes] using h

/-- What a segment in brackets begins with does not begin a bare key. -/
theorem bracket_ne_bare {key : String} (h : needsQuotes key.toList = false) :
    '[' :: rest ≠ renderSegment first (.key key) ++ rest' := by
  obtain ⟨hne, hchars⟩ := of_needsQuotes_eq_false h
  obtain ⟨c, cs, hcs⟩ := List.exists_cons_of_ne_nil hne
  rw [renderSegment_bare h, hcs]
  intro h
  cases first with
  | true =>
    obtain rfl : '[' = c := by simpa using congrArg List.head? h
    exact absurd (hchars '[' (by simp [hcs])) (by decide)
  | false => cases h

theorem index_ne_key {i : Nat} {key : String} :
    renderSegment first (.index i) ++ rest ≠ renderSegment first (.key key) ++ rest' := by
  cases hkey : needsQuotes key.toList with
  | false => exact bracket_ne_bare hkey
  | true =>
    -- A digit is not a quote.
    obtain ⟨c, cs, hcs⟩ := List.exists_cons_of_ne_nil (Nat.toDigits_ne_nil (n := i) (b := 10))
    have hdigit : c.isDigit = true :=
      Nat.isDigit_of_mem_toDigits (by decide) (by decide) (hcs ▸ List.mem_cons_self)
    rw [renderSegment_quoted hkey, renderSegment, hcs]
    intro h
    obtain rfl : c = '"' := (List.cons.inj (List.cons.inj h).2).1
    exact absurd hdigit (by decide)

theorem bare_append_inj {key key' : String} (hkey : needsQuotes key.toList = false)
    (hkey' : needsQuotes key'.toList = false) (hrest : ∀ c ∈ rest.head?, isDelimiter c = true)
    (hrest' : ∀ c ∈ rest'.head?, isDelimiter c = true)
    (h : renderSegment first (.key key) ++ rest = renderSegment first (.key key') ++ rest') :
    key = key' ∧ rest = rest' := by
  have hnames : key.toList ++ rest = key'.toList ++ rest' := by
    rw [renderSegment_bare hkey, renderSegment_bare hkey'] at h
    cases first with
    | true => exact h
    | false => exact (List.cons.inj h).2
  obtain ⟨hlist, hrests⟩ := append_inj_of_head? (of_needsQuotes_eq_false hkey).2
    (of_needsQuotes_eq_false hkey').2 (by simpa using hrest) (by simpa using hrest') hnames
  exact ⟨String.toList_inj.1 hlist, hrests⟩

/-- The text of a path begins with the text of one segment only. -/
theorem renderSegment_append_inj (hrest : ∀ c ∈ rest.head?, isDelimiter c = true)
    (hrest' : ∀ c ∈ rest'.head?, isDelimiter c = true)
    (h : renderSegment first s ++ rest = renderSegment first t ++ rest') : s = t ∧ rest = rest' := by
  cases s with
  | index i =>
    cases t with
    | index j =>
      obtain ⟨rfl, rfl⟩ := toDigits_append_inj (by simpa [renderSegment] using h)
      exact ⟨rfl, rfl⟩
    | key key => exact absurd h index_ne_key
  | key key =>
    cases t with
    | index j => exact absurd h.symm index_ne_key
    | key key' =>
      cases hkey : needsQuotes key.toList with
      | false =>
        cases hkey' : needsQuotes key'.toList with
        | false =>
          obtain ⟨rfl, rfl⟩ := bare_append_inj hkey hkey' hrest hrest' h
          exact ⟨rfl, rfl⟩
        | true =>
          rw [renderSegment_quoted hkey'] at h
          exact absurd h.symm (bracket_ne_bare hkey)
      | true =>
        rw [renderSegment_quoted hkey] at h
        cases hkey' : needsQuotes key'.toList with
        | false => exact absurd h (bracket_ne_bare hkey')
        | true =>
          rw [renderSegment_quoted hkey'] at h
          obtain ⟨hlist, hrests⟩ := escape_append_inj (by simpa using h)
          exact ⟨congrArg _ (String.toList_inj.1 hlist), by simpa using hrests⟩

/-! ### Whole paths -/

theorem renderSegment_ne_nil : renderSegment first s ≠ [] := by
  cases s with
  | index i => simp [renderSegment]
  | key key =>
    cases hkey : needsQuotes key.toList with
    | true => simp [renderSegment_quoted hkey]
    | false =>
      rw [renderSegment_bare hkey]
      cases first with
      | true => exact (of_needsQuotes_eq_false hkey).1
      | false => simp

theorem isDelimiter_of_renderFrom_false (p : Path) :
    ∀ c ∈ (renderFrom false p).head?, isDelimiter c = true := by
  rcases renderFrom_false_eq p with h | ⟨c, cs, h, hc⟩
  · simp [h]
  · simp [h, hc]

theorem renderFrom_injective (first : Bool) : Function.Injective (renderFrom first) :=
  injective_of_pieces renderFrom renderSegment (fun _ => rfl) (fun _ _ _ => rfl)
    (fun _ _ => renderSegment_ne_nil)
    (fun _ _ _ p q => renderSegment_append_inj (isDelimiter_of_renderFrom_false p)
      (isDelimiter_of_renderFrom_false q)) first

/-- **Different paths have different canonical texts**, whatever their keys hold and however large their
indices are. -/
theorem render_injective : Function.Injective render := fun _ _ h =>
  renderFrom_injective true (String.ofList_injective h)

/-! ### Texts that are read -/

/-- The canonical text of the path that a text writes, or what is wrong with the text. -/
def canonical (text : String) : Except Fault String := (parse text).map render

theorem canonical_eq_ok {text : String} {p : Path} (h : parse text = .ok p) :
    canonical text = .ok p.render := by
  rw [canonical, h]
  rfl

/-- A path that was read is read again from its canonical text. -/
theorem parse_render_of_parse {text : String} {p : Path} (h : parse text = .ok p) :
    parse p.render = .ok p :=
  parse_render (ne_nil_of_elements h (by simp)) (inBounds_of_elements h)

/-- **Paths round-trip through their texts.** The canonical text of a path, unless this is empty or holds
an index that is too large, is read as that path. No two paths share a canonical text. And where a text
is read, the canonical text of its path is read as the same path and is its own canonical text. -/
theorem texts_round_trip :
    (∀ p : Path, p ≠ [] → p.InBounds → parse p.render = .ok p) ∧
    Function.Injective render ∧
    ∀ text p, parse text = .ok p →
      canonical text = .ok p.render ∧ parse p.render = .ok p ∧ canonical p.render = .ok p.render :=
  ⟨fun _ => parse_render, render_injective, fun _ _ h =>
    ⟨canonical_eq_ok h, parse_render_of_parse h, canonical_eq_ok (parse_render_of_parse h)⟩⟩

/-- A path with keys that are empty, hold what separates segments, hold what ends a quotation, look like
an index and are blank, around the largest index. -/
def awkward : Path :=
  [.key "", .key "a.b[0]", .key "\"\\", .index (Text.indexBound - 1), .key "0", .key " "]

theorem texts_round_trip_awkward :
    awkward ≠ [] ∧ awkward.InBounds ∧ parse awkward.render = .ok awkward ∧
      awkward.render = "[\"\"][\"a.b[0]\"].\"\\[18446744073709551615].0. " := by
  have hne : awkward ≠ [] := by simp [awkward]
  have hbounds : awkward.InBounds := by simp [awkward, InBounds, Text.indexBound]
  exact ⟨hne, hbounds, texts_round_trip.1 awkward hne hbounds, by decide +kernel⟩

end Path

end ConfigTree
