import ConfigTree.Proofs.Path.Canonical
import Mathlib.Data.List.TakeWhile

/-!
# The grammar of path texts

A path text is a row of elements, and there are three kinds of them (`Element`). A bare key stands as it is,
after a dot unless it comes first. A quoted key stands in brackets between two equal quotes, and a backslash
in it stands for the character that follows. An index stands in brackets, perhaps with a plus sign and with
blanks around it. Before a bracket there is no dot.

The reader of path texts knows nothing of rows of elements: it takes the text apart from the left and keeps
in mind what came directly before. Does it read all these texts, and no others, and could it have read any
of them in another way?

It reads the rows of elements and nothing else, and each text is one row only (`parse_grammar`). That it reads
them goes by the elements, one after the other. That it reads nothing else goes by its own steps: what it has
taken off is an element. And a row can be taken apart in one way only because each element ends where a
delimiter follows, and what it begins with tells its kind.
-/

namespace ConfigTree

/-! ### Digits with a sign -/

namespace Text

/-- A plus sign, or nothing. -/
def sign (plus : Bool) : List Char := if plus then ['+'] else []

theorem sign_injective : Function.Injective sign := by
  intro plus plus' h
  cases plus <;> cases plus' <;> simp_all [sign]

theorem decimalValue_eq (digits : List Char) : decimalValue digits = Nat.ofDigitChars 10 digits 0 :=
  Nat.ofDigitChars_eq_foldl.symm

theorem dropPlus_sign {plus : Bool} {digits : List Char} (hdigits : ∀ c ∈ digits, c.isDigit = true) :
    dropPlus (sign plus ++ digits) = digits := by
  cases plus with
  | true => rfl
  | false =>
    change dropPlus digits = digits
    unfold dropPlus
    split
    · next cs => exact absurd (hdigits '+' List.mem_cons_self) (by decide)
    · rfl

theorem exists_sign_dropPlus (cs : List Char) : ∃ plus, cs = sign plus ++ dropPlus cs := by
  unfold dropPlus
  split
  · exact ⟨true, rfl⟩
  · exact ⟨false, rfl⟩

/-- What is read as an index: a plus sign or none, and digits of a value that fits into sixty-four bits. -/
theorem readIndex?_eq_some_iff {cs : List Char} {i : Nat} :
    readIndex? cs = some i ↔ ∃ plus digits, cs = sign plus ++ digits ∧ digits ≠ [] ∧
      (∀ c ∈ digits, c.isDigit = true) ∧ Nat.ofDigitChars 10 digits 0 < Nat.pow 2 64 ∧
      Nat.ofDigitChars 10 digits 0 = i := by
  rw [readIndex?]
  simp only [decimalValue_eq, List.all_eq_true, indexBound]
  constructor
  · intro h
    split at h
    · next hcs =>
      obtain ⟨plus, hplus⟩ := exists_sign_dropPlus cs
      exact ⟨plus, dropPlus cs, hplus, hcs.1, hcs.2.1, hcs.2.2, Option.some.inj h⟩
    · cases h
  · rintro ⟨plus, digits, rfl, hne, hdigits, hlt, rfl⟩
    rw [dropPlus_sign hdigits, if_pos ⟨hne, hdigits, hlt⟩]

end Text

namespace Path

/-! ### Elements -/

/-- A character of a quoted key, in the way it is written. -/
inductive QuotedChar (quote : Char) where
  /-- A character other than the quote and the backslash stands for itself. -/
  | plain (c : Char) (h : c ≠ quote ∧ c ≠ '\\')
  /-- A backslash and the character that it stands for, which may be any. -/
  | escaped (c : Char)

/-- How the character is written. -/
def QuotedChar.spell {quote : Char} : QuotedChar quote → List Char
  | plain c _ => [c]
  | escaped c => ['\\', c]

/-- The character that is meant. -/
def QuotedChar.meant {quote : Char} : QuotedChar quote → Char
  | plain c _ => c
  | escaped c => c

/-- What stands between brackets for an index. -/
@[ext]
structure IndexText where
  /-- All that stands between the brackets. -/
  inner : List Char
  /-- Whether there is a plus sign. -/
  plus : Bool
  /-- The digits. -/
  digits : List Char
  /-- No bracket closes before the end. -/
  unclosed : ']' ∉ inner
  /-- It does not begin with a quote. -/
  unquoted : ∀ c ∈ inner.head?, c ≠ '"' ∧ c ≠ '\u0027'
  /-- Without the blanks at either end, it is the plus sign, if there is one, and the digits. -/
  trimmed : Text.trimBoth inner = Text.sign plus ++ digits
  /-- There is a digit. -/
  nonempty : digits ≠ []
  /-- The digits are those of ASCII. -/
  ascii : ∀ c ∈ digits, c.isDigit = true
  /-- The value fits into sixty-four bits. -/
  bounded : Nat.ofDigitChars 10 digits 0 < Nat.pow 2 64

/-- An element of a path text. -/
inductive Element where
  /-- A key that stands as it is, of characters other than the dot and the brackets. -/
  | bare (name : List Char) (nonempty : name ≠ []) (plain : ∀ c ∈ name, c ≠ '.' ∧ c ≠ '[' ∧ c ≠ ']')
  /-- A key in brackets, between two quotes of one kind. -/
  | quoted (quote : Char) (isQuote : quote = '"' ∨ quote = '\u0027') (body : List (QuotedChar quote))
  /-- An index in brackets. -/
  | index (text : IndexText)

namespace Element

/-- How the element is written; `first` tells whether it comes first. -/
def spell (first : Bool) : Element → List Char
  | bare name _ _ => if first then name else '.' :: name
  | quoted quote _ body => '[' :: quote :: (body.flatMap QuotedChar.spell ++ [quote, ']'])
  | index text => '[' :: (text.inner ++ [']'])

/-- The segment that the element stands for. -/
def segment : Element → Segment
  | bare name _ _ => .key (String.ofList name)
  | quoted _ _ body => .key (String.ofList (body.map QuotedChar.meant))
  | index text => .index (Nat.ofDigitChars 10 text.digits 0)

/-- The text of elements that follow others, or of all when `first`. -/
def spellFrom : Bool → List Element → List Char
  | _, [] => []
  | first, a :: row => a.spell first ++ spellFrom false row

/-- The text of a row of elements. -/
def spellAll (row : List Element) : String := String.ofList (spellFrom true row)

end Element

open Element

variable {quote : Char} {first : Bool} {a b : Element} {row : List Element} {name cs rest rest' : List Char}

theorem isQuote_iff {c : Char} : isQuote c = true ↔ c = '"' ∨ c = '\u0027' := by
  simp [isQuote]

theorem isDelimiter_eq_false_iff {c : Char} : isDelimiter c = false ↔ c ≠ '.' ∧ c ≠ '[' ∧ c ≠ ']' := by
  simp [isDelimiter, and_assoc]

theorem ne_backslash_of_quote (h : quote = '"' ∨ quote = '\u0027') : quote ≠ '\\' := by
  rcases h with rfl | rfl <;> decide

/-! ### Rows of elements are read -/

theorem readQuoted_spell (hquote : quote ≠ '\\') (body : List (QuotedChar quote)) (rest : List Char) :
    readQuoted quote (body.flatMap QuotedChar.spell ++ quote :: rest) =
      .ok (body.map QuotedChar.meant, rest) := by
  induction body with
  | nil =>
    rw [List.flatMap_nil, List.nil_append, readQuoted.eq_4 _ _ _ (by simp [hquote]) (by simp [hquote])]
    exact if_pos rfl
  | cons c body ih =>
    rw [List.flatMap_cons]
    cases c with
    | plain c h =>
      simp only [QuotedChar.spell, List.cons_append, List.nil_append]
      rw [readQuoted.eq_4 _ _ _ (by simp [h.2]) (by simp [h.2]), if_neg h.1, ih]
      rfl
    | escaped c =>
      simp only [QuotedChar.spell, List.cons_append, List.nil_append]
      rw [readQuoted.eq_3, ih]
      rfl

theorem readBracket_quoted_spell (hquote : quote = '"' ∨ quote = '\u0027') (body : List (QuotedChar quote))
    (rest : List Char) :
    readBracket (quote :: (body.flatMap QuotedChar.spell ++ quote :: ']' :: rest)) =
      .ok ((quoted quote hquote body).segment, rest) := by
  simp [readBracket, isQuote_iff.2 hquote, readQuoted_spell (ne_backslash_of_quote hquote), Element.segment]

theorem readBracket_index (text : IndexText) (rest : List Char) :
    readBracket (text.inner ++ ']' :: rest) = .ok ((index text).segment, rest) := by
  refine readBracket_unquoted text.unclosed (fun c hc => ?_) ?_ rest
  · rw [← Bool.not_eq_true, isQuote_iff, not_or]
    exact text.unquoted c hc
  · rw [text.trimmed, Text.readIndex?_eq_some_iff]
    exact ⟨_, _, rfl, text.nonempty, text.ascii, text.bounded, rfl⟩

/-- An element is read off the text, whatever follows it in a row. -/
theorem elements_spell {place : Place} (hplace : place = if first then .start else .afterElement)
    (hrest : rest = [] ∨ ∃ c cs, rest = c :: cs ∧ isDelimiter c = true) :
    elements place (a.spell first ++ rest) = (elements .afterElement rest).map (a.segment :: ·) := by
  have hbracket : place ≠ .afterDot := by
    rw [hplace]
    cases first <;> simp
  cases a with
  | bare name hne hplain =>
    have hname : needsQuotes name = false := by
      rw [needsQuotes, Bool.or_eq_false_iff, List.isEmpty_eq_false_iff, List.any_eq_false]
      exact ⟨hne, fun c hc => by rw [isDelimiter_eq_false_iff.2 (hplain c hc)]; decide⟩
    exact elements_bare hplace hname hrest
  | quoted quote hquote body =>
    rw [spell, List.cons_append, List.cons_append, List.append_assoc]
    exact elements_bracket hbracket (readBracket_quoted_spell hquote body rest)
  | index text =>
    rw [spell, List.cons_append, List.append_assoc]
    exact elements_bracket hbracket (readBracket_index text rest)

/-- What follows an element begins with a dot or a bracket, or is empty. -/
theorem spellFrom_false_eq (row : List Element) :
    spellFrom false row = [] ∨ ∃ c cs, spellFrom false row = c :: cs ∧ isDelimiter c = true := by
  cases row with
  | nil => exact .inl rfl
  | cons a row =>
    right
    cases a with
    | bare name hne hplain => exact ⟨'.', _, rfl, rfl⟩
    | quoted quote hquote body => exact ⟨'[', _, rfl, rfl⟩
    | index text => exact ⟨'[', _, rfl, rfl⟩

theorem elements_spellFrom_false (row : List Element) :
    elements .afterElement (spellFrom false row) = .ok (row.map Element.segment) := by
  induction row with
  | nil => simp [spellFrom, elements]
  | cons a row ih =>
    rw [spellFrom, elements_spell (by rfl) (spellFrom_false_eq row), ih]
    rfl

/-- A row of elements is read as the segments that its elements stand for. -/
theorem parse_spellAll (hne : row ≠ []) : parse (spellAll row) = .ok (row.map Element.segment) := by
  obtain ⟨a, row, rfl⟩ := List.exists_cons_of_ne_nil hne
  rw [parse, spellAll, String.toList_ofList, spellFrom,
    elements_spell (by rfl) (spellFrom_false_eq row), elements_spellFrom_false]
  rfl

/-! ### Nothing else is read -/

/-- What is read up to the closing quote is the characters of a quoted key. -/
theorem exists_body_of_readQuoted (h : readQuoted quote cs = .ok (name, rest)) :
    ∃ body : List (QuotedChar quote), cs = body.flatMap QuotedChar.spell ++ quote :: rest ∧
      body.map QuotedChar.meant = name := by
  fun_induction readQuoted quote cs generalizing name rest with
  | case1 => cases h
  | case2 => cases h
  | case3 c tail ih =>
    obtain ⟨r, hr, heq⟩ := exists_of_map_eq_ok h
    cases heq
    obtain ⟨body, hbody, hname⟩ := ih hr
    exact ⟨.escaped c :: body, by simp [QuotedChar.spell, hbody], by simp [QuotedChar.meant, hname]⟩
  | case4 tail =>
    cases h
    exact ⟨[], rfl, rfl⟩
  | case5 c tail hlast hescape hquote ih =>
    obtain ⟨r, hr, heq⟩ := exists_of_map_eq_ok h
    cases heq
    obtain ⟨body, hbody, hname⟩ := ih hr
    have hplain : c ≠ quote ∧ c ≠ '\\' := by
      refine ⟨hquote, fun hc => ?_⟩
      cases tail with
      | nil => exact hlast hc rfl
      | cons c' tail => exact hescape c' tail hc rfl
    exact ⟨.plain c hplain :: body, by simp [QuotedChar.spell, hbody], by simp [QuotedChar.meant, hname]⟩

/-- A text that holds a closing bracket is what stands before the first one, the bracket, and the rest. -/
theorem split_at_close {c : Char} (h : cs.dropWhile (fun x => decide (x ≠ ']')) = c :: rest) :
    ']' ∉ cs.takeWhile (fun x => decide (x ≠ ']')) ∧
      cs = cs.takeWhile (fun x => decide (x ≠ ']')) ++ ']' :: rest := by
  have hc : c = ']' := by
    have hhead := List.head?_dropWhile_not (fun x => decide (x ≠ ']')) cs
    rw [h] at hhead
    simpa using hhead
  refine ⟨fun hmem => by simpa using List.mem_takeWhile_imp hmem, ?_⟩
  rw [show ']' :: rest = cs.dropWhile (fun x => decide (x ≠ ']')) by rw [h, hc],
    List.takeWhile_append_dropWhile]

/-- What is read in brackets without a quote is the text of an index. -/
theorem exists_indexText {c : Char} {i : Nat} (hquote : ∀ x ∈ cs.head?, isQuote x = false)
    (hdrop : cs.dropWhile (fun x => decide (x ≠ ']')) = c :: rest)
    (hi : Text.readIndex? (Text.trimBoth (cs.takeWhile (fun x => decide (x ≠ ']')))) = some i) :
    ∃ text : IndexText, cs = text.inner ++ ']' :: rest ∧ (index text).segment = .index i := by
  obtain ⟨hclose, hsplit⟩ := split_at_close hdrop
  obtain ⟨plus, digits, htrim, hne, hdigits, hbound, rfl⟩ := Text.readIndex?_eq_some_iff.1 hi
  have hunquoted : ∀ x ∈ (cs.takeWhile (fun x => decide (x ≠ ']'))).head?, x ≠ '"' ∧ x ≠ '\u0027' := by
    intro x hx
    have hhead : cs.head? = some x := by rw [hsplit, List.head?_append, Option.mem_def.1 hx]; rfl
    rw [← not_or, ← isQuote_iff, hquote x hhead]
    exact Bool.false_ne_true
  exact ⟨⟨_, plus, digits, hclose, hunquoted, htrim, hne, hdigits, hbound⟩, hsplit, rfl⟩

/-- What is read in brackets is an element that may stand anywhere. -/
theorem exists_element_of_readBracket {s : Segment} (h : readBracket cs = .ok (s, rest)) :
    ∃ a : Element, a.segment = s ∧ ∀ first, '[' :: cs = a.spell first ++ rest := by
  unfold readBracket at h
  split at h
  · cases h
  · next q body =>
    split at h
    · next hq =>
      split at h
      · cases h
      · next name tail hread =>
        cases h
        obtain ⟨items, hitems, rfl⟩ := exists_body_of_readQuoted hread
        exact ⟨.quoted q (isQuote_iff.1 hq) items, rfl, fun _ => by simp [spell, hitems]⟩
      · cases h
    · next hq =>
      dsimp only at h
      split at h
      · cases h
      · next c tail hdrop =>
        split at h
        · next i hi =>
          cases h
          obtain ⟨text, htext, hsegment⟩ := exists_indexText (by simpa using hq) hdrop hi
          exact ⟨.index text, hsegment, fun _ => by rw [htext, spell]; simp⟩
        · cases h

/-- The run of characters up to the next delimiter is a bare key, where it does not begin with one. -/
theorem plain_of_mem_run {c : Char} (hdot : c ≠ '.') (hopen : c ≠ '[') (hclose : c ≠ ']') :
    ∀ x ∈ c :: rest.takeWhile (!isDelimiter ·), x ≠ '.' ∧ x ≠ '[' ∧ x ≠ ']' := by
  intro x hx
  rcases List.mem_cons.1 hx with rfl | hx
  · exact ⟨hdot, hopen, hclose⟩
  · rw [← isDelimiter_eq_false_iff]
    simpa using List.mem_takeWhile_imp hx

/-- The dot that stands before the text that is still to be read, if there is one. -/
def Place.before : Place → List Char
  | .afterDot => ['.']
  | .start | .afterElement => []

/-- Whether nothing stands before the text that is still to be read. -/
def Place.isStart : Place → Bool
  | .start => true
  | .afterDot | .afterElement => false

/-- What is read is a row of elements, from the dot on that may stand before it. -/
theorem exists_row_of_elements {place : Place} {p : Path} (h : elements place cs = .ok p) :
    ∃ row : List Element, row.map Element.segment = p ∧ place.before ++ cs = spellFrom place.isStart row := by
  -- The steps that go on are the end of the text, a dot, a bracket and a bare key; all others are faults.
  fun_induction elements place cs generalizing p with
  | case3 =>
    cases h
    exact ⟨[], rfl, rfl⟩
  | case4 rest ih =>
    -- The dot belongs to the bare key that has to follow.
    obtain ⟨row, hrow, hspell⟩ := ih h
    exact ⟨row, hrow, hspell⟩
  | case8 place rest hplace s tail hbracket _ ih =>
    obtain ⟨q, hq, rfl⟩ := exists_of_map_eq_ok h
    obtain ⟨row, hrow, hspell⟩ := ih hq
    obtain ⟨a, rfl, ha⟩ := exists_element_of_readBracket hbracket
    have hbefore : place.before = [] := by
      cases place with
      | afterDot => exact absurd rfl hplace
      | _ => rfl
    refine ⟨a :: row, by rw [List.map_cons, hrow], ?_⟩
    rw [hbefore, spellFrom, List.nil_append, ha]
    exact congrArg _ hspell
  | case11 place c rest hdot hopen hclose hplace name =>
    rename_i ih
    obtain ⟨q, hq, rfl⟩ := exists_of_map_eq_ok h
    obtain ⟨row, hrow, hspell⟩ := ih hq
    have hplain : ∀ x ∈ name, x ≠ '.' ∧ x ≠ '[' ∧ x ≠ ']' := plain_of_mem_run hdot hopen hclose
    refine ⟨.bare name (List.cons_ne_nil _ _) hplain :: row, by rw [List.map_cons, hrow]; rfl, ?_⟩
    have hsplit : c :: rest = c :: rest.takeWhile (!isDelimiter ·) ++ spellFrom false row := by
      rw [← show rest.dropWhile (!isDelimiter ·) = spellFrom false row from hspell]
      exact congrArg (c :: ·) List.takeWhile_append_dropWhile.symm
    rw [spellFrom, hsplit]
    cases place with
    | afterElement => exact absurd rfl hplace
    | start => rfl
    | afterDot => rfl
  | _ => cases h

theorem exists_row_of_parse {text : String} {p : Path} (h : parse text = .ok p) :
    ∃ row : List Element, row ≠ [] ∧ spellAll row = text ∧ row.map Element.segment = p := by
  obtain ⟨row, hrow, hspell⟩ := exists_row_of_elements h
  refine ⟨row, ?_, ?_, hrow⟩
  · rintro rfl
    exact ne_nil_of_elements h (by decide) hrow.symm
  · rw [spellAll, ← show text.toList = spellFrom true row from hspell, String.ofList_toList]

/-! ### One row only -/

theorem QuotedChar.spell_append_inj {c c' : QuotedChar quote} (h : c.spell ++ rest = c'.spell ++ rest') :
    c = c' ∧ rest = rest' := by
  cases c with
  | plain c hc =>
    cases c' with
    | plain c' hc' =>
      obtain ⟨rfl, hrest⟩ := List.cons.inj h
      exact ⟨rfl, hrest⟩
    | escaped c' => exact absurd (List.cons.inj h).1 hc.2
  | escaped c =>
    cases c' with
    | plain c' hc' => exact absurd (List.cons.inj h).1.symm hc'.2
    | escaped c' =>
      obtain ⟨rfl, hrest⟩ := List.cons.inj (List.cons.inj h).2
      exact ⟨rfl, hrest⟩

/-- The quote that ends a key begins no character of it. -/
theorem quote_ne_spell (hquote : quote ≠ '\\') {c : QuotedChar quote} : quote :: rest ≠ c.spell ++ rest' := by
  intro h
  cases c with
  | plain c hc => exact hc.1 (List.cons.inj h).1.symm
  | escaped c => exact hquote (List.cons.inj h).1

theorem quoted_append_inj {body body' : List (QuotedChar quote)} (hquote : quote ≠ '\\')
    (h : body.flatMap QuotedChar.spell ++ quote :: rest = body'.flatMap QuotedChar.spell ++ quote :: rest') :
    body = body' ∧ rest = rest' := by
  induction body generalizing body' with
  | nil =>
    cases body' with
    | nil => exact ⟨rfl, (List.cons.inj h).2⟩
    | cons c' body' =>
      rw [List.flatMap_cons, List.append_assoc] at h
      exact absurd h (quote_ne_spell hquote)
  | cons c body ih =>
    cases body' with
    | nil =>
      rw [List.flatMap_cons, List.append_assoc] at h
      exact absurd h.symm (quote_ne_spell hquote)
    | cons c' body' =>
      rw [List.flatMap_cons, List.flatMap_cons, List.append_assoc, List.append_assoc] at h
      obtain ⟨rfl, htail⟩ := QuotedChar.spell_append_inj h
      obtain ⟨rfl, hrest⟩ := ih htail
      exact ⟨rfl, hrest⟩

/-- The plus sign and the digits of an index are told by what stands between the brackets. -/
theorem IndexText.ext_inner {text text' : IndexText} (h : text.inner = text'.inner) : text = text' := by
  have hsigned : Text.sign text.plus ++ text.digits = Text.sign text'.plus ++ text'.digits := by
    rw [← text.trimmed, ← text'.trimmed, h]
  have hdigits : text.digits = text'.digits := by
    rw [← Text.dropPlus_sign text.ascii, hsigned, Text.dropPlus_sign text'.ascii]
  have hplus : text.plus = text'.plus := by
    rw [hdigits] at hsigned
    exact Text.sign_injective (List.append_cancel_right hsigned)
  exact IndexText.ext h hplus hdigits

theorem index_append_inj {text text' : IndexText}
    (h : text.inner ++ ']' :: rest = text'.inner ++ ']' :: rest') : text = text' ∧ rest = rest' := by
  have hopen : ∀ t : IndexText, ∀ c ∈ t.inner, (c != ']') = true := fun t c hc =>
    bne_iff_ne.2 fun heq => t.unclosed (heq ▸ hc)
  obtain ⟨hinner, hrest⟩ := append_inj_of_head? (hopen text) (hopen text') (by simp) (by simp) h
  exact ⟨IndexText.ext_inner hinner, (List.cons.inj hrest).2⟩

theorem quote_ne_index {text : IndexText} (hquote : quote = '"' ∨ quote = '\u0027') :
    quote :: rest ≠ text.inner ++ ']' :: rest' := by
  obtain ⟨c, cs, hcs⟩ : ∃ c cs, text.inner = c :: cs := List.exists_cons_of_ne_nil fun hnil => by
    have htrim := text.trimmed
    rw [hnil] at htrim
    exact text.nonempty (List.append_eq_nil_iff.1 htrim.symm).2
  have hc := text.unquoted c (by rw [hcs]; rfl)
  rw [hcs]
  intro h
  obtain rfl := (List.cons.inj h).1
  exact hquote.elim hc.1 hc.2

theorem bracket_ne_name (hne : name ≠ []) (hplain : ∀ c ∈ name, c ≠ '.' ∧ c ≠ '[' ∧ c ≠ ']') :
    '[' :: rest ≠ (bare name hne hplain).spell first ++ rest' := by
  intro h
  cases first with
  | false => cases h
  | true =>
    cases name with
    | nil => exact hne rfl
    | cons c name => exact (hplain c List.mem_cons_self).2.1 (List.cons.inj h).1.symm

theorem bare_append_inj_of_plain {name' : List Char} {hne : name ≠ []} {hne' : name' ≠ []}
    {hplain : ∀ c ∈ name, c ≠ '.' ∧ c ≠ '[' ∧ c ≠ ']'} {hplain' : ∀ c ∈ name', c ≠ '.' ∧ c ≠ '[' ∧ c ≠ ']'}
    (hrest : ∀ c ∈ rest.head?, isDelimiter c = true) (hrest' : ∀ c ∈ rest'.head?, isDelimiter c = true)
    (h : (bare name hne hplain).spell first ++ rest = (bare name' hne' hplain').spell first ++ rest') :
    bare name hne hplain = bare name' hne' hplain' ∧ rest = rest' := by
  have hnames : name ++ rest = name' ++ rest' := by
    cases first with
    | true => exact h
    | false => exact (List.cons.inj h).2
  obtain ⟨rfl, hrests⟩ := append_inj_of_head? (p := (!isDelimiter ·))
    (fun c hc => by rw [isDelimiter_eq_false_iff.2 (hplain c hc)]; rfl)
    (fun c hc => by rw [isDelimiter_eq_false_iff.2 (hplain' c hc)]; rfl)
    (by simpa using hrest) (by simpa using hrest') hnames
  exact ⟨rfl, hrests⟩

/-- The text of a row begins with the text of one element only. -/
theorem spell_append_inj (hrest : ∀ c ∈ rest.head?, isDelimiter c = true)
    (hrest' : ∀ c ∈ rest'.head?, isDelimiter c = true) (h : a.spell first ++ rest = b.spell first ++ rest') :
    a = b ∧ rest = rest' := by
  cases a with
  | bare name hne hplain =>
    cases b with
    | bare name' hne' hplain' => exact bare_append_inj_of_plain hrest hrest' h
    | quoted quote' hquote' body' => exact absurd h.symm (bracket_ne_name hne hplain)
    | index text' => exact absurd h.symm (bracket_ne_name hne hplain)
  | quoted quote hquote body =>
    cases b with
    | bare name' hne' hplain' => exact absurd h (bracket_ne_name hne' hplain')
    | quoted quote' hquote' body' =>
      simp only [spell, List.cons_append, List.append_assoc, List.nil_append] at h
      obtain ⟨rfl, hbody⟩ := List.cons.inj (List.cons.inj h).2
      obtain ⟨rfl, hclose⟩ := quoted_append_inj (ne_backslash_of_quote hquote) hbody
      exact ⟨rfl, (List.cons.inj hclose).2⟩
    | index text' =>
      simp only [spell, List.cons_append, List.append_assoc, List.nil_append] at h
      exact absurd (List.cons.inj h).2 (quote_ne_index hquote)
  | index text =>
    cases b with
    | bare name' hne' hplain' => exact absurd h (bracket_ne_name hne' hplain')
    | quoted quote' hquote' body' =>
      simp only [spell, List.cons_append, List.append_assoc, List.nil_append] at h
      exact absurd (List.cons.inj h).2.symm (quote_ne_index hquote')
    | index text' =>
      simp only [spell, List.cons_append, List.append_assoc, List.nil_append] at h
      obtain ⟨rfl, hrests⟩ := index_append_inj (List.cons.inj h).2
      exact ⟨rfl, hrests⟩

theorem spell_ne_nil : a.spell first ≠ [] := by
  cases a with
  | bare name hne hplain =>
    cases first with
    | true => exact hne
    | false => exact List.cons_ne_nil _ _
  | quoted quote hquote body => exact List.cons_ne_nil _ _
  | index text => exact List.cons_ne_nil _ _

theorem isDelimiter_of_spellFrom_false (row : List Element) :
    ∀ c ∈ (spellFrom false row).head?, isDelimiter c = true := by
  rcases spellFrom_false_eq row with h | ⟨c, cs, h, hc⟩
  · simp [h]
  · simp [h, hc]

theorem spellFrom_injective (first : Bool) : Function.Injective (spellFrom first) :=
  injective_of_pieces spellFrom spell (fun _ => rfl) (fun _ _ _ => rfl) (fun _ _ => spell_ne_nil)
    (fun _ _ _ row row' => spell_append_inj (isDelimiter_of_spellFrom_false row)
      (isDelimiter_of_spellFrom_false row')) first

/-- Different rows of elements are different texts. -/
theorem spellAll_injective : Function.Injective spellAll := fun _ _ h =>
  spellFrom_injective true (String.ofList_injective h)

/-! ### The grammar -/

theorem parseText_eq_ok_iff {text : String} {p : Path} :
    parseText text = .ok p ↔
      ∃ row : List Element, row ≠ [] ∧ spellAll row = text ∧ row.map Element.segment = p := by
  have hparse : parseText text = .ok p ↔ parse text = .ok p := by
    rw [parseText]
    cases parse text <;> simp
  rw [hparse]
  constructor
  · exact exists_row_of_parse
  · rintro ⟨row, hne, rfl, rfl⟩
    exact parse_spellAll hne

/-- **What is read is the rows of elements.** A text is read as a path exactly if it is a row of one element
or more that stand for the segments of the path, in this order. No text is two rows. And a text that is no
such row is refused. -/
theorem parse_grammar :
    (∀ text p, parseText text = .ok p ↔
      ∃ row : List Element, row ≠ [] ∧ spellAll row = text ∧ row.map Element.segment = p) ∧
    (∀ row row' : List Element, spellAll row = spellAll row' → row = row') ∧
    (∀ text, (∃ fault, parseText text = .error ⟨text, fault⟩) ↔
      ∀ row : List Element, row ≠ [] → spellAll row ≠ text) := by
  refine ⟨fun _ _ => parseText_eq_ok_iff, fun _ _ h => spellAll_injective h,
    fun text => ⟨?_, fun hno => ?_⟩⟩
  · rintro ⟨fault, hfault⟩ row hne hspell
    rw [parseText_eq_ok_iff.2 ⟨row, hne, hspell, rfl⟩] at hfault
    cases hfault
  · rw [parseText]
    cases hparse : parse text with
    | error fault => exact ⟨fault, rfl⟩
    | ok p =>
      obtain ⟨row, hne, hspell, -⟩ := exists_row_of_parse hparse
      exact absurd hspell (hno row hne)

/-- A row with all that makes a text hard to take apart: a quoted key that holds a quote of its own kind and
a closing bracket, and an index with blanks, a plus sign and a needless zero, between bare keys. -/
def mixedRow : List Element :=
  [.bare ['a'] (by decide) (by simp),
    .quoted '"' (by decide) [.plain 'b' (by decide), .escaped '"', .plain ']' (by decide)],
    .index ⟨" +07 ".toList, true, ['0', '7'], by decide, by simp, by decide, by decide, by simp, by decide⟩,
    .bare ['c'] (by decide) (by simp)]

theorem parse_grammar_mixed :
    parseText "a[\"b\\\"]\"][ +07 ].c" = .ok [.key "a", .key "b\"]", .index 7, .key "c"] ∧
    (∃! row : List Element, spellAll row = "a[\"b\\\"]\"][ +07 ].c") ∧
    ¬∃ row : List Element, row ≠ [] ∧ spellAll row = "a.[7]" := by
  have hspell : spellAll mixedRow = "a[\"b\\\"]\"][ +07 ].c" := by decide
  refine ⟨(parse_grammar.1 _ _).2 ⟨mixedRow, by simp [mixedRow], hspell, by decide⟩,
    ⟨mixedRow, hspell, fun row hrow => parse_grammar.2.1 row mixedRow (hrow.trans hspell.symm)⟩, ?_⟩
  rintro ⟨row, hne, hrow⟩
  exact (parse_grammar.2.2 "a.[7]").1 ⟨.bracketAfterDot, by decide +kernel⟩ row hne hrow

end Path

end ConfigTree
