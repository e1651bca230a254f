import ConfigTree.Proofs.Document.Positions
import ConfigTree.Proofs.Path.RoundTrip

/-!
# Editing a document

A document is written and removed from by the texts of paths. Two things must stay true of it, whatever
is written where: no mapping gets a key twice, and no sequence gets longer than the indices that a text
can hold. The second holds because an item is appended only at the index that is the length of the
sequence, and this index was read from a text.

Both are conditions on one value at a time, `Value.Fits`, that hold everywhere in the document. So it is
enough to see what writing and removing do to the value at each step of the way.
-/

namespace ConfigTree

namespace Value

/-! ### Everywhere in a value -/

/-- Whatever stands at a position of the value has the property. -/
def Everywhere (P : Value → Prop) (v : Value) : Prop := ∀ p u, v.Holds p u → P u

variable {P : Value → Prop} {v : Value} {items : List Value} {entries : List (String × Value)}

theorem everywhere_of_isLeaf (hv : v.IsLeaf) : v.Everywhere P ↔ P v := by
  simp [Everywhere, hv.holds_iff]

theorem everywhere_sequence_iff :
    (Value.sequence items).Everywhere P ↔ P (.sequence items) ∧ ∀ v ∈ items, v.Everywhere P := by
  constructor
  · intro h
    refine ⟨h _ _ (.here _), fun v hv p u hu => ?_⟩
    obtain ⟨i, hi⟩ := List.mem_iff_getElem?.1 hv
    exact h _ _ (.item hi hu)
  · rintro ⟨h, hitems⟩ p u hu
    cases hu with
    | here => exact h
    | item hi hu => exact hitems _ (List.mem_of_getElem? hi) _ _ hu

theorem everywhere_mapping_iff :
    (Value.mapping entries).Everywhere P ↔ P (.mapping entries) ∧ ∀ e ∈ entries, e.2.Everywhere P := by
  constructor
  · exact fun h => ⟨h _ _ (.here _), fun e he p u hu => h _ _ (.entry he hu)⟩
  · rintro ⟨h, hentries⟩ p u hu
    cases hu with
    | here => exact h
    | entry he hu => exact hentries _ he _ _ hu

theorem everywhere_and_iff {Q : Value → Prop} :
    (v.Everywhere fun u => P u ∧ Q u) ↔ v.Everywhere P ∧ v.Everywhere Q :=
  ⟨fun h => ⟨fun p u hu => (h p u hu).1, fun p u hu => (h p u hu).2⟩,
    fun h p u hu => ⟨h.1 p u hu, h.2 p u hu⟩⟩

/-- If the value is a mapping, no key is in it twice. -/
def HasDistinctKeys : Value → Prop
  | .mapping entries => Entries.Distinct entries
  | _ => True

/-- If the value is a sequence, each of its items has an index that a text can hold. -/
def HasIndices : Value → Prop
  | .sequence items => items.length ≤ Text.indexBound
  | _ => True

/-- No sequence in the value, at any depth, is longer than there are indices. -/
def Addressable (v : Value) : Prop := v.Everywhere HasIndices

/-- What has to hold of each value in a document for its positions to be found again by their texts. -/
def Fits (v : Value) : Prop := v.HasDistinctKeys ∧ v.HasIndices

theorem wellformedItems_iff {vs : List Value} : WellformedItems vs ↔ ∀ v ∈ vs, v.Wellformed := by
  induction vs with
  | nil => simp [WellformedItems]
  | cons v vs ih => simp [WellformedItems, ih]

theorem wellformedEntries_iff {es : List (String × Value)} :
    WellformedEntries es ↔ ∀ e ∈ es, e.2.Wellformed := by
  induction es with
  | nil => simp [WellformedEntries]
  | cons e es ih => simp [WellformedEntries, ih]

theorem wellformed_iff_everywhere : v.Wellformed ↔ v.Everywhere HasDistinctKeys := by
  induction v using Value.induction with
  | leaf v hv =>
    rw [everywhere_of_isLeaf hv]
    cases v with
    | sequence items =>
      cases hv
      simp [Wellformed, WellformedItems, HasDistinctKeys]
    | mapping entries =>
      cases hv
      simp [Wellformed, WellformedEntries, HasDistinctKeys]
    | _ => simp [Wellformed, HasDistinctKeys]
  | sequence items hne ih =>
    rw [everywhere_sequence_iff, Wellformed, wellformedItems_iff]
    simp +contextual [HasDistinctKeys, ih]
  | mapping entries hne ih =>
    rw [everywhere_mapping_iff, Wellformed, wellformedEntries_iff]
    simp +contextual only [HasDistinctKeys, ih]

theorem everywhere_fits_iff : v.Everywhere Fits ↔ v.Wellformed ∧ v.Addressable := by
  rw [wellformed_iff_everywhere, Addressable, ← everywhere_and_iff]
  rfl

/-! ### Writing and removing -/

variable {root value : Value} {p : Path} {key : String} {i : Nat}

theorem Everywhere.entry (h : (Value.mapping entries).Everywhere P)
    (hget : Entries.get? entries key = some v) : v.Everywhere P :=
  (everywhere_mapping_iff.1 h).2 _ (Entries.mem_of_get?_eq_some hget)

theorem Everywhere.item (h : (Value.sequence items).Everywhere P) (hget : items[i]? = some v) :
    v.Everywhere P :=
  (everywhere_sequence_iff.1 h).2 _ (List.mem_of_getElem? hget)

theorem everywhere_nil : (Value.mapping []).Everywhere Fits :=
  everywhere_mapping_iff.2 ⟨⟨List.nodup_nil, trivial⟩, fun _ h => nomatch h⟩

theorem Everywhere.insert (h : (Value.mapping entries).Everywhere Fits) (hv : v.Everywhere Fits) :
    (Value.mapping (Entries.insert entries key v)).Everywhere Fits := by
  obtain ⟨⟨hdistinct, -⟩, hentries⟩ := everywhere_mapping_iff.1 h
  refine everywhere_mapping_iff.2 ⟨⟨hdistinct.insert key v, trivial⟩, fun e he => ?_⟩
  rcases Entries.eq_or_mem_of_mem_insert he with rfl | he
  · exact hv
  · exact hentries e he

theorem Everywhere.erase (h : (Value.mapping entries).Everywhere Fits) :
    (Value.mapping (Entries.erase entries key)).Everywhere Fits := by
  obtain ⟨⟨hdistinct, -⟩, hentries⟩ := everywhere_mapping_iff.1 h
  refine everywhere_mapping_iff.2 ⟨⟨hdistinct.erase key, trivial⟩, fun e he => ?_⟩
  exact hentries e ((Entries.erase_sublist entries key).subset he)

theorem Everywhere.setItem (h : (Value.sequence items).Everywhere Fits) (hv : v.Everywhere Fits) :
    (Value.sequence (items.set i v)).Everywhere Fits := by
  obtain ⟨⟨-, hindices⟩, hitems⟩ := everywhere_sequence_iff.1 h
  refine everywhere_sequence_iff.2 ⟨⟨trivial, ?_⟩, fun u hu => ?_⟩
  · rwa [HasIndices, List.length_set]
  · rcases List.mem_or_eq_of_mem_set hu with hu | rfl
    · exact hitems u hu
    · exact hv

/-- An item is appended at its index, so there is one for it. -/
theorem Everywhere.append (h : (Value.sequence items).Everywhere Fits) (hv : v.Everywhere Fits)
    (hlength : items.length < Text.indexBound) :
    (Value.sequence (items ++ [v])).Everywhere Fits := by
  obtain ⟨-, hitems⟩ := everywhere_sequence_iff.1 h
  refine everywhere_sequence_iff.2 ⟨⟨trivial, ?_⟩, fun u hu => ?_⟩
  · rw [HasIndices, List.length_append]
    exact hlength
  · rcases List.mem_append.1 hu with hu | hu
    · exact hitems u hu
    · exact List.mem_singleton.1 hu ▸ hv

theorem Everywhere.eraseIdx (h : (Value.sequence items).Everywhere Fits) :
    (Value.sequence (items.eraseIdx i)).Everywhere Fits := by
  obtain ⟨⟨-, hindices⟩, hitems⟩ := everywhere_sequence_iff.1 h
  refine everywhere_sequence_iff.2 ⟨⟨trivial, ?_⟩, fun u hu => ?_⟩
  · exact Nat.le_trans (List.length_eraseIdx_le items i) hindices
  · exact hitems u (List.mem_of_mem_eraseIdx hu)

/-- What a writing that goes below an entry starts from. -/
theorem Everywhere.getD (h : (Value.mapping entries).Everywhere Fits) :
    ((Entries.get? entries key).getD (.mapping [])).Everywhere Fits := by
  cases hget : Entries.get? entries key with
  | none => exact everywhere_nil
  | some v => exact h.entry hget

/-- Writing keeps what has to hold everywhere, whether it comes to its end or is stopped on the way. -/
theorem Everywhere.set (hroot : root.Everywhere Fits) (hvalue : value.Everywhere Fits)
    (hp : p.InBounds) : (root.set p value).tree.Everywhere Fits := by
  fun_induction Value.set root p value with
  | case1 => exact hvalue
  | case2 => exact hroot.insert hvalue
  | case3 => exact hroot.setItem hvalue
  | case4 => exact hroot.append hvalue (hp _ List.mem_cons_self)
  | case7 rest value _ es name below ih => exact hroot.insert (ih hroot.getD hvalue hp.tail)
  | case8 rest value _ items i item hitem below ih =>
    exact hroot.setItem (ih (hroot.item hitem) hvalue hp.tail)
  | _ => exact hroot

theorem Everywhere.remove (hroot : root.Everywhere Fits) : (root.remove p).tree.Everywhere Fits := by
  fun_induction Value.remove root p with
  | case2 => exact hroot.erase
  | case3 => exact hroot.eraseIdx
  | case5 rest _ es name item hget below ih => exact hroot.insert (ih (hroot.entry hget))
  | case7 rest _ items i item hitem below ih => exact hroot.setItem (ih (hroot.item hitem))
  | _ => exact hroot

end Value

open Value

namespace Document

variable {d : Document} {p : Path} {value : Value}

/-- No sequence in the document, at any depth, is longer than there are indices. -/
def Addressable (d : Document) : Prop := (Value.mapping d).Addressable

/-- The document as a value keeps what has to hold everywhere. -/
theorem everywhere_set (hd : (Value.mapping d).Everywhere Fits) (hvalue : value.Everywhere Fits)
    (hp : p.InBounds) : (Value.mapping (d.set p value).tree).Everywhere Fits := by
  fun_cases Document.set d p value
  · exact hd
  · exact hd.insert hvalue
  · exact hd.insert (hd.getD.set hvalue hp.tail)

theorem everywhere_remove (hd : (Value.mapping d).Everywhere Fits) :
    (Value.mapping (d.remove p).tree).Everywhere Fits := by
  fun_cases Document.remove d p
  · exact hd
  · exact hd.erase
  · next hget _ => exact hd.insert (hd.entry hget).remove
  · exact hd

end Document

namespace FlatDocument

/-- One call that changes a document. -/
inductive Edit where
  /-- Writes a value at a path text. -/
  | set (text : String) (value : Value)
  /-- Removes what is at a path text. -/
  | remove (text : String)

/-- The view after one edit, whether the edit succeeded or not. -/
def edit (flat : FlatDocument) : Edit → FlatDocument
  | .set text value => (flat.set text value).1
  | .remove text => (flat.remove text).1

/-- The view after edits, one after the other. -/
def editAll (flat : FlatDocument) (edits : List Edit) : FlatDocument := edits.foldl edit flat

/-- The value that an edit writes, if it writes one, is such as can be written. -/
def Edit.Sound : Edit → Prop
  | .set _ value => value.Wellformed ∧ value.Addressable
  | .remove _ => True

variable {flat : FlatDocument} {e : Edit} {edits : List Edit}

/-- One edit keeps what has to hold everywhere in the document. -/
theorem everywhere_edit (hflat : (Value.mapping flat.document).Everywhere Fits) (he : e.Sound) :
    (Value.mapping (flat.edit e).document).Everywhere Fits := by
  cases e with
  | set text value =>
    rw [edit, FlatDocument.set, Path.parseText]
    cases hparse : Path.parse text with
    | error fault => exact hflat
    | ok p =>
      exact Document.everywhere_set hflat (everywhere_fits_iff.2 he) (Path.inBounds_of_elements hparse)
  | remove text =>
    rw [edit, FlatDocument.remove]
    cases Path.parse text with
    | error fault => exact hflat
    | ok p => exact Document.everywhere_remove hflat

/-- Any number of edits leaves a document in which no key is twice in a mapping and each item has an
index. -/
theorem wellformed_editAll (hd : flat.document.Wellformed) (hindices : flat.document.Addressable)
    (hedits : ∀ e ∈ edits, e.Sound) :
    (flat.editAll edits).document.Wellformed ∧ (flat.editAll edits).document.Addressable := by
  refine everywhere_fits_iff.1 ?_
  have hflat : (Value.mapping flat.document).Everywhere Fits := everywhere_fits_iff.2 ⟨hd, hindices⟩
  clear hd hindices
  induction edits generalizing flat with
  | nil => exact hflat
  | cons e edits ih =>
    exact ih (fun e' he' => hedits e' (List.mem_cons_of_mem _ he'))
      (everywhere_edit hflat (hedits e List.mem_cons_self))

end FlatDocument

end ConfigTree
