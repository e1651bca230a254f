import ConfigTree.Document.Strings
import ConfigTree.Path.Access

/-!
# Reading along

A path is read one child after the other. So what holds of each step holds of every path: where two
values are related and each child of the first is related to the same child of the second
(`Value.ReadsAlong`), whatever is read at a path of the first is related to what is read at this path of
the second.
-/

namespace ConfigTree

namespace Value

/-- Each child of a value is related to the same child of every value it is related to. -/
def ReadsAlong (Q : Value → Value → Prop) : Prop :=
  ∀ v w s t, Q v w → v.child? s = some t → ∃ u, w.child? s = some u ∧ Q t u

variable {Q : Value → Value → Prop} {v w t : Value} {s : Segment} {p : Path}

theorem ReadsAlong.get? (hQ : ReadsAlong Q) (h : Q v w) (ht : v.get? p = some t) :
    ∃ u, w.get? p = some u ∧ Q t u := by
  induction p generalizing v w with
  | nil =>
    cases ht
    exact ⟨w, rfl, h⟩
  | cons s p ih =>
    obtain ⟨c, hc, ht⟩ := Option.bind_eq_some_iff.1 ht
    obtain ⟨c', hc', h⟩ := hQ v w s c h hc
    obtain ⟨u, hu, htu⟩ := ih h ht
    exact ⟨u, Option.bind_eq_some_iff.2 ⟨c', hc', hu⟩, htu⟩

/-- Where each entry of a document is related to the same entry of another, so is what is read at any
path. -/
theorem ReadsAlong.documentGet? {d e : Document} (hQ : ReadsAlong Q)
    (h : ∀ key v, Entries.get? d key = some v → ∃ w, Entries.get? e key = some w ∧ Q v w)
    (ht : d.get? p = some t) : ∃ u, e.get? p = some u ∧ Q t u := by
  cases p with
  | nil => cases ht
  | cons s p =>
    obtain ⟨c, hc, ht⟩ := Option.bind_eq_some_iff.1 ht
    obtain ⟨c', hc', hcc'⟩ := h _ c hc
    obtain ⟨u, hu, htu⟩ := hQ.get? hcc' ht
    exact ⟨u, Option.bind_eq_some_iff.2 ⟨c', hc', hu⟩, htu⟩

/-! ### The strings that are read -/

theorem strings_subset_of_entriesGet? {es : List (String × Value)} {key : String}
    (h : Entries.get? es key = some v) : strings v ⊆ stringsOfEntries es := by
  induction es with
  | nil => cases h
  | cons e es ih =>
    rw [Entries.get?] at h
    split at h
    · cases h
      exact List.subset_append_left _ _
    · exact List.Subset.trans (ih h) (List.subset_append_right _ _)

theorem strings_subset_of_getElem? {vs : List Value} {i : Nat} (h : vs[i]? = some v) :
    strings v ⊆ stringsOfItems vs := by
  induction vs generalizing i with
  | nil => simp at h
  | cons x vs ih =>
    cases i with
    | zero =>
      cases h
      exact List.subset_append_left _ _
    | succ i => exact List.Subset.trans (ih h) (List.subset_append_right _ _)

theorem strings_subset_of_child? (h : v.child? s = some t) : strings t ⊆ strings v := by
  unfold child? at h
  split at h
  · exact strings_subset_of_entriesGet? h
  · exact strings_subset_of_entriesGet? h
  · exact strings_subset_of_getElem? h
  · obtain ⟨i, -, h⟩ := Option.bind_eq_some_iff.1 h
    exact strings_subset_of_getElem? h
  · cases h

theorem strings_subset_of_get? (h : v.get? p = some t) : strings t ⊆ strings v := by
  induction p generalizing v with
  | nil =>
    cases h
    exact List.Subset.refl _
  | cons s p ih =>
    obtain ⟨c, hc, h⟩ := Option.bind_eq_some_iff.1 h
    exact List.Subset.trans (ih h) (strings_subset_of_child? hc)

/-- The strings below a path of a document are strings of the document. -/
theorem strings_subset_of_documentGet? {d : Document} (h : d.get? p = some t) :
    strings t ⊆ stringsOfEntries d := by
  cases p with
  | nil => cases h
  | cons s p =>
    obtain ⟨c, hc, h⟩ := Option.bind_eq_some_iff.1 h
    exact List.Subset.trans (strings_subset_of_get? h) (strings_subset_of_entriesGet? hc)

end Value

/-! ### Reading a document in which an entry was written -/

namespace Document

variable {d : Document} {key : String} {w : Value} {first : Segment} {rest : Path}

theorem get?_insert_of_eq (h : first.documentKey = key) :
    Document.get? (Entries.insert d key w) (first :: rest) = w.get? rest := by
  rw [get?, h, Entries.get?_insert_self, Option.bind_some]

theorem get?_insert_of_ne (h : first.documentKey ≠ key) :
    Document.get? (Entries.insert d key w) (first :: rest) = d.get? (first :: rest) := by
  rw [get?, get?, Entries.get?_insert_of_ne _ _ (Ne.symm h)]

end Document

end ConfigTree
