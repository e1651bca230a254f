import ConfigTree.Proofs.Document.Editing
import ConfigTree.Proofs.Document.LastWriter
import ConfigTree.Proofs.Document.Wellformed

/-!
# Reading what was written

Writing is strict about the kinds of what it meets on the way, and reading is lenient. Still, what was
written at a path is read there (`Document.get?_set`): a writing that came to its end leaves mappings where
the path has keys and sequences where it has indices.

The value is still read there when the document is laid over another one, if it is not a mapping
(`Document.get?_merge_of_get?`). On the way to it, mappings are merged with what is below them and keep
their entries; sequences are not merged at all.
-/

namespace ConfigTree

namespace Value

variable {root value v : Value} {items : List Value} {entries : List (String × Value)} {p : Path}
  {key : String} {i : Nat}

/-! ### One writing -/

theorem get?_cons_insert {rest : Path} (entries : List (String × Value)) (key : String) (v : Value) :
    (Value.mapping (Entries.insert entries key v)).get? (.key key :: rest) = v.get? rest := by
  rw [get?, child?, Entries.get?_insert_self, Option.bind_some]

theorem get?_cons_set {rest : Path} (h : i < items.length) (v : Value) :
    (Value.sequence (items.set i v)).get? (.index i :: rest) = v.get? rest := by
  rw [get?, child?, List.getElem?_set_self h, Option.bind_some]

/-- What was written at a path is read there. -/
theorem get?_set (h : (root.set p value).fault = none) :
    (root.set p value).tree.get? p = some value := by
  fun_induction Value.set root p value with
  | case1 => rfl
  | case2 value es name => exact get?_cons_insert es name value
  | case3 value items i hi => exact get?_cons_set hi value
  | case4 => simp [get?, child?]
  | case7 rest value _ es name below ih => exact (get?_cons_insert es name _).trans (ih h)
  | case8 rest value _ items i item hitem below ih =>
    have hi : i < items.length := (List.getElem?_eq_some_iff.1 hitem).1
    exact (get?_cons_set hi _).trans (ih h)
  | _ => cases h

theorem wellformed_sequence_iff : (Value.sequence items).Wellformed ↔ ∀ v ∈ items, v.Wellformed := by
  rw [Wellformed, wellformedItems_iff]

/-- Writing brings in no second entry of a key. -/
theorem Wellformed.set (hroot : root.Wellformed) (hvalue : value.Wellformed) :
    (root.set p value).tree.Wellformed := by
  have hset : ∀ {items : List Value} {i : Nat} {v : Value}, (Value.sequence items).Wellformed →
      v.Wellformed → (Value.sequence (items.set i v)).Wellformed := by
    intro items i v hitems hv
    refine wellformed_sequence_iff.2 fun u hu => ?_
    rcases List.mem_or_eq_of_mem_set hu with hu | rfl
    · exact wellformed_sequence_iff.1 hitems u hu
    · exact hv
  fun_induction Value.set root p value with
  | case1 => exact hvalue
  | case2 => exact Document.Wellformed.insert hroot hvalue
  | case3 => exact hset hroot hvalue
  | case4 value items =>
    refine wellformed_sequence_iff.2 fun u hu => ?_
    rcases List.mem_append.1 hu with hu | hu
    · exact wellformed_sequence_iff.1 hroot u hu
    · exact List.mem_singleton.1 hu ▸ hvalue
  | case7 rest value _ es name below ih =>
    refine Document.Wellformed.insert hroot (ih ?_ hvalue)
    cases hget : Entries.get? es name with
    | none => exact Document.wellformed_nil
    | some v => exact wellformed_of_entriesGet? hroot.2 hget
  | case8 rest value _ items i item hitem below ih =>
    exact hset hroot (ih (wellformed_sequence_iff.1 hroot _ (List.mem_of_getElem? hitem)) hvalue)
  | _ => exact hroot

/-! ### Laid over something else -/

/-- The second value is the first one, laid over something. -/
def LaidOver (v w : Value) : Prop := v.Wellformed ∧ ∃ below, w = overlay below v

theorem child?_mapping (s : Segment) :
    (Value.mapping entries).child? s = Entries.get? entries s.documentKey := by
  cases s <;> rfl

/-- What is read of a value is read, laid over something, when the value is. -/
theorem readsAlong_laidOver : ReadsAlong LaidOver := by
  rintro v w s t ⟨hv, below, rfl⟩ ht
  have hsame : ∃ u, v.child? s = some u ∧ LaidOver t u :=
    ⟨t, ht, hv.child? ht, none, (overlay_none t).symm⟩
  cases v with
  | mapping upper =>
    by_cases hbelow : ∃ lower, below = some (.mapping lower)
    · obtain ⟨lower, rfl⟩ := hbelow
      rw [child?_mapping] at ht
      rw [overlay_mapping, child?_mapping, Document.get?_merge_of_some hv.1 ht]
      exact ⟨_, rfl, wellformed_of_entriesGet? hv.2 ht, _, rfl⟩
    · rw [overlay_mapping_of_ne fun lower h => hbelow ⟨lower, h⟩]
      exact hsame
  | _ =>
    rw [overlay_of_entries?_eq_none rfl]
    exact hsame

end Value

open Value

namespace Document

variable {d lower upper : Document} {p : Path} {value v : Value}

/-- What was written at a path of a document is read there. -/
theorem get?_set (h : (d.set p value).fault = none) :
    Document.get? (d.set p value).tree p = some value := by
  revert h
  fun_cases Document.set d p value with
  | case1 => simp
  | case2 s => exact fun _ => get?_insert_of_eq rfl
  | case3 s rest below => exact fun h => (get?_insert_of_eq rfl).trans (Value.get?_set h)

/-- Writing into a document brings in no second entry of a key. -/
theorem Wellformed.set (hd : d.Wellformed) (hvalue : value.Wellformed) :
    Document.Wellformed (d.set p value).tree := by
  fun_cases Document.set d p value with
  | case1 => exact hd
  | case2 s => exact hd.insert hvalue
  | case3 s rest below =>
    refine hd.insert (Value.Wellformed.set ?_ hvalue)
    cases hget : Entries.get? d s.documentKey with
    | none => exact wellformed_nil
    | some v => exact wellformed_of_entriesGet? hd.2 hget

/-- What is read of a document and is not a mapping is read when the document is laid over another one. -/
theorem get?_merge_of_get? (hupper : upper.Wellformed) (h : upper.get? p = some v)
    (hv : v.entries? = none) : Document.get? (merge lower upper) p = some v := by
  obtain ⟨u, hu, -, below, rfl⟩ := readsAlong_laidOver.documentGet?
    (fun key w hw => ⟨_, get?_merge_of_some hupper.1 hw, wellformed_of_entriesGet? hupper.2 hw, _, rfl⟩) h
  rw [hu, overlay_of_entries?_eq_none hv]

end Document

end ConfigTree
