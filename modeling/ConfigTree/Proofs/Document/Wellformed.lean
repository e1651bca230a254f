import ConfigTree.Document.Merge
import ConfigTree.Proofs.Document.Reordered

/-!
# No key twice, at any depth

Writing an entry, reading a written list and merging documents bring in no second entry of a key: where
values are well formed, so is what is made of them.
-/

namespace ConfigTree

namespace Value

variable {es fs : Document} {key : String} {v : Value}

theorem WellformedEntries.insert (hes : WellformedEntries es) (hv : v.Wellformed) :
    WellformedEntries (Entries.insert es key v) := by
  induction es with
  | nil => exact ⟨hv, trivial⟩
  | cons e es ih =>
    rw [Entries.insert]
    split
    · exact ⟨hv, hes.2⟩
    · exact ⟨hes.1, ih hes.2⟩

theorem wellformedEntries_insertAll (hes : WellformedEntries es) (hfs : WellformedEntries fs) :
    WellformedEntries (Entries.insertAll es fs) := by
  induction fs generalizing es with
  | nil => exact hes
  | cons f fs ih => exact ih (hes.insert hfs.1) hfs.2

/-- A mapping that is made of a written list is well formed where its values are. -/
theorem wellformed_ofList (hes : WellformedEntries es) :
    (Value.mapping (Entries.ofList es)).Wellformed :=
  ⟨Entries.distinct_ofList es, wellformedEntries_insertAll trivial hes⟩

theorem wellformed_strings (texts : List String) :
    (Value.sequence (texts.map Value.string)).Wellformed := by
  show WellformedItems (texts.map Value.string)
  induction texts with
  | nil => trivial
  | cons text texts ih => exact ⟨trivial, ih⟩

end Value

open Value

theorem Document.Wellformed.insert {d : Document} {key : String} {v : Value} (hd : d.Wellformed)
    (hv : v.Wellformed) : Document.Wellformed (Entries.insert d key v) :=
  ⟨hd.1.insert key v, WellformedEntries.insert hd.2 hv⟩

mutual

theorem Value.wellformed_overlay :
    ∀ (below : Option Value) (v : Value), (∀ u ∈ below, u.Wellformed) → v.Wellformed →
      (Value.overlay below v).Wellformed
  | below, .mapping upper, hbelow, hv => by
    unfold Value.overlay
    split
    · next lower => exact Document.wellformed_merge lower upper (hbelow _ rfl) hv.2
    · exact hv
  | _, .null, _, _ => by simp [Value.overlay, Wellformed]
  | _, .bool _, _, _ => by simp [Value.overlay, Wellformed]
  | _, .number _, _, _ => by simp [Value.overlay, Wellformed]
  | _, .string _, _, _ => by simp [Value.overlay, Wellformed]
  | _, .sequence _, _, hv => by simpa [Value.overlay] using hv

/-- Merging brings in no second entry of a key. -/
theorem Document.wellformed_merge :
    ∀ (lower upper : List (String × Value)), Document.Wellformed lower → WellformedEntries upper →
      Document.Wellformed (Document.merge lower upper)
  | lower, [], hlower, _ => by rwa [Document.merge]
  | lower, (key, v) :: upper, hlower, hupper => by
    rw [Document.merge]
    refine Document.wellformed_merge _ upper (hlower.insert ?_) hupper.2
    exact Value.wellformed_overlay _ v (fun u hu => wellformed_of_entriesGet? hlower.2 hu) hupper.1

end

theorem Document.Wellformed.merge {lower upper : Document} (hlower : lower.Wellformed)
    (hupper : upper.Wellformed) : Document.Wellformed (Document.merge lower upper) :=
  Document.wellformed_merge lower upper hlower hupper.2

theorem Document.wellformed_nil : Document.Wellformed [] := ⟨List.nodup_nil, trivial⟩

end ConfigTree
