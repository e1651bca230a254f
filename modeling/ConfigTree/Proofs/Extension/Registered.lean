import ConfigTree.Extension.Registry
import ConfigTree.Proofs.Extension.Normal
import ConfigTree.Proofs.Text.ByteOrder
import Mathlib.Data.List.Dedup
import Mathlib.Data.List.Induction
import Mathlib.Data.String.Basic

/-!
# What is registered

Loaders are registered one after another, for extensions in any spelling, and looked up by extensions in any
spelling. Which loader is found, and which extensions are listed?

A lookup finds the loader that was registered last for an extension with the same normal form
(`get?_foldl_register`). The list holds the normal forms of all that was registered, each once and in order
(`lists_foldl_register`). The order is that of their bytes (`Lists.sorted_bytes`), and there are as many as there
are different ones (`Lists.length_eq`).
-/

namespace ConfigTree

/-- Where a step writes a part of a state, or else leaves it alone, the part holds in the end what was written
last. -/
theorem foldl_last_write {σ α β : Type} {step : σ → α → σ} (part : σ → Option β) (write : α → Option β)
    (hstep : ∀ s a, part (step s a) = (write a).or (part s)) (s : σ) (as : List α) :
    part (as.foldl step s) = (as.filterMap write).getLast?.or (part s) := by
  induction as generalizing s with
  | nil => rfl
  | cons a as ih =>
    rw [List.foldl_cons, ih, hstep, List.filterMap_cons]
    cases write a with
    | none => rfl
    | some b => cases h : (as.filterMap write).getLast? <;> simp [List.getLast?_cons, h]

namespace Registry

open Extension

variable {es : Entries ExtensionLoader} {key other : String} {loader : ExtensionLoader} {r : Registry}
  {rs : List (String × ExtensionLoader)}

/-! ### The loader that is found -/

/-- The loader that a registration gives for an extension; none when their normal forms differ. -/
def loaderFor (extension : String) (registration : String × ExtensionLoader) : Option ExtensionLoader :=
  if Extension.normalize registration.1 = Extension.normalize extension then some registration.2 else none

/-- The loader that was registered last for an extension with the same normal form. -/
def lastFor (rs : List (String × ExtensionLoader)) (extension : String) : Option ExtensionLoader :=
  (rs.filterMap (loaderFor extension)).getLast?

/-- It was registered. -/
theorem exists_mem_of_lastFor {extension : String} (h : lastFor rs extension = some loader) :
    ∃ name, (name, loader) ∈ rs := by
  obtain ⟨⟨name, l⟩, hmem, hloader⟩ := List.mem_filterMap.1 (List.mem_of_getLast? h)
  rw [loaderFor] at hloader
  split_ifs at hloader
  cases hloader
  exact ⟨name, hmem⟩

theorem lastFor_append (rs added : List (String × ExtensionLoader)) (extension : String) :
    lastFor (rs ++ added) extension = (lastFor added extension).or (lastFor rs extension) := by
  rw [lastFor, List.filterMap_append, List.getLast?_append, lastFor, lastFor]

theorem get?_insertSorted (es : Entries ExtensionLoader) (key other : String) (loader : ExtensionLoader) :
    Entries.get? (insertSorted es key loader) other =
      if key = other then some loader else Entries.get? es other := by
  induction es with
  | nil => rfl
  | cons e es ih =>
    obtain ⟨k, l⟩ := e
    rw [insertSorted, Entries.get?_cons k]
    by_cases hlt : key < k
    · rw [if_pos hlt, Entries.get?_cons, Entries.get?_cons]
    by_cases hkey : key = k
    · subst hkey
      rw [if_neg hlt, if_pos rfl, Entries.get?_cons]
      split_ifs <;> rfl
    · rw [if_neg hlt, if_neg hkey, Entries.get?_cons, ih]
      by_cases hother : k = other
      · rw [if_pos hother, if_pos hother, if_neg (hother ▸ hkey)]
      · rw [if_neg hother, if_neg hother]

/-- A lookup finds the loader that was just registered, if it is for the extension, and what was there before
otherwise. -/
theorem get?_register (r : Registry) (registration : String × ExtensionLoader) (extension : String) :
    (r.register registration.1 registration.2).get? extension =
      (loaderFor extension registration).or (r.get? extension) := by
  rw [register, get?, get?_insertSorted, loaderFor]
  split_ifs <;> rfl

/-- **The last registration for an extension is found**, in whichever spellings it was registered and is looked
up, and what was there before where there is none. -/
theorem get?_foldl_register (rs : List (String × ExtensionLoader)) (r : Registry) (extension : String) :
    (rs.foldl (fun r e => r.register e.1 e.2) r).get? extension = (lastFor rs extension).or (r.get? extension) :=
  foldl_last_write (fun r : Registry => r.get? extension) (loaderFor extension)
    (fun r e => get?_register r e extension) r rs

/-! ### The extensions that are listed -/

theorem mem_keys_insertSorted {k : String} :
    k ∈ Entries.keys (insertSorted es key loader) ↔ k = key ∨ k ∈ Entries.keys es := by
  rw [← Entries.isSome_get?_iff, ← Entries.isSome_get?_iff, get?_insertSorted]
  split_ifs with hk
  · simp [hk]
  · simp [Ne.symm hk]

theorem pairwise_keys_insertSorted (h : (Entries.keys es).Pairwise (· < ·)) (key : String)
    (loader : ExtensionLoader) : (Entries.keys (insertSorted es key loader)).Pairwise (· < ·) := by
  induction es with
  | nil => exact List.pairwise_singleton _ _
  | cons e es ih =>
    obtain ⟨k, l⟩ := e
    obtain ⟨hk, hes⟩ := List.pairwise_cons.1 h
    rw [insertSorted]
    by_cases hlt : key < k
    · rw [if_pos hlt]
      exact List.pairwise_cons.2 ⟨List.forall_mem_cons.2 ⟨hlt, fun k' hk' => hlt.trans (hk k' hk')⟩, h⟩
    by_cases hkey : key = k
    · subst hkey
      rw [if_neg hlt, if_pos rfl]
      exact h
    · rw [if_neg hlt, if_neg hkey]
      refine List.pairwise_cons.2 ⟨fun k' hk' => ?_, ih hes⟩
      rcases mem_keys_insertSorted.1 hk' with rfl | hk'
      · exact lt_of_le_of_ne (not_lt.1 hlt) (Ne.symm hkey)
      · exact hk k' hk'

/-- The listed extensions are those that were registered, in normal form and in order. -/
structure Lists (r : Registry) (registered : List String) : Prop where
  /-- They are in order. -/
  sorted : r.extensions.Pairwise (· < ·)
  /-- They are the normal forms of what was registered. -/
  mem_iff : ∀ e, e ∈ r.extensions ↔ e ∈ registered.map Extension.normalize

theorem Lists.register {registered : List String} (h : r.Lists registered) (extension : String)
    (loader : ExtensionLoader) : (r.register extension loader).Lists (registered ++ [extension]) where
  sorted := pairwise_keys_insertSorted h.sorted _ _
  mem_iff e := by
    have hmem := h.mem_iff e
    rw [extensions] at hmem
    rw [extensions, Registry.register, mem_keys_insertSorted, hmem]
    simp [or_comm]

/-- **What was registered is listed, each extension in normal form and once, in order.** -/
theorem lists_foldl_register (rs : List (String × ExtensionLoader)) :
    (rs.foldl (fun r e => r.register e.1 e.2) ({} : Registry)).Lists (rs.map Prod.fst) := by
  induction rs using List.reverseRecOn with
  | nil => exact ⟨List.Pairwise.nil, fun e => by simp [extensions, Entries.keys]⟩
  | append_singleton rs e ih =>
    rw [List.foldl_append, List.map_append]
    exact ih.register e.1 e.2

namespace Lists

variable {registered : List String}

theorem sorted_bytes (h : r.Lists registered) : (r.extensions.map Text.bytes).Pairwise (· < ·) :=
  List.pairwise_map.2 (h.sorted.imp Text.bytes_lt_bytes)

theorem normalize_eq (h : r.Lists registered) {e : String} (he : e ∈ r.extensions) : Extension.normalize e = e := by
  obtain ⟨written, -, rfl⟩ := List.mem_map.1 ((h.mem_iff e).1 he)
  exact normalize_normalize written

/-- There are as many as there are different ones among the normal forms of what was registered. -/
theorem length_eq (h : r.Lists registered) :
    r.extensions.length = (registered.map Extension.normalize).dedup.length := by
  have hnodup : r.extensions.Nodup := h.sorted.imp ne_of_lt
  refine List.Perm.length_eq ((List.perm_ext_iff_of_nodup hnodup (List.nodup_dedup _)).2 fun e => ?_)
  rw [h.mem_iff, List.mem_dedup]

end Lists

end Registry

end ConfigTree
