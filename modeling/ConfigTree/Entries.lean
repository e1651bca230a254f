/-!
# Ordered entries

A mapping is kept as the list of its entries, in the order in which their keys were first written.
Reading takes the first entry of a key. Writing an existing key changes its value in place; writing
a new key appends it.

## The model

`Entries α` is a plain list of pairs, so that a tree of mappings stays a plain inductive type.
That no key occurs twice is the separate predicate `Distinct`, which every operation here keeps.
Two ways of taking a key out are needed: `erase` closes the gap and keeps the order of the rest,
`swapErase` moves the last entry into the gap.
-/

namespace ConfigTree

universe u v

/-- Entries in order, each a key with its value. -/
abbrev Entries (α : Type u) : Type u := List (String × α)

namespace Entries

variable {α : Type u} {β : Type v}

/-- The keys, in order. -/
def keys (es : Entries α) : List String := es.map Prod.fst

/-- No key occurs twice. -/
def Distinct (es : Entries α) : Prop := (keys es).Nodup

instance (es : Entries α) : Decidable (Distinct es) := inferInstanceAs (Decidable (List.Nodup _))

/-- The value of the first entry with this key. -/
def get? : Entries α → String → Option α
  | [], _ => none
  | (k, v) :: es, key => if k = key then some v else get? es key

/-- Whether some entry has this key. -/
def contains (es : Entries α) (key : String) : Bool := (get? es key).isSome

/-- The entries with this key set to this value: in place when it is there, at the end when not. -/
def insert : Entries α → String → α → Entries α
  | [], key, value => [(key, value)]
  | (k, v) :: es, key, value => if k = key then (k, value) :: es else (k, v) :: insert es key value

/-- The entries without the first one that has this key, the others in their order. -/
def erase : Entries α → String → Entries α
  | [], _ => []
  | (k, v) :: es, key => if k = key then es else (k, v) :: erase es key

/-- The entries without the first one that has this key, the last entry put into its place. -/
def swapErase : Entries α → String → Entries α
  | [], _ => []
  | (k, v) :: es, key =>
    if k = key then
      match es.getLast? with
      | none => []
      | some last => last :: es.dropLast
    else (k, v) :: swapErase es key

/-- The first list with each entry of the second inserted, in turn. -/
def insertAll (es : Entries α) (extra : Entries α) : Entries α :=
  extra.foldl (fun acc e => insert acc e.1 e.2) es

/-- The entries that reading a written list gives: of a repeated key, its first place and its last value. -/
def ofList (es : List (String × α)) : Entries α := insertAll [] es

@[simp] theorem get?_nil (key : String) : get? ([] : Entries α) key = none := rfl

theorem get?_cons (k : String) (v : α) (es : Entries α) (key : String) :
    get? ((k, v) :: es) key = if k = key then some v else get? es key := rfl

theorem get?_insert_self (es : Entries α) (key : String) (value : α) :
    get? (insert es key value) key = some value := by
  induction es with
  | nil => simp [insert, get?]
  | cons e es ih => by_cases h : e.1 = key <;> simp [insert, get?, h, ih]

theorem get?_insert_of_ne (es : Entries α) {key other : String} (value : α) (h : key ≠ other) :
    get? (insert es key value) other = get? es other := by
  induction es with
  | nil => simp [insert, get?, h]
  | cons e es ih =>
    by_cases hk : e.1 = key
    · simp [insert, get?, hk, h]
    · simp [insert, get?, hk, ih]

theorem insert_insert (es : Entries α) (key : String) (first second : α) :
    insert (insert es key first) key second = insert es key second := by
  induction es with
  | nil => simp [insert]
  | cons e es ih => by_cases hk : e.1 = key <;> simp [insert, hk, ih]

/-- Which of two entries stands first decides nothing when their keys differ. -/
theorem get?_swap (es : Entries α) {first second : String × α} {key : String}
    (hne : first.1 ≠ second.1) :
    get? (second :: first :: es) key = get? (first :: second :: es) key := by
  by_cases hfirst : first.1 = key
  · have hsecond : second.1 ≠ key := fun h => hne (hfirst.trans h.symm)
    simp [get?, hfirst, hsecond]
  · simp [get?, hfirst]

/-- A key is read exactly when it is among the keys. -/
theorem isSome_get?_iff (es : Entries α) (key : String) : (get? es key).isSome ↔ key ∈ keys es := by
  induction es with
  | nil => simp [get?, keys]
  | cons e es ih =>
    by_cases h : e.1 = key
    · simp [get?, keys, h]
    · have hk : key ≠ e.1 := fun he => h he.symm
      simpa [get?, keys, h, hk] using ih

/-- Inserting a key that is there leaves the keys as they are. -/
theorem keys_insert_of_mem {es : Entries α} {key : String} (value : α) (h : key ∈ keys es) :
    keys (insert es key value) = keys es := by
  induction es with
  | nil => simp [keys] at h
  | cons e es ih =>
    by_cases hk : e.1 = key
    · simp [insert, keys, hk]
    · have hm : key ∈ keys es := by
        rcases List.mem_cons.1 h with he | he
        · exact absurd he.symm hk
        · exact he
      simpa [insert, keys, hk] using ih hm

/-- Inserting a new key puts it last. -/
theorem keys_insert_of_not_mem {es : Entries α} {key : String} (value : α) (h : key ∉ keys es) :
    keys (insert es key value) = keys es ++ [key] := by
  induction es with
  | nil => simp [insert, keys]
  | cons e es ih =>
    have hk : e.1 ≠ key := fun he => h (by simp [keys, he])
    have hm : key ∉ keys es := fun hm => h (List.mem_cons_of_mem _ hm)
    simpa [insert, keys, hk] using ih hm

theorem insert_of_not_mem {es : Entries α} {key : String} (value : α) (h : key ∉ keys es) :
    insert es key value = es ++ [(key, value)] := by
  induction es with
  | nil => rfl
  | cons e es ih =>
    have hk : e.1 ≠ key := fun he => h (by simp [keys, he])
    have hm : key ∉ keys es := fun hm => h (List.mem_cons_of_mem _ hm)
    simp [insert, hk, ih hm]

/-- Writing what is there already changes nothing. -/
theorem insert_of_get? {es : Entries α} {key : String} {value : α} (h : get? es key = some value) :
    insert es key value = es := by
  induction es with
  | nil => cases h
  | cons e es ih =>
    rw [get?] at h
    rw [insert]
    split
    · next hk => rw [if_pos hk] at h; rw [← Option.some.inj h]
    · next hk => rw [if_neg hk] at h; rw [ih h]

theorem eq_or_mem_of_mem_insert {es : Entries α} {key : String} {value : α} {e : String × α}
    (h : e ∈ insert es key value) : e = (key, value) ∨ e ∈ es := by
  induction es with
  | nil => exact .inl (List.mem_singleton.1 h)
  | cons f es ih =>
    rw [insert] at h
    split at h
    · next hkey =>
      rcases List.mem_cons.1 h with h | h
      · exact .inl (hkey ▸ h)
      · exact .inr (List.mem_cons_of_mem _ h)
    · rcases List.mem_cons.1 h with rfl | h
      · exact .inr List.mem_cons_self
      · exact (ih h).imp_right (List.mem_cons_of_mem _)

/-- Two entries may be written in either order, when one of them was there before. -/
theorem insert_comm {es : Entries α} {key other : String} (value value' : α) (hne : key ≠ other)
    (h : key ∈ keys es) :
    insert (insert es key value) other value' = insert (insert es other value') key value := by
  induction es with
  | nil => simp [keys] at h
  | cons e es ih =>
    by_cases hk : e.1 = key
    · simp [insert, hk, hne]
    · have hm : key ∈ keys es := by
        rcases List.mem_cons.1 h with he | he
        · exact absurd he.symm hk
        · exact he
      by_cases ho : e.1 = other
      · simp [insert, ho, hne.symm]
      · simp [insert, hk, ho, ih hm]

theorem get?_eq_none_of_not_mem {es : Entries α} {key : String} (h : key ∉ keys es) :
    get? es key = none := by
  rw [← Option.not_isSome_iff_eq_none, isSome_get?_iff]
  exact h

theorem mem_of_get?_eq_some {es : Entries α} {key : String} {value : α}
    (h : get? es key = some value) : (key, value) ∈ es := by
  induction es with
  | nil => simp at h
  | cons e es ih =>
    rw [get?] at h
    split at h
    · next hk =>
      rw [← Option.some.inj h, ← hk]
      exact List.mem_cons_self
    · exact List.mem_cons_of_mem _ (ih h)

/-- Where no key occurs twice, each entry is the one that is read. -/
theorem Distinct.get?_of_mem {es : Entries α} (hes : Distinct es) {key : String} {value : α}
    (h : (key, value) ∈ es) : get? es key = some value := by
  induction es with
  | nil => cases h
  | cons e es ih =>
    obtain ⟨hkey, hes⟩ := List.nodup_cons.1 hes
    rcases List.mem_cons.1 h with rfl | h
    · rw [get?, if_pos rfl]
    · have hne : e.1 ≠ key := fun hk => hkey (List.mem_map.2 ⟨(key, value), h, hk.symm⟩)
      rw [get?, if_neg hne, ih hes h]

/-- Inserting keeps the keys distinct. -/
theorem Distinct.insert {es : Entries α} (h : Distinct es) (key : String) (value : α) :
    Distinct (Entries.insert es key value) := by
  unfold Distinct at *
  by_cases hk : key ∈ keys es
  · rwa [keys_insert_of_mem value hk]
  · rw [keys_insert_of_not_mem value hk, List.nodup_append]
    exact ⟨h, by simp, fun a ha b hb hab => hk (by simp_all)⟩

theorem erase_sublist (es : Entries α) (key : String) : (erase es key).Sublist es := by
  induction es with
  | nil => exact .slnil
  | cons e es ih =>
    rw [erase]
    split
    · exact List.sublist_cons_self _ _
    · exact ih.cons_cons _

/-- Erasing keeps the keys distinct. -/
theorem Distinct.erase {es : Entries α} (h : Distinct es) (key : String) : Distinct (Entries.erase es key) :=
  h.sublist ((erase_sublist es key).map Prod.fst)

theorem Distinct.insertAll {es : Entries α} (h : Distinct es) (extra : Entries α) :
    Distinct (Entries.insertAll es extra) := by
  induction extra generalizing es with
  | nil => exact h
  | cons e extra ih => exact ih (h.insert e.1 e.2)

/-- Of entries with distinct keys, none has the key of one that follows. -/
theorem Distinct.not_mem_of_append_cons {es fs : Entries α} {e : String × α}
    (h : Distinct (es ++ e :: fs)) : e.1 ∉ keys es := by
  simp only [Distinct, keys, List.map_append, List.nodup_append] at h
  exact fun hm => h.2.2 e.1 hm e.1 (by simp) rfl

/-- Entries with new keys are put behind what is there. -/
theorem insertAll_eq_append {es fs : Entries α} (h : Distinct (es ++ fs)) :
    insertAll es fs = es ++ fs := by
  induction fs generalizing es with
  | nil => simp [insertAll]
  | cons f fs ih =>
    have hinsert := insert_of_not_mem f.2 h.not_mem_of_append_cons
    rw [insertAll, List.foldl_cons, hinsert, ← insertAll, ih (by simpa using h), List.append_assoc]
    rfl

/-- A written list in which no key occurs twice is read as it stands. -/
theorem ofList_of_distinct {es : Entries α} (h : Distinct es) : ofList es = es :=
  insertAll_eq_append h

/-- What is read from a written list has each key once. -/
theorem distinct_ofList (es : List (String × α)) : Distinct (ofList es) := by
  have h : Distinct ([] : Entries α) := List.nodup_nil
  exact h.insertAll es

/-- Where no key occurs twice, an entry is read exactly when it is there. -/
theorem Distinct.get?_eq_some_iff {es : Entries α} (hes : Distinct es) {key : String} {value : α} :
    get? es key = some value ↔ (key, value) ∈ es :=
  ⟨mem_of_get?_eq_some, hes.get?_of_mem⟩

/-- Where no key occurs twice, the order of the entries does not matter for reading. -/
theorem Distinct.get?_perm {es fs : Entries α} (hes : Distinct es) (hfs : Distinct fs)
    (h : es.Perm fs) (key : String) : get? es key = get? fs key := by
  refine Option.ext fun value => ?_
  rw [hes.get?_eq_some_iff, hfs.get?_eq_some_iff, h.mem_iff]

/-- Where no key occurs twice, entries are told by the order of their keys and by what is read. -/
theorem Distinct.ext {es fs : Entries α} (hes : Distinct es) (hkeys : keys es = keys fs)
    (h : ∀ key, get? es key = get? fs key) : es = fs := by
  induction es generalizing fs with
  | nil => exact (List.map_eq_nil_iff.1 hkeys.symm).symm
  | cons e es ih =>
    cases fs with
    | nil => cases hkeys
    | cons f fs =>
      obtain ⟨k, v⟩ := e
      obtain ⟨k', w⟩ := f
      obtain ⟨rfl, htail⟩ : k = k' ∧ keys es = keys fs := List.cons.inj hkeys
      obtain ⟨hk, hes⟩ := List.nodup_cons.1 hes
      obtain rfl : v = w := by simpa [get?] using h k
      rw [ih hes htail fun key => ?_]
      by_cases hkey : k = key
      · subst hkey
        rw [get?_eq_none_of_not_mem hk, get?_eq_none_of_not_mem (htail ▸ hk)]
      · simpa [get?, hkey] using h key

theorem erase_of_not_mem {es : Entries α} {key : String} (h : key ∉ keys es) : erase es key = es := by
  induction es with
  | nil => rfl
  | cons e es ih =>
    obtain ⟨hk, hm⟩ := not_or.1 (mt List.mem_cons.2 h)
    rw [erase, if_neg (Ne.symm hk), ih hm]

/-- A new entry is taken out again. -/
theorem erase_insert_of_not_mem {es : Entries α} {key : String} (value : α) (h : key ∉ keys es) :
    erase (insert es key value) key = es := by
  induction es with
  | nil => simp [insert, erase]
  | cons e es ih =>
    obtain ⟨hk, hm⟩ := not_or.1 (mt List.mem_cons.2 h)
    rw [insert, if_neg (Ne.symm hk), erase, if_neg (Ne.symm hk), ih hm]

theorem get?_erase_self {es : Entries α} (hes : Distinct es) (key : String) :
    get? (erase es key) key = none := by
  induction es with
  | nil => rfl
  | cons e es ih =>
    obtain ⟨hkey, hes⟩ := List.nodup_cons.1 hes
    rw [erase]
    split
    · next hk => exact get?_eq_none_of_not_mem (hk ▸ hkey)
    · next hk => rw [get?, if_neg hk, ih hes]

theorem get?_erase_of_ne (es : Entries α) {key other : String} (h : key ≠ other) :
    get? (erase es key) other = get? es other := by
  induction es with
  | nil => rfl
  | cons e es ih =>
    rw [erase]
    split
    · next hk => rw [get?, if_neg (hk ▸ h)]
    · rw [get?, get?, ih]

/-- Taking a key out leaves the same entries, whether or not the last one fills the gap. -/
theorem swapErase_perm (es : Entries α) (key : String) : (swapErase es key).Perm (erase es key) := by
  induction es with
  | nil => exact .nil
  | cons e es ih =>
    rw [swapErase, erase]
    split
    · split
      · next hnone => rw [List.getLast?_eq_none_iff.1 hnone]
      · next last hlast =>
        obtain ⟨init, rfl⟩ := List.getLast?_eq_some_iff.1 hlast
        rw [List.dropLast_concat]
        exact (List.perm_append_singleton last init).symm
    · exact ih.cons e

theorem Distinct.swapErase {es : Entries α} (h : Distinct es) (key : String) :
    Distinct (Entries.swapErase es key) :=
  (((swapErase_perm es key).map Prod.fst).nodup_iff).2 (h.erase key)

theorem get?_swapErase_self {es : Entries α} (hes : Distinct es) (key : String) :
    get? (swapErase es key) key = none := by
  rw [(hes.swapErase key).get?_perm (hes.erase key) (swapErase_perm es key), get?_erase_self hes]

theorem get?_swapErase_of_ne {es : Entries α} (hes : Distinct es) {key other : String}
    (h : key ≠ other) : get? (swapErase es key) other = get? es other := by
  rw [(hes.swapErase key).get?_perm (hes.erase key) (swapErase_perm es key), get?_erase_of_ne es h]

/-- After entries are inserted, each of their keys has the value that they give it. -/
theorem Distinct.get?_insertAll {es extra : Entries α} (h : Distinct extra) (key : String) :
    get? (Entries.insertAll es extra) key = (get? extra key).or (get? es key) := by
  induction extra generalizing es with
  | nil => rfl
  | cons e extra ih =>
    obtain ⟨hkey, h⟩ := List.nodup_cons.1 h
    rw [Entries.insertAll, List.foldl_cons, ← Entries.insertAll, ih h, get?]
    by_cases hk : e.1 = key
    · subst hk
      rw [get?_eq_none_of_not_mem hkey, get?_insert_self, if_pos rfl]
      rfl
    · rw [get?_insert_of_ne es e.2 hk, if_neg hk]

/-- Entries whose keys are new follow what is there, in their order; the others keep their places. -/
theorem keys_insertAll (es : Entries α) {extra : Entries α} (h : Distinct extra) :
    keys (insertAll es extra) = keys es ++ (keys extra).filter (· ∉ keys es) := by
  induction extra generalizing es with
  | nil => simp [insertAll, keys]
  | cons e extra ih =>
    obtain ⟨hnew, h⟩ := List.nodup_cons.1 h
    have hcons : keys (e :: extra) = e.1 :: keys extra := rfl
    rw [insertAll, List.foldl_cons, ← insertAll, ih _ h, hcons]
    by_cases hk : e.1 ∈ keys es
    · simp [keys_insert_of_mem e.2 hk, hk]
    · have hfilter : (keys extra).filter (· ∉ keys es ++ [e.1]) = (keys extra).filter (· ∉ keys es) := by
        refine List.filter_congr fun k hmem => ?_
        have hne : k ≠ e.1 := fun heq => hnew (heq ▸ hmem)
        simp [hne]
      rw [keys_insert_of_not_mem e.2 hk, hfilter]
      simp [hk]

theorem keys_erase (es : Entries α) (key : String) : keys (erase es key) = (keys es).erase key := by
  induction es with
  | nil => rfl
  | cons e es ih =>
    rw [erase]
    by_cases hk : e.1 = key
    · simp [keys, hk]
    · simpa [keys, hk] using ih

theorem keys_swapErase_perm (es : Entries α) (key : String) :
    (keys (swapErase es key)).Perm ((keys es).erase key) := by
  rw [← keys_erase]
  exact (swapErase_perm es key).map Prod.fst

/-- Where no key occurs twice, taking a key out leaves the other keys. -/
theorem Distinct.mem_keys_swapErase_iff {es : Entries α} (hes : Distinct es) {key other : String} :
    other ∈ keys (Entries.swapErase es key) ↔ other ≠ key ∧ other ∈ keys es := by
  rw [(keys_swapErase_perm es key).mem_iff]
  exact hes.mem_erase_iff

end Entries

end ConfigTree
