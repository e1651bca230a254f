import ConfigTree.Proofs.Document.Replaced
import Mathlib.Tactic.SplitIfs

/-!
# Values up to the order of entries

Two values are the same up to the order of entries when one is the other with the entries of mappings
permuted, at any depth (`Value.Reordered`). The items of a sequence keep their places.

Where no mapping has a key twice, the order of entries cannot be told by reading: what is read at a path
of one value is read, reordered, at the same path of the other (`Reordered.readsAlong`).
-/

namespace ConfigTree

namespace Value

mutual

/-- The second value is the first one with the entries of mappings permuted, at any depth. -/
inductive Reordered : Value → Value → Prop
  | null : Reordered .null .null
  | bool (b : Bool) : Reordered (.bool b) (.bool b)
  | number (n : Number) : Reordered (.number n) (.number n)
  | string (s : String) : Reordered (.string s) (.string s)
  | sequence {vs ws : List Value} : ReorderedItems vs ws → Reordered (.sequence vs) (.sequence ws)
  | mapping {es fs : List (String × Value)} :
      ReorderedEntries es fs → Reordered (.mapping es) (.mapping fs)

/-- Item by item, the second list is the first one with its entries permuted. -/
inductive ReorderedItems : List Value → List Value → Prop
  | nil : ReorderedItems [] []
  | cons {v w : Value} {vs ws : List Value} :
      Reordered v w → ReorderedItems vs ws → ReorderedItems (v :: vs) (w :: ws)

/-- The second list is a permutation of the first one, and its values are permuted likewise. -/
inductive ReorderedEntries : List (String × Value) → List (String × Value) → Prop
  | nil : ReorderedEntries [] []
  | cons {k : String} {v w : Value} {es fs : List (String × Value)} :
      Reordered v w → ReorderedEntries es fs → ReorderedEntries ((k, v) :: es) ((k, w) :: fs)
  | swap (e f : String × Value) (es : List (String × Value)) :
      ReorderedEntries (e :: f :: es) (f :: e :: es)
  | trans {es fs gs : List (String × Value)} :
      ReorderedEntries es fs → ReorderedEntries fs gs → ReorderedEntries es gs

end

mutual

@[refl] theorem Reordered.refl : ∀ v : Value, Reordered v v
  | .null => .null
  | .bool b => .bool b
  | .number n => .number n
  | .string s => .string s
  | .sequence vs => .sequence (ReorderedItems.refl vs)
  | .mapping es => .mapping (ReorderedEntries.refl es)

theorem ReorderedItems.refl : ∀ vs : List Value, ReorderedItems vs vs
  | [] => .nil
  | v :: vs => .cons (Reordered.refl v) (ReorderedItems.refl vs)

theorem ReorderedEntries.refl : ∀ es : List (String × Value), ReorderedEntries es es
  | [] => .nil
  | (_, v) :: es => .cons (Reordered.refl v) (ReorderedEntries.refl es)

end

mutual

@[symm] theorem Reordered.symm {v w : Value} : Reordered v w → Reordered w v
  | .null => .null
  | .bool b => .bool b
  | .number n => .number n
  | .string s => .string s
  | .sequence h => .sequence h.symm
  | .mapping h => .mapping h.symm

theorem ReorderedItems.symm {vs ws : List Value} : ReorderedItems vs ws → ReorderedItems ws vs
  | .nil => .nil
  | .cons h hs => .cons h.symm hs.symm

theorem ReorderedEntries.symm {es fs : List (String × Value)} :
    ReorderedEntries es fs → ReorderedEntries fs es
  | .nil => .nil
  | .cons h hs => .cons h.symm hs.symm
  | .swap e f es => .swap f e es
  | .trans h h' => .trans h'.symm h.symm

end

mutual

theorem Reordered.trans {u v w : Value} : Reordered u v → Reordered v w → Reordered u w
  | .null, .null => .null
  | .bool b, .bool _ => .bool b
  | .number n, .number _ => .number n
  | .string s, .string _ => .string s
  | .sequence h, .sequence h' => .sequence (h.trans h')
  | .mapping h, .mapping h' => .mapping (.trans h h')

theorem ReorderedItems.trans {us vs ws : List Value} :
    ReorderedItems us vs → ReorderedItems vs ws → ReorderedItems us ws
  | .nil, .nil => .nil
  | .cons h hs, .cons h' hs' => .cons (h.trans h') (hs.trans hs')

end

/-- Permuting the entries of one mapping is a way to reorder it. -/
theorem ReorderedEntries.of_perm {es fs : List (String × Value)} (h : es.Perm fs) :
    ReorderedEntries es fs := by
  induction h with
  | nil => exact .nil
  | cons e _ ih => exact .cons (.refl e.2) ih
  | swap e f es => exact .swap f e es
  | trans _ _ ih ih' => exact .trans ih ih'

/-! ### Keys -/

theorem ReorderedEntries.keys_perm {es fs : List (String × Value)} :
    ReorderedEntries es fs → (Entries.keys es).Perm (Entries.keys fs)
  | .nil => .nil
  | .cons _ hs => .cons _ hs.keys_perm
  | .swap e f es => .swap f.1 e.1 (Entries.keys es)
  | .trans h h' => h.keys_perm.trans h'.keys_perm

theorem ReorderedEntries.distinct {es fs : List (String × Value)} (h : ReorderedEntries es fs)
    (hes : Entries.Distinct es) : Entries.Distinct fs :=
  h.keys_perm.nodup hes

mutual

/-- Reordering brings in no second entry of a key. -/
theorem Reordered.wellformed {v w : Value} : Reordered v w → v.Wellformed → w.Wellformed
  | .null, _ => by simp [Wellformed]
  | .bool _, _ => by simp [Wellformed]
  | .number _, _ => by simp [Wellformed]
  | .string _, _ => by simp [Wellformed]
  | .sequence h, hv => h.wellformed hv
  | .mapping h, hv => ⟨h.distinct hv.1, h.wellformed hv.2⟩

theorem ReorderedItems.wellformed {vs ws : List Value} :
    ReorderedItems vs ws → WellformedItems vs → WellformedItems ws
  | .nil, _ => by simp [WellformedItems]
  | .cons h hs, hv => ⟨h.wellformed hv.1, hs.wellformed hv.2⟩

theorem ReorderedEntries.wellformed {es fs : List (String × Value)} :
    ReorderedEntries es fs → WellformedEntries es → WellformedEntries fs
  | .nil, _ => by simp [WellformedEntries]
  | .cons h hs, hv => ⟨h.wellformed hv.1, hs.wellformed hv.2⟩
  | .swap _ _ _, hv => ⟨hv.2.1, hv.1, hv.2.2⟩
  | .trans h h', hv => h'.wellformed (h.wellformed hv)

end

/-! ### Reading -/

theorem wellformed_of_entriesGet? {es : List (String × Value)} {key : String} {v : Value}
    (hes : WellformedEntries es) (h : Entries.get? es key = some v) : v.Wellformed := by
  induction es with
  | nil => cases h
  | cons e es ih =>
    rw [Entries.get?] at h
    split at h
    · cases h
      exact hes.1
    · exact ih hes.2 h

theorem wellformed_of_getElem? {vs : List Value} {i : Nat} {v : Value} (hvs : WellformedItems vs)
    (h : vs[i]? = some v) : v.Wellformed := by
  induction vs generalizing i with
  | nil => simp at h
  | cons x vs ih =>
    cases i with
    | zero =>
      cases h
      exact hvs.1
    | succ i =>
      rw [List.getElem?_cons_succ] at h
      exact ih hvs.2 h

theorem Wellformed.child? {v t : Value} {s : Segment} (hv : v.Wellformed)
    (h : v.child? s = some t) : t.Wellformed := by
  unfold Value.child? at h
  split at h
  · exact wellformed_of_entriesGet? hv.2 h
  · exact wellformed_of_entriesGet? hv.2 h
  · exact wellformed_of_getElem? hv h
  · obtain ⟨i, -, h⟩ := Option.bind_eq_some_iff.1 h
    exact wellformed_of_getElem? hv h
  · cases h

theorem ReorderedEntries.get? {es fs : List (String × Value)} {key : String} {v : Value}
    (hes : Entries.Distinct es) :
    ReorderedEntries es fs → Entries.get? es key = some v →
      ∃ w, Entries.get? fs key = some w ∧ Reordered v w
  | .nil, hv => nomatch hv
  | @ReorderedEntries.cons k u w es fs h hs, hv => by
    rw [Entries.get?_cons] at hv ⊢
    by_cases hk : k = key
    · rw [if_pos hk] at hv ⊢
      cases hv
      exact ⟨w, rfl, h⟩
    · rw [if_neg hk] at hv ⊢
      exact hs.get? (List.nodup_cons.1 hes).2 hv
  | .swap e f es, hv => by
    have hne : e.1 ≠ f.1 := fun h => (List.nodup_cons.1 hes).1 (h ▸ List.mem_cons_self)
    exact ⟨v, (Entries.get?_swap es hne).trans hv, .refl v⟩
  | .trans h h', hv => by
    obtain ⟨u, hu, hvu⟩ := h.get? hes hv
    obtain ⟨w, hw, huw⟩ := h'.get? (h.distinct hes) hu
    exact ⟨w, hw, hvu.trans huw⟩

theorem ReorderedItems.getElem? {vs ws : List Value} {i : Nat} {v : Value}
    (h : ReorderedItems vs ws) (hv : vs[i]? = some v) : ∃ w, ws[i]? = some w ∧ Reordered v w := by
  induction vs generalizing ws i with
  | nil => simp at hv
  | cons x vs ih =>
    cases h with
    | cons hw hs =>
      cases i with
      | zero =>
        cases hv
        exact ⟨_, rfl, hw⟩
      | succ i =>
        rw [List.getElem?_cons_succ] at hv ⊢
        exact ih hs hv

/-- What is read of a value is read, reordered, of the other value. -/
theorem Reordered.readsAlong : ReadsAlong fun v w => v.Wellformed ∧ Reordered v w := by
  rintro v w s t ⟨hv, h⟩ ht
  suffices hchild : ∃ u, w.child? s = some u ∧ Reordered t u by
    obtain ⟨u, hu, htu⟩ := hchild
    exact ⟨u, hu, hv.child? ht, htu⟩
  cases h with
  | sequence h =>
    cases s with
    | index i => exact h.getElem? ht
    | key name =>
      obtain ⟨i, hi, ht⟩ := Option.bind_eq_some_iff.1 ht
      obtain ⟨u, hu, htu⟩ := h.getElem? ht
      exact ⟨u, Option.bind_eq_some_iff.2 ⟨i, hi, hu⟩, htu⟩
  | mapping h =>
    cases s with
    | index i => exact h.get? hv.1 ht
    | key name => exact h.get? hv.1 ht
  | _ => simp [Value.child?] at ht

/-- What is read at a path of a document is read there, reordered, in the other document. -/
theorem ReorderedEntries.documentGet? {d e : Document} {t : Value} {p : Path}
    (h : ReorderedEntries d e) (hd : d.Wellformed) (ht : Document.get? d p = some t) :
    ∃ u, Document.get? e p = some u ∧ Reordered t u := by
  have hentries : ∀ key v, Entries.get? d key = some v →
      ∃ w, Entries.get? e key = some w ∧ v.Wellformed ∧ Reordered v w := by
    intro key v hv
    obtain ⟨w, hw, hr⟩ := h.get? hd.1 hv
    exact ⟨w, hw, wellformed_of_entriesGet? hd.2 hv, hr⟩
  obtain ⟨u, hu, -, hr⟩ := Reordered.readsAlong.documentGet? hentries ht
  exact ⟨u, hu, hr⟩

/-! ### Replaced strings -/

variable {R S : String → Value → Prop}

mutual

/-- Replacing the strings of a reordered value gives the reordered result. -/
theorem Replaced.reordered {v w v' : Value} :
    Reordered v w → Replaced R v v' → ∃ w', Replaced R w w' ∧ Reordered v' w'
  | .null, .null => ⟨_, .null, .null⟩
  | .bool b, .bool _ => ⟨_, .bool b, .bool b⟩
  | .number n, .number _ => ⟨_, .number n, .number n⟩
  | .string _, .string h => ⟨_, .string h, .refl _⟩
  | .sequence hr, .sequence h =>
    have ⟨_, h', hr'⟩ := ReplacedItems.reordered hr h
    ⟨_, .sequence h', .sequence hr'⟩
  | .mapping hr, .mapping h =>
    have ⟨_, h', hr'⟩ := ReplacedEntries.reordered hr h
    ⟨_, .mapping h', .mapping hr'⟩

theorem ReplacedItems.reordered {vs ws vs' : List Value} :
    ReorderedItems vs ws → ReplacedItems R vs vs' →
      ∃ ws', ReplacedItems R ws ws' ∧ ReorderedItems vs' ws'
  | .nil, .nil => ⟨_, .nil, .nil⟩
  | .cons hr hrs, .cons h hs =>
    have ⟨_, h', hr'⟩ := Replaced.reordered hr h
    have ⟨_, hs', hrs'⟩ := ReplacedItems.reordered hrs hs
    ⟨_, .cons h' hs', .cons hr' hrs'⟩

theorem ReplacedEntries.reordered {es fs es' : List (String × Value)} :
    ReorderedEntries es fs → ReplacedEntries R es es' →
      ∃ fs', ReplacedEntries R fs fs' ∧ ReorderedEntries es' fs'
  | .nil, .nil => ⟨_, .nil, .nil⟩
  | .cons hr hrs, .cons h hs =>
    have ⟨_, h', hr'⟩ := Replaced.reordered hr h
    have ⟨_, hs', hrs'⟩ := ReplacedEntries.reordered hrs hs
    ⟨_, .cons h' hs', .cons hr' hrs'⟩
  | .swap _ _ _, .cons h (.cons h' hs) => ⟨_, .cons h' (.cons h hs), .swap _ _ _⟩
  | .trans hr hr', h =>
    have ⟨_, h', hr''⟩ := ReplacedEntries.reordered hr h
    have ⟨_, h'', hr'''⟩ := ReplacedEntries.reordered hr' h'
    ⟨_, h'', .trans hr'' hr'''⟩

end

mutual

/-- Replacing strings by reordered values gives the reordered result. -/
theorem Replaced.exists_reordered {v v' : Value}
    (hRS : ∀ s u, R s u → ∃ u', S s u' ∧ Reordered u u') :
    Replaced R v v' → ∃ v'', Replaced S v v'' ∧ Reordered v' v''
  | .null => ⟨_, .null, .null⟩
  | .bool b => ⟨_, .bool b, .bool b⟩
  | .number n => ⟨_, .number n, .number n⟩
  | .string h =>
    have ⟨_, h', hr⟩ := hRS _ _ h
    ⟨_, .string h', hr⟩
  | .sequence h =>
    have ⟨_, h', hr⟩ := h.exists_reordered hRS
    ⟨_, .sequence h', .sequence hr⟩
  | .mapping h =>
    have ⟨_, h', hr⟩ := h.exists_reordered hRS
    ⟨_, .mapping h', .mapping hr⟩

theorem ReplacedItems.exists_reordered {vs vs' : List Value}
    (hRS : ∀ s u, R s u → ∃ u', S s u' ∧ Reordered u u') :
    ReplacedItems R vs vs' → ∃ vs'', ReplacedItems S vs vs'' ∧ ReorderedItems vs' vs''
  | .nil => ⟨_, .nil, .nil⟩
  | .cons h hs =>
    have ⟨_, h', hr⟩ := h.exists_reordered hRS
    have ⟨_, hs', hrs⟩ := hs.exists_reordered hRS
    ⟨_, .cons h' hs', .cons hr hrs⟩

theorem ReplacedEntries.exists_reordered {es es' : List (String × Value)}
    (hRS : ∀ s u, R s u → ∃ u', S s u' ∧ Reordered u u') :
    ReplacedEntries R es es' → ∃ es'', ReplacedEntries S es es'' ∧ ReorderedEntries es' es''
  | .nil => ⟨_, .nil, .nil⟩
  | .cons h hs =>
    have ⟨_, h', hr⟩ := h.exists_reordered hRS
    have ⟨_, hs', hrs⟩ := hs.exists_reordered hRS
    ⟨_, .cons h' hs', .cons hr hrs⟩

end

end Value

end ConfigTree
