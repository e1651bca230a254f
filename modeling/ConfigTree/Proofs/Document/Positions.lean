import ConfigTree.Document.Flat
import ConfigTree.Proofs.Document.Reordered

/-!
# Positions

A position of a value is told by the steps that lead to it, a key for each mapping and an index for each
sequence on the way. `Value.Holds` says what stands there. It knows nothing of texts, and of the ways in
which reading is lenient: no index leads into a mapping, and no key into a sequence.

Positions are ordered as they are written (`Value.Precedes`): where two of them part, the one that goes
on with the earlier entry or item comes first.

The leaves of a value are listed with the path that leads there so far (`Value.positionsAt`). Taken from
the top they are made of the leaves of the children (`positions_sequence`, `positions_mapping`), and
from this follows which they are (`mem_positions_iff`) and in which order they come
(`pairwise_positions`).
-/

namespace ConfigTree

namespace Value

/-- The value has no children: it is a scalar, an empty sequence or an empty mapping. -/
def IsLeaf : Value → Prop
  | .sequence items => items = []
  | .mapping entries => entries = []
  | _ => True

/-- What holds of leaves, and of containers where it holds of their children, holds of all values. -/
@[elab_as_elim]
theorem induction {motive : Value → Prop} (leaf : ∀ v, v.IsLeaf → motive v)
    (sequence : ∀ items, items ≠ [] → (∀ v ∈ items, motive v) → motive (.sequence items))
    (mapping : ∀ entries, entries ≠ [] → (∀ e ∈ entries, motive e.2) → motive (.mapping entries))
    (v : Value) : motive v := by
  cases v with
  | null | bool _ | number _ | string _ => exact leaf _ trivial
  | sequence items =>
    by_cases h : items = []
    · exact leaf _ h
    · exact sequence items h fun v _ => induction leaf sequence mapping v
  | mapping entries =>
    by_cases h : entries = []
    · exact leaf _ h
    · exact mapping entries h fun e _ => induction leaf sequence mapping e.2
termination_by sizeOf v
decreasing_by
  · have := List.sizeOf_lt_of_mem ‹v ∈ items›
    simp only [Value.sequence.sizeOf_spec]
    omega
  · obtain ⟨key, v⟩ := e
    have := List.sizeOf_lt_of_mem ‹(key, v) ∈ entries›
    simp only [Value.mapping.sizeOf_spec, Prod.mk.sizeOf_spec] at *
    omega

/-! ### What stands where -/

/-- At this position of the first value stands the second. -/
inductive Holds : Value → Path → Value → Prop
  /-- At its top a value stands itself. -/
  | here (v : Value) : Holds v [] v
  /-- What stands below an item of a sequence. -/
  | item {items : List Value} {i : Nat} {v u : Value} {p : Path} :
      items[i]? = some v → Holds v p u → Holds (.sequence items) (.index i :: p) u
  /-- What stands below an entry of a mapping. -/
  | entry {entries : List (String × Value)} {key : String} {v u : Value} {p : Path} :
      (key, v) ∈ entries → Holds v p u → Holds (.mapping entries) (.key key :: p) u

/-- The first position comes before the second in the order in which the value is written. -/
inductive Precedes : Value → Path → Path → Prop
  /-- Whatever is below one item comes before whatever is below a later one. -/
  | items {items : List Value} {i j : Nat} {p q : Path} :
      i < j → j < items.length → Precedes (.sequence items) (.index i :: p) (.index j :: q)
  /-- Below one item, the order is that of the item. -/
  | item {items : List Value} {i : Nat} {v : Value} {p q : Path} : items[i]? = some v →
      Precedes v p q → Precedes (.sequence items) (.index i :: p) (.index i :: q)
  /-- Whatever is below one entry comes before whatever is below a later one. -/
  | entries {entries : List (String × Value)} {key key' : String} {p q : Path} :
      [key, key'].Sublist (Entries.keys entries) →
      Precedes (.mapping entries) (.key key :: p) (.key key' :: q)
  /-- Below one entry, the order is that of its value. -/
  | entry {entries : List (String × Value)} {key : String} {v : Value} {p q : Path} :
      (key, v) ∈ entries → Precedes v p q →
      Precedes (.mapping entries) (.key key :: p) (.key key :: q)

variable {v u : Value} {items : List Value} {entries : List (String × Value)} {p : Path}

/-- Below a leaf there is nothing but the leaf itself. -/
theorem IsLeaf.holds_iff (h : v.IsLeaf) : v.Holds p u ↔ p = [] ∧ u = v := by
  constructor
  · rintro (_ | hitem | hentry)
    · exact ⟨rfl, rfl⟩
    · cases h
      simp at hitem
    · cases h
      simp at hentry
  · rintro ⟨rfl, rfl⟩
    exact .here _

/-- No position comes before itself. -/
theorem Wellformed.not_precedes_self (hv : v.Wellformed) : ¬ v.Precedes p p := by
  induction p generalizing v with
  | nil => exact fun h => nomatch h
  | cons s p ih =>
    intro h
    cases h with
    | items hlt => exact Nat.lt_irrefl _ hlt
    | item hitem h => exact ih (wellformed_of_getElem? hv hitem) h
    | entries hkeys => exact List.pairwise_iff_forall_sublist.1 hv.1 hkeys rfl
    | entry hentry h => exact ih (wellformed_of_entriesGet? hv.2 (hv.1.get?_of_mem hentry)) h

/-- What stands at a position is read at its path. -/
theorem Wellformed.get?_of_holds (hv : v.Wellformed) (h : v.Holds p u) : v.get? p = some u := by
  induction h with
  | here => rfl
  | item hitem _ ih =>
    refine Option.bind_eq_some_iff.2 ⟨_, hitem, ih (wellformed_of_getElem? hv hitem)⟩
  | entry hentry _ ih =>
    have hget := hv.1.get?_of_mem hentry
    exact Option.bind_eq_some_iff.2 ⟨_, hget, ih (wellformed_of_entriesGet? hv.2 hget)⟩

/-! ### The leaves -/

/-- The leaves of a value with their positions, in depth-first order. -/
def positions (v : Value) : List (Path × Value) := positionsAt [] v

mutual

/-- What is known of the way to a value stands before the positions of its leaves. -/
theorem positionsAt_append (here there : Path) :
    ∀ v : Value, positionsAt (here ++ there) v = (positionsAt there v).map (Prod.map (here ++ ·) id)
  | .null | .bool _ | .number _ | .string _ => by simp [positionsAt]
  | .sequence items => by
    rw [positionsAt, positionsAt]
    split
    · rfl
    · exact positionsOfItems_append here there 0 items
  | .mapping entries => by
    rw [positionsAt, positionsAt]
    split
    · rfl
    · exact positionsOfEntries_append here there entries

theorem positionsOfItems_append (here there : Path) : ∀ (i : Nat) (vs : List Value),
    positionsOfItems (here ++ there) i vs = (positionsOfItems there i vs).map (Prod.map (here ++ ·) id)
  | _, [] => by simp [positionsOfItems]
  | i, v :: vs => by
    rw [positionsOfItems, positionsOfItems, List.map_append, ← positionsAt_append here _ v,
      ← positionsOfItems_append here there (i + 1) vs, List.append_assoc]

theorem positionsOfEntries_append (here there : Path) : ∀ es : List (String × Value),
    positionsOfEntries (here ++ there) es = (positionsOfEntries there es).map (Prod.map (here ++ ·) id)
  | [] => by simp [positionsOfEntries]
  | (k, v) :: es => by
    rw [positionsOfEntries, positionsOfEntries, List.map_append, ← positionsAt_append here _ v,
      ← positionsOfEntries_append here there es, List.append_assoc]

end

/-- The leaves of a child, with the step that leads to it. -/
def positionsBelow (s : Segment) (v : Value) : List (Path × Value) :=
  v.positions.map (Prod.map (s :: ·) id)

theorem mem_positionsBelow_iff {s : Segment} :
    (p, u) ∈ positionsBelow s v ↔ ∃ q, p = s :: q ∧ (q, u) ∈ v.positions := by
  rw [positionsBelow, List.mem_map]
  constructor
  · rintro ⟨⟨q, w⟩, h, heq⟩
    obtain ⟨rfl, rfl⟩ := Prod.mk.inj heq
    exact ⟨q, rfl, h⟩
  · rintro ⟨q, rfl, h⟩
    exact ⟨(q, u), h, rfl⟩

theorem positions_of_isLeaf (h : v.IsLeaf) : v.positions = [([], v)] := by
  cases v with
  | sequence items =>
    cases h
    simp [positions, positionsAt]
  | mapping entries =>
    cases h
    simp [positions, positionsAt]
  | _ => simp [positions, positionsAt]

theorem positionsOfItems_nil_eq (i : Nat) (vs : List Value) :
    positionsOfItems [] i vs = (vs.zipIdx i).flatMap fun x => positionsBelow (.index x.2) x.1 := by
  induction vs generalizing i with
  | nil => simp [positionsOfItems]
  | cons v vs ih =>
    rw [positionsOfItems, ih, List.zipIdx_cons, List.flatMap_cons]
    exact congrArg (· ++ _) (positionsAt_append [.index i] [] v)

theorem positionsOfEntries_nil_eq (es : List (String × Value)) :
    positionsOfEntries [] es = es.flatMap fun e => positionsBelow (.key e.1) e.2 := by
  induction es with
  | nil => simp [positionsOfEntries]
  | cons e es ih =>
    obtain ⟨key, v⟩ := e
    rw [positionsOfEntries, ih, List.flatMap_cons]
    exact congrArg (· ++ _) (positionsAt_append [.key key] [] v)

theorem positions_sequence (h : items ≠ []) : (Value.sequence items).positions =
    items.zipIdx.flatMap fun x => positionsBelow (.index x.2) x.1 := by
  rw [positions, positionsAt, if_neg (by simpa using h), positionsOfItems_nil_eq]

theorem positions_mapping (h : entries ≠ []) : (Value.mapping entries).positions =
    entries.flatMap fun e => positionsBelow (.key e.1) e.2 := by
  rw [positions, positionsAt, if_neg (by simpa using h), positionsOfEntries_nil_eq]

/-- The leaves that are listed are all that there are, each at its position. -/
theorem mem_positions_iff : (p, u) ∈ v.positions ↔ v.Holds p u ∧ u.IsLeaf := by
  induction v using Value.induction generalizing p u with
  | leaf v hv =>
    rw [positions_of_isLeaf hv, List.mem_singleton, Prod.mk.injEq, hv.holds_iff]
    constructor
    · rintro ⟨rfl, rfl⟩
      exact ⟨⟨rfl, rfl⟩, hv⟩
    · exact fun h => h.1
  | sequence items hne ih =>
    rw [positions_sequence hne, List.mem_flatMap]
    constructor
    · rintro ⟨⟨v, i⟩, hv, hbelow⟩
      have hitem := List.mem_zipIdx_iff_getElem?.1 hv
      obtain ⟨q, rfl, hq⟩ := mem_positionsBelow_iff.1 hbelow
      obtain ⟨h, hleaf⟩ := (ih v (List.mem_of_getElem? hitem)).1 hq
      exact ⟨.item hitem h, hleaf⟩
    · rintro ⟨h, hleaf⟩
      cases h with
      | here => exact absurd hleaf hne
      | @item _ i v _ q hitem h =>
        refine ⟨(v, i), List.mem_zipIdx_iff_getElem?.2 hitem, mem_positionsBelow_iff.2 ⟨q, rfl, ?_⟩⟩
        exact (ih v (List.mem_of_getElem? hitem)).2 ⟨h, hleaf⟩
  | mapping entries hne ih =>
    rw [positions_mapping hne, List.mem_flatMap]
    constructor
    · rintro ⟨⟨key, v⟩, hentry, hbelow⟩
      obtain ⟨q, rfl, hq⟩ := mem_positionsBelow_iff.1 hbelow
      obtain ⟨h, hleaf⟩ := (ih _ hentry).1 hq
      exact ⟨.entry hentry h, hleaf⟩
    · rintro ⟨h, hleaf⟩
      cases h with
      | here => exact absurd hleaf hne
      | @entry _ key v _ q hentry h =>
        exact ⟨(key, v), hentry, mem_positionsBelow_iff.2 ⟨q, rfl, (ih _ hentry).2 ⟨h, hleaf⟩⟩⟩

theorem pairwise_snd_zipIdx (vs : List Value) : vs.zipIdx.Pairwise fun x y => x.2 < y.2 := by
  rw [List.pairwise_iff_getElem]
  intro i j hi hj hij
  simpa using hij

/-- The leaves are listed in the order in which they are written. -/
theorem pairwise_positions (v : Value) : v.positions.Pairwise fun x y => v.Precedes x.1 y.1 := by
  induction v using Value.induction with
  | leaf v hv => simp [positions_of_isLeaf hv]
  | sequence items hne ih =>
    rw [positions_sequence hne, List.pairwise_flatMap]
    refine ⟨fun ⟨v, i⟩ hv => ?_, ?_⟩
    · have hitem := List.mem_zipIdx_iff_getElem?.1 hv
      rw [positionsBelow, List.pairwise_map]
      exact (ih v (List.mem_of_getElem? hitem)).imp fun h => .item hitem h
    · refine (pairwise_snd_zipIdx items).imp_of_mem fun _ hy hlt x hx y hy' => ?_
      obtain ⟨p, hp, -⟩ := mem_positionsBelow_iff.1 hx
      obtain ⟨q, hq, -⟩ := mem_positionsBelow_iff.1 hy'
      rw [hp, hq]
      exact .items hlt (List.getElem?_eq_some_iff.1 (List.mem_zipIdx_iff_getElem?.1 hy)).1
  | mapping entries hne ih =>
    rw [positions_mapping hne, List.pairwise_flatMap]
    refine ⟨fun ⟨key, v⟩ hentry => ?_, ?_⟩
    · rw [positionsBelow, List.pairwise_map]
      exact (ih _ hentry).imp fun h => .entry hentry h
    · rw [List.pairwise_iff_forall_sublist]
      intro e f hef x hx y hy
      obtain ⟨p, hp, -⟩ := mem_positionsBelow_iff.1 hx
      obtain ⟨q, hq, -⟩ := mem_positionsBelow_iff.1 hy
      rw [hp, hq]
      exact .entries (hef.map Prod.fst)

end Value

open Value

namespace Document

/-- At this position of the document stands the value. The document itself stands at none. -/
def Holds (d : Document) (p : Path) (v : Value) : Prop := p ≠ [] ∧ (Value.mapping d).Holds p v

/-- The first position comes before the second in the order in which the document is written. -/
def Precedes (d : Document) (p q : Path) : Prop := (Value.mapping d).Precedes p q

variable {d : Document} {p : Path} {v : Value}

theorem positions_eq_flatMap (d : Document) :
    d.positions = d.flatMap fun e => positionsBelow (.key e.1) e.2 := positionsOfEntries_nil_eq d

theorem positions_eq_of_ne_nil (h : d ≠ []) : d.positions = (Value.mapping d).positions := by
  rw [positions_eq_flatMap, positions_mapping h]

theorem mem_positions_iff : (p, v) ∈ d.positions ↔ d.Holds p v ∧ v.IsLeaf := by
  by_cases hd : d = []
  · subst hd
    refine ⟨fun h => (nomatch h), ?_⟩
    rintro ⟨⟨hp, h⟩, -⟩
    have hleaf : (Value.mapping []).IsLeaf := rfl
    exact absurd (hleaf.holds_iff.1 h).1 hp
  · rw [positions_eq_of_ne_nil hd, Value.mem_positions_iff, Holds]
    refine ⟨fun ⟨h, hv⟩ => ⟨⟨?_, h⟩, hv⟩, fun ⟨⟨_, h⟩, hv⟩ => ⟨h, hv⟩⟩
    -- Whoever stands at the top is the mapping, and this has entries.
    rintro rfl
    cases h
    exact hd hv

theorem pairwise_positions (d : Document) :
    d.positions.Pairwise fun x y => d.Precedes x.1 y.1 := by
  by_cases hd : d = []
  · subst hd
    exact .nil
  · rw [positions_eq_of_ne_nil hd]
    exact Value.pairwise_positions _

/-- No two leaves have one position. -/
theorem Wellformed.nodup_positions (hd : d.Wellformed) : (d.positions.map Prod.fst).Nodup := by
  rw [List.Nodup, List.pairwise_map]
  refine (pairwise_positions d).imp fun h heq => ?_
  rw [heq] at h
  exact Value.Wellformed.not_precedes_self hd h

theorem Wellformed.get?_of_holds (hd : d.Wellformed) (h : d.Holds p v) : d.get? p = some v := by
  obtain ⟨hp, h⟩ := h
  cases h with
  | here => exact absurd rfl hp
  | entry hentry h =>
    exact Value.Wellformed.get?_of_holds hd (.entry hentry h)

end Document

end ConfigTree
