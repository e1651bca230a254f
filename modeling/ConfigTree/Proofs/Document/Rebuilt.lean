import ConfigTree.Proofs.Document.AsMapping
import ConfigTree.Proofs.Document.Leaves
import ConfigTree.Proofs.Document.Stepping

/-!
# A document made of its leaves

Let the leaves of a document be written into an empty one, in the order in which they are listed. Does this give the
document back, the order of its keys included?

Writing makes mappings where something is missing, but no sequences, so the document must have no items in it. Then
it does (`FlatDocument.setAll_leaves`). The leaves below an entry stand together: the first one makes the entry,
behind those that were made before, and the others come back to it. So what is written below an entry is written
into a value by itself (`Value.WritesAll.underEntry`), and this is empty at the beginning; and a mapping is made of its
entries from the first to the last.
-/

namespace ConfigTree

namespace Value

variable {root mid after v : Value} {xs ys : List (Path × Value)} {entries : List (String × Value)} {name : String}

/-- If the value is a sequence, there is no item in it. -/
def HasNoItems : Value → Prop
  | .sequence items => items = []
  | _ => True

/-! ### Several writings -/

/-- Writing values at paths, from the first to the last, turns the first tree into the second. -/
inductive WritesAll : Value → List (Path × Value) → Value → Prop
  /-- Nothing is written. -/
  | nil (root : Value) : WritesAll root [] root
  /-- One value is written, and then the others. -/
  | cons {root mid after u : Value} {p : Path} {xs : List (Path × Value)} : Writes u root p mid →
      WritesAll mid xs after → WritesAll root ((p, u) :: xs) after

theorem WritesAll.append (h : WritesAll root xs mid) (h' : WritesAll mid ys after) :
    WritesAll root (xs ++ ys) after := by
  induction h with
  | nil => exact h'
  | cons hfirst _ ih => exact .cons hfirst (ih h')

theorem WritesAll.eq_of_nil (h : WritesAll root [] after) : root = after := by
  cases h
  rfl

/-- What is written into the value of an entry may be written below the entry, which is made if it is missing. -/
theorem WritesAll.underEntry (h : WritesAll ((Entries.get? entries name).getD (.mapping [])) xs v) (hne : xs ≠ []) :
    WritesAll (.mapping entries) (xs.map (Prod.map (.key name :: ·) id))
      (.mapping (Entries.insert entries name v)) := by
  induction xs generalizing entries with
  | nil => exact absurd rfl hne
  | cons x xs ih =>
    cases h with
    | @cons _ mid _ u p _ hfirst hrest =>
      refine .cons (.entry hfirst) ?_
      by_cases hxs : xs = []
      · subst hxs
        rw [hrest.eq_of_nil]
        exact .nil _
      · have hmid : (Entries.get? (Entries.insert entries name mid) name).getD (.mapping []) = mid := by
          rw [Entries.get?_insert_self, Option.getD_some]
        have hbelow := ih (hmid.symm ▸ hrest) hxs
        rwa [Entries.insert_insert] at hbelow

/-! ### The leaves of a mapping -/

/-- Entries are made behind those that are there, one after the other. -/
theorem writesAll_entries (before : List (String × Value)) {rest : List (String × Value)}
    (hdistinct : Entries.Distinct (before ++ rest))
    (hrest : ∀ e ∈ rest, WritesAll (.mapping []) e.2.positions e.2) :
    WritesAll (.mapping before) (rest.flatMap fun e => positionsBelow (.key e.1) e.2)
      (.mapping (before ++ rest)) := by
  induction rest generalizing before with
  | nil =>
    rw [List.append_nil]
    exact .nil _
  | cons e rest ih =>
    obtain ⟨name, v⟩ := e
    have hname : name ∉ Entries.keys before := hdistinct.not_mem_of_append_cons
    have hstart : (Entries.get? before name).getD (.mapping []) = .mapping [] := by
      rw [Entries.get?_eq_none_of_not_mem hname, Option.getD_none]
    have hfirst : WritesAll (.mapping []) v.positions v := hrest (name, v) List.mem_cons_self
    have hentry := WritesAll.underEntry (hstart.symm ▸ hfirst) v.positions_ne_nil
    rw [Entries.insert_of_not_mem v hname] at hentry
    have hothers : WritesAll (.mapping (before ++ [(name, v)]))
        (rest.flatMap fun e => positionsBelow (.key e.1) e.2) (.mapping (before ++ [(name, v)] ++ rest)) := by
      refine ih _ ?_ fun e he => hrest e (List.mem_cons_of_mem _ he)
      rwa [List.append_assoc]
    rw [List.append_assoc] at hothers
    exact hentry.append hothers

/-- A value without items is made of its leaves. -/
theorem writesAll_positions (hv : v.Wellformed) (hempty : v.Everywhere HasNoItems) :
    WritesAll (.mapping []) v.positions v := by
  induction v using Value.induction with
  | leaf v hleaf =>
    rw [positions_of_isLeaf hleaf]
    exact .cons (.here _) (.nil v)
  | sequence items hne => exact absurd (everywhere_sequence_iff.1 hempty).1 hne
  | mapping entries hne ih =>
    rw [positions_mapping hne]
    refine writesAll_entries [] hv.1 fun e he => ih e he ?_ ?_
    · exact wellformedEntries_iff.1 hv.2 e he
    · exact (everywhere_mapping_iff.1 hempty).2 e he

end Value

open Value

namespace FlatDocument

variable {d d' : Document} {xs : List (Path × Value)}

/-- The view after values are written at the texts of paths, from the first to the last; or the error of the first
writing that is stopped. -/
def setAll (flat : FlatDocument) : List (String × Value) → Except PathError FlatDocument
  | [] => .ok flat
  | (text, value) :: es =>
    match flat.set text value with
    | (flat, .ok ()) => setAll flat es
    | (_, .error e) => .error e

/-- The canonical texts of paths may stand for the paths, where these begin with keys. -/
theorem setAll_of_writesAll (h : WritesAll (.mapping d) xs (.mapping d'))
    (hxs : ∀ x ∈ xs, (∃ name rest, x.1 = .key name :: rest) ∧ x.1.InBounds) :
    setAll ⟨d⟩ (xs.map written) = .ok ⟨d'⟩ := by
  induction xs generalizing d with
  | nil =>
    obtain rfl := Value.mapping.inj h.eq_of_nil
    rfl
  | cons x xs ih =>
    cases h with
    | @cons _ mid _ u p _ hfirst hrest =>
      obtain ⟨⟨name, rest, rfl⟩, hbounds⟩ := hxs _ List.mem_cons_self
      have hset := (Document.set_mapping _ (.key name) rest u).symm.trans (set_of_writes hfirst)
      rw [Written.mk.injEq] at hset
      obtain ⟨rfl, hfault⟩ := hset
      have hparse := Path.parse_render (List.cons_ne_nil _ _) hbounds
      rw [List.map_cons, written, setAll, set_of_parse hparse, Written.outcome, hfault]
      exact ih hrest fun x hx => hxs x (List.mem_cons_of_mem _ hx)

/-- **A document is made of its leaves**, in their order, if there are no items in its sequences: each writing comes
to its end, and all together give the document, with the order of its keys. -/
theorem setAll_leaves {d : Document} (hd : d.Wellformed) (hempty : (Value.mapping d).Everywhere HasNoItems) :
    setAll ⟨[]⟩ (leaves ⟨d⟩) = .ok ⟨d⟩ := by
  have hindices : d.Addressable := fun p u hu => by
    have hu := hempty p u hu
    cases u with
    | sequence items =>
      obtain rfl : items = [] := hu
      exact Nat.zero_le _
    | _ => trivial
  rw [leaves_eq hd]
  refine setAll_of_writesAll ?_ fun x hx => ?_
  · rw [Document.positions_eq_flatMap]
    refine writesAll_entries [] hd.1 fun e he => writesAll_positions ?_ ?_
    · exact wellformedEntries_iff.1 hd.2 e he
    · exact (everywhere_mapping_iff.1 hempty).2 e he
  · obtain ⟨⟨hne, hholds⟩, -⟩ := Document.mem_positions_iff.1 hx
    refine ⟨?_, Addressable.inBounds_of_holds hindices hholds⟩
    cases hp : x.1 with
    | nil => exact absurd hp hne
    | cons s rest =>
      rw [hp] at hholds
      cases hholds
      exact ⟨_, _, rfl⟩

/-- Keys that are no names, one that looks like an index, and containers without children. -/
def awkwardKeys : Document :=
  [("a.b", .mapping [("", .mapping []), ("0", .sequence [])]), ("c", .null),
    ("", .mapping [("x", .mapping [("]", .bool true)])])]

theorem setAll_leaves_awkwardKeys :
    awkwardKeys.Wellformed ∧ (Value.mapping awkwardKeys).Everywhere HasNoItems ∧
      leaves ⟨awkwardKeys⟩ =
        [("[\"a.b\"][\"\"]", .mapping []), ("[\"a.b\"].0", .sequence []), ("c", .null),
          ("[\"\"].x[\"]\"]", .bool true)] ∧
      setAll ⟨[]⟩ (leaves ⟨awkwardKeys⟩) = .ok ⟨awkwardKeys⟩ := by
  have hwellformed : awkwardKeys.Wellformed := by decide
  have hnull : Everywhere HasNoItems .null := (everywhere_of_isLeaf (v := .null) trivial).2 trivial
  have hbool : Everywhere HasNoItems (.bool true) :=
    (everywhere_of_isLeaf (v := .bool true) trivial).2 trivial
  have hempty : (Value.mapping awkwardKeys).Everywhere HasNoItems := by
    simp [awkwardKeys, everywhere_mapping_iff, everywhere_sequence_iff, hnull, hbool, HasNoItems]
  exact ⟨hwellformed, hempty, by decide +kernel, setAll_leaves hwellformed hempty⟩

end FlatDocument

end ConfigTree
