import ConfigTree.Proofs.Document.Written

/-!
# The steps of a path

A segment selects a child of a container, and reading is lenient about how: an index selects from a mapping
the key with its decimal text, and a key that is an index selects an item. So one child has many names, and
paths that are spelled in different ways may lead to the same place. Among the names of a child there is one of
the kind that the container has (`Value.fitting?`), and two segments select the same child when this is the same
for both.

From this it can be told of two paths how they lie to each other in a value: whether they part at some
container (`Value.Parts`), and whether one of them goes along the other as far as it goes (`Value.Along`).

Writing takes only the segments that fit. What it does when it comes to its end is told step by step by
`Value.Writes`, and these are the only ways in which it does (`Value.set_eq_ok_iff`).
-/

namespace ConfigTree

/-- The position that a segment selects in a sequence. -/
def Segment.position? : Segment → Option Nat
  | .index i => some i
  | .key name => Text.readIndex? name.toList

namespace Value

variable {root value v u : Value} {s t : Segment} {p q : Path} {items : List Value}
  {entries : List (String × Value)} {name : String} {i : Nat}

/-! ### What a segment selects -/

/-- The name of the child that a segment selects, of the kind that the container has: a key of a mapping, an
index of a sequence. -/
def fitting? : Value → Segment → Option Segment
  | .mapping _, s => some (.key s.documentKey)
  | .sequence _, s => s.position?.map .index
  | _, _ => none

theorem child?_sequence (items : List Value) (s : Segment) :
    (Value.sequence items).child? s = s.position?.bind (items[·]?) := by
  cases s <;> rfl

theorem get?_cons (v : Value) (s : Segment) (p : Path) :
    v.get? (s :: p) = (v.child? s).bind (·.get? p) := rfl

theorem get?_cons_mapping (entries : List (String × Value)) (s : Segment) (p : Path) :
    (Value.mapping entries).get? (s :: p) = (Entries.get? entries s.documentKey).bind (·.get? p) := by
  rw [get?_cons, child?_mapping]

theorem get?_cons_sequence (items : List Value) (s : Segment) (p : Path) :
    (Value.sequence items).get? (s :: p) = (s.position?.bind (items[·]?)).bind (·.get? p) := by
  rw [get?_cons, child?_sequence]

/-- Of a sequence only the item at the position of the segment is read. -/
theorem get?_cons_sequence_congr {items' : List Value}
    (h : ∀ i, s.position? = some i → items'[i]? = items[i]?) (p : Path) :
    (Value.sequence items').get? (s :: p) = (Value.sequence items).get? (s :: p) := by
  rw [get?_cons_sequence, get?_cons_sequence]
  cases hs : s.position? with
  | none => rfl
  | some i => rw [Option.bind_some, Option.bind_some, h i hs]

/-- Where a child is read, the segment selects it by a name that fits. -/
theorem child?_eq_bind_fitting? (v : Value) (s : Segment) : v.child? s = (v.fitting? s).bind v.child? := by
  cases v with
  | mapping entries => rw [child?_mapping, fitting?, Option.bind_some, child?_mapping, Segment.documentKey]
  | sequence items =>
    rw [child?_sequence, fitting?]
    cases s.position? <;> rfl
  | _ => cases s <;> rfl

/-- Segments that select the same child read the same. -/
theorem child?_congr (h : v.fitting? s = v.fitting? t) : v.child? s = v.child? t := by
  rw [child?_eq_bind_fitting?, h, ← child?_eq_bind_fitting?]

/-- So do paths that begin with such segments and go on in the same way. -/
theorem get?_cons_congr (h : v.fitting? s = v.fitting? t) (p : Path) : v.get? (s :: p) = v.get? (t :: p) := by
  rw [get?_cons, get?_cons, child?_congr h]

/-- What is read at a path that goes on is read below what is read where it goes on from. -/
theorem get?_append (v : Value) (p q : Path) : v.get? (p ++ q) = (v.get? p).bind (·.get? q) := by
  induction p generalizing v with
  | nil => rfl
  | cons s p ih =>
    rw [List.cons_append, get?_cons, get?_cons, Option.bind_assoc]
    exact Option.bind_congr fun u _ => ih u

/-- In the value the paths select the same children up to some container, and then different children of it. A
mapping that is missing on the way counts as an empty one. -/
inductive Parts : Value → Path → Path → Prop
  | here {v : Value} {s t : Segment} {p q : Path} : v.fitting? s ≠ v.fitting? t → Parts v (s :: p) (t :: q)
  | further {v : Value} {s t c : Segment} {p q : Path} : v.fitting? s = some c → v.fitting? t = some c →
      Parts ((v.child? c).getD (.mapping [])) p q → Parts v (s :: p) (t :: q)

theorem Parts.ne_nil (h : Parts v p q) : q ≠ [] := by
  cases h <;> exact List.cons_ne_nil _ _

/-- The first path selects the children that the second one selects, as far as it goes. So it leads to the place
of the second, or to a container around this place. -/
inductive Along : Value → Path → Path → Prop
  | here (v : Value) (p : Path) : Along v [] p
  | further {v u : Value} {s t c : Segment} {p q : Path} : v.fitting? s = some c → v.fitting? t = some c →
      v.child? c = some u → Along u q p → Along v (s :: q) (t :: p)

/-- Each segment of the path is of the kind that the container has from which it selects. -/
def Straight : Value → Path → Prop
  | _, [] => True
  | v, s :: p => v.fitting? s = some s ∧ ∀ u, v.child? s = some u → u.Straight p

/-! ### Writing -/

/-- Writing the value at the path turns the first tree into the second. -/
inductive Writes (value : Value) : Value → Path → Value → Prop
  /-- At the end of the path stands the value. -/
  | here (root : Value) : Writes value root [] value
  /-- Below an entry of a mapping, which is made where it is missing. -/
  | entry {entries : List (String × Value)} {name : String} {p : Path} {below : Value} :
      Writes value ((Entries.get? entries name).getD (.mapping [])) p below →
      Writes value (.mapping entries) (.key name :: p) (.mapping (Entries.insert entries name below))
  /-- Below an item of a sequence. -/
  | item {items : List Value} {i : Nat} {v : Value} {p : Path} {below : Value} : items[i]? = some v →
      Writes value v p below → Writes value (.sequence items) (.index i :: p) (.sequence (items.set i below))
  /-- Behind the last item of a sequence, where the path ends. -/
  | append (items : List Value) :
      Writes value (.sequence items) [.index items.length] (.sequence (items ++ [value]))

theorem set_entry (entries : List (String × Value)) (name : String) (p : Path) (value : Value) :
    (Value.mapping entries).set (.key name :: p) value =
      ⟨.mapping (Entries.insert entries name
          (((Entries.get? entries name).getD (.mapping [])).set p value).tree),
        (((Entries.get? entries name).getD (.mapping [])).set p value).fault⟩ := by
  cases p <;> rfl

theorem set_item (h : items[i]? = some v) (p : Path) (value : Value) :
    (Value.sequence items).set (.index i :: p) value =
      ⟨.sequence (items.set i (v.set p value).tree), (v.set p value).fault⟩ := by
  cases p with
  | nil =>
    have hi : i < items.length := (List.getElem?_eq_some_iff.1 h).1
    simp [Value.set, hi]
  | cons t p =>
    rw [Value.set]
    simp only [h]
    exact List.cons_ne_nil t p

theorem set_append (items : List Value) (value : Value) :
    (Value.sequence items).set [.index items.length] value = ⟨.sequence (items ++ [value]), none⟩ := by
  simp [Value.set]

/-- A step of a writing leads to an entry or to an item, or it is the last one and leads behind the items; or
nothing is changed and the writing is stopped. -/
theorem set_cases (root : Value) (s : Segment) (p : Path) :
    (∃ entries name, root = .mapping entries ∧ s = .key name) ∨
    (∃ items i v, root = .sequence items ∧ s = .index i ∧ items[i]? = some v) ∨
    (∃ items, root = .sequence items ∧ s = .index items.length ∧ p = []) ∨
    ∃ fault, ∀ value, root.set (s :: p) value = ⟨root, some fault⟩ := by
  cases root with
  | mapping entries =>
    cases s with
    | key name => exact .inl ⟨entries, name, rfl, rfl⟩
    | index i => cases p <;> exact .inr (.inr (.inr ⟨_, fun _ => rfl⟩))
  | sequence items =>
    cases s with
    | key name => cases p <;> exact .inr (.inr (.inr ⟨_, fun _ => rfl⟩))
    | index i =>
      cases hitem : items[i]? with
      | some v => exact .inr (.inl ⟨items, i, v, rfl, rfl, hitem⟩)
      | none =>
        have hi : items.length ≤ i := List.getElem?_eq_none_iff.1 hitem
        cases p with
        | nil =>
          by_cases heq : i = items.length
          · exact .inr (.inr (.inl ⟨items, rfl, by rw [heq], rfl⟩))
          · refine .inr (.inr (.inr ⟨.notAContainer, fun value => ?_⟩))
            rw [Value.set, if_neg (Nat.not_lt.2 hi), if_neg heq]
        | cons t p =>
          refine .inr (.inr (.inr ⟨.blocked (.index i), fun value => ?_⟩))
          rw [Value.set]
          simp only [hitem]
          exact List.cons_ne_nil t p
  | _ => cases p <;> exact .inr (.inr (.inr ⟨_, fun _ => rfl⟩))

theorem writes_of_set (h : (root.set p value).fault = none) : Writes value root p (root.set p value).tree := by
  induction p generalizing root with
  | nil => exact .here root
  | cons s p ih =>
    rcases set_cases root s p with ⟨entries, name, rfl, rfl⟩ | ⟨items, i, v, rfl, rfl, hitem⟩ |
      ⟨items, rfl, rfl, rfl⟩ | ⟨fault, hfault⟩
    · rw [set_entry] at h ⊢
      exact .entry (ih h)
    · rw [set_item hitem] at h ⊢
      exact .item hitem (ih h)
    · rw [set_append]
      exact .append items
    · rw [hfault] at h
      cases h

theorem set_of_writes (h : Writes value root p v) : root.set p value = ⟨v, none⟩ := by
  induction h with
  | here root => rfl
  | entry _ ih => rw [set_entry, ih]
  | item hitem _ ih => rw [set_item hitem, ih]
  | append items => exact set_append items value

/-- Writing comes to its end exactly in the ways in which a value is written. -/
theorem set_eq_ok_iff : root.set p value = ⟨v, none⟩ ↔ Writes value root p v := by
  refine ⟨fun h => ?_, set_of_writes⟩
  have hfault : (root.set p value).fault = none := by rw [h]
  have hwrites := writes_of_set hfault
  rwa [h] at hwrites

/-- What was written is read. -/
theorem Writes.get? (h : Writes value root p v) : v.get? p = some value := by
  have hset : root.set p value = ⟨v, none⟩ := set_of_writes h
  have hfault : (root.set p value).fault = none := by rw [hset]
  have hget := get?_set hfault
  rwa [hset] at hget

end Value

end ConfigTree
