import ConfigTree.Proofs.Document.Untouched

/-!
# Taking a value out

Removing follows a path as writing does, and it too takes only the segments that fit. What it does when it finds
something is told step by step by `Value.Removes`; otherwise it changes nothing (`Value.remove_eq_none_or_removes`).

Seen from the container at the end of the path, a value is taken out of it, and the others close up. Seen from
outside, this container is written anew where it stands (`Value.Removes.exists_writes`), so all that is known of
writings holds of removing as well.

And removing undoes the writing of something new: what was added by a writing is the last entry or the last item
of its container, and nothing is left of it (`Value.Writes.removes`).
-/

namespace ConfigTree

namespace Value

variable {root value after v u : Value} {s : Segment} {p parent pre rest : Path} {items : List Value}
  {entries : List (String × Value)} {name : String} {i : Nat}

/-! ### One removal -/

/-- Taking the value out at the path turns the first tree into the second. -/
inductive Removes (v : Value) : Value → Path → Value → Prop
  /-- Out of a mapping, where the path ends with its key. -/
  | key {entries : List (String × Value)} {name : String} : Entries.get? entries name = some v →
      Removes v (.mapping entries) [.key name] (.mapping (Entries.erase entries name))
  /-- Out of a sequence, where the path ends with its index. -/
  | index {items : List Value} {i : Nat} : items[i]? = some v →
      Removes v (.sequence items) [.index i] (.sequence (items.eraseIdx i))
  /-- Below an entry of a mapping. -/
  | entry {entries : List (String × Value)} {name : String} {u below : Value} {p : Path} :
      Entries.get? entries name = some u → Removes v u p below →
      Removes v (.mapping entries) (.key name :: p) (.mapping (Entries.insert entries name below))
  /-- Below an item of a sequence. -/
  | item {items : List Value} {i : Nat} {u below : Value} {p : Path} : items[i]? = some u →
      Removes v u p below → Removes v (.sequence items) (.index i :: p) (.sequence (items.set i below))

theorem remove_entry (h : Entries.get? entries name = some u) (hp : p ≠ []) :
    (Value.mapping entries).remove (.key name :: p) =
      ⟨.mapping (Entries.insert entries name (u.remove p).tree), (u.remove p).value⟩ := by
  cases p with
  | nil => exact absurd rfl hp
  | cons t p =>
    rw [Value.remove]
    · simp only [h]
    · exact List.cons_ne_nil t p

theorem remove_item (h : items[i]? = some u) (hp : p ≠ []) :
    (Value.sequence items).remove (.index i :: p) =
      ⟨.sequence (items.set i (u.remove p).tree), (u.remove p).value⟩ := by
  cases p with
  | nil => exact absurd rfl hp
  | cons t p =>
    rw [Value.remove]
    · simp only [h]
    · exact List.cons_ne_nil t p

/-- A step of a removal leads to an entry or to an item; or nothing is removed and nothing changed. -/
theorem remove_cases (root : Value) (s : Segment) (p : Path) :
    (∃ entries name u, root = .mapping entries ∧ s = .key name ∧ Entries.get? entries name = some u) ∨
    (∃ items i u, root = .sequence items ∧ s = .index i ∧ items[i]? = some u) ∨
    root.remove (s :: p) = ⟨root, none⟩ := by
  cases root with
  | mapping entries =>
    cases s with
    | key name =>
      cases hget : Entries.get? entries name with
      | some u => exact .inl ⟨entries, name, u, rfl, rfl, hget⟩
      | none =>
        refine .inr (.inr ?_)
        cases p with
        | nil =>
          have hname : name ∉ Entries.keys entries := by
            rw [← Entries.isSome_get?_iff, hget]
            exact Bool.false_ne_true
          rw [Value.remove, Entries.erase_of_not_mem hname, hget]
        | cons t p =>
          rw [Value.remove]
          · simp only [hget]
          · exact List.cons_ne_nil t p
    | index i => cases p <;> exact .inr (.inr rfl)
  | sequence items =>
    cases s with
    | key name => cases p <;> exact .inr (.inr rfl)
    | index i =>
      cases hitem : items[i]? with
      | some u => exact .inr (.inl ⟨items, i, u, rfl, rfl, hitem⟩)
      | none =>
        refine .inr (.inr ?_)
        cases p with
        | nil => rw [Value.remove, List.eraseIdx_of_length_le (List.getElem?_eq_none_iff.1 hitem), hitem]
        | cons t p =>
          rw [Value.remove]
          · simp only [hitem]
          · exact List.cons_ne_nil t p
  | _ => cases p <;> exact .inr (.inr rfl)

/-- Removing finds nothing and changes nothing, or it takes the value that it finds out. -/
theorem remove_eq_none_or_removes (root : Value) (p : Path) :
    root.remove p = ⟨root, none⟩ ∨ ∃ v after, root.remove p = ⟨after, some v⟩ ∧ Removes v root p after := by
  induction p generalizing root with
  | nil => exact .inl rfl
  | cons s p ih =>
    rcases remove_cases root s p with ⟨entries, name, u, rfl, rfl, hget⟩ | ⟨items, i, u, rfl, rfl, hitem⟩ |
      hnone
    · by_cases hp : p = []
      · subst hp
        exact .inr ⟨u, _, by rw [Value.remove, hget], .key hget⟩
      · rw [remove_entry hget hp]
        rcases ih u with hnone | ⟨v, below, hremove, hbelow⟩
        · exact .inl (by rw [hnone, Entries.insert_of_get? hget])
        · exact .inr ⟨v, _, by rw [hremove], .entry hget hbelow⟩
    · by_cases hp : p = []
      · subst hp
        exact .inr ⟨u, _, by rw [Value.remove, hitem], .index hitem⟩
      · rw [remove_item hitem hp]
        rcases ih u with hnone | ⟨v, below, hremove, hbelow⟩
        · obtain ⟨hi, rfl⟩ := List.getElem?_eq_some_iff.1 hitem
          exact .inl (by rw [hnone, List.set_getElem_self])
        · exact .inr ⟨v, _, by rw [hremove], .item hitem hbelow⟩
    · exact .inl hnone

/-- Where nothing is removed, nothing is changed. -/
theorem tree_remove_of_none (h : (root.remove p).value = none) : (root.remove p).tree = root := by
  rcases remove_eq_none_or_removes root p with hnone | ⟨v, after, hremove, -⟩
  · rw [hnone]
  · rw [hremove] at h
    cases h

theorem removes_of_remove (h : (root.remove p).value = some v) : Removes v root p (root.remove p).tree := by
  rcases remove_eq_none_or_removes root p with hnone | ⟨u, after, hremove, hremoves⟩
  · rw [hnone] at h
    cases h
  · rw [hremove] at h ⊢
    obtain rfl : u = v := Option.some.inj h
    exact hremoves

theorem Removes.ne_nil (h : Removes v root p after) : p ≠ [] := by
  cases h <;> exact List.cons_ne_nil _ _

theorem remove_of_removes (h : Removes v root p after) : root.remove p = ⟨after, some v⟩ := by
  induction h with
  | key hget => rw [Value.remove, hget]
  | index hitem => rw [Value.remove, hitem]
  | entry hget hbelow ih => rw [remove_entry hget hbelow.ne_nil, ih]
  | item hitem hbelow ih => rw [remove_item hitem hbelow.ne_nil, ih]

/-! ### The container, and what is around it -/

/-- The container is written anew without the value, in its place. -/
theorem Removes.exists_writes (h : Removes v root p after) :
    ∃ parent s c c', p = parent ++ [s] ∧ root.get? parent = some c ∧ Removes v c [s] c' ∧
      Writes c' root parent after := by
  induction h with
  | key hget => exact ⟨[], _, _, _, rfl, rfl, .key hget, .here _⟩
  | index hitem => exact ⟨[], _, _, _, rfl, rfl, .index hitem, .here _⟩
  | @entry entries name u _ _ hget _ ih =>
    obtain ⟨parent, s, c, c', rfl, hc, hremoves, hwrites⟩ := ih
    have hread : (Value.mapping entries).get? (.key name :: parent) = some c := by
      rw [get?_cons_mapping, Segment.documentKey, hget, Option.bind_some, hc]
    exact ⟨.key name :: parent, s, c, c', rfl, hread, hremoves, .entry (by rwa [hget])⟩
  | @item items i u _ _ hitem _ ih =>
    obtain ⟨parent, s, c, c', rfl, hc, hremoves, hwrites⟩ := ih
    have hread : (Value.sequence items).get? (.index i :: parent) = some c := by
      rw [get?_cons_sequence, Segment.position?, Option.bind_some, hitem, Option.bind_some, hc]
    exact ⟨.index i :: parent, s, c, c', rfl, hread, hremoves, .item hitem hwrites⟩

theorem Removes.get? (h : Removes v root p after) : root.get? p = some v := by
  induction h with
  | key hget => rw [get?_cons_mapping, Segment.documentKey, hget]; rfl
  | index hitem => rw [get?_cons_sequence, Segment.position?, Option.bind_some, hitem]; rfl
  | entry hget _ ih => rw [get?_cons_mapping, Segment.documentKey, hget, Option.bind_some, ih]
  | item hitem _ ih =>
    rw [get?_cons_sequence, Segment.position?, Option.bind_some, hitem, Option.bind_some, ih]

theorem Wellformed.get? (hroot : root.Wellformed) (h : root.get? p = some v) : v.Wellformed := by
  induction p generalizing root with
  | nil =>
    obtain rfl : root = v := Option.some.inj h
    exact hroot
  | cons s p ih =>
    obtain ⟨u, hu, h⟩ := Option.bind_eq_some_iff.1 h
    exact ih (hroot.child? hu) h

/-- A mapping above keeps its keys when something is written where something was read. -/
theorem Writes.keys_of_get? (h : Writes value (.mapping entries) (s :: p) after)
    (hread : (Value.mapping entries).get? (s :: p) = some u) :
    ∃ entries', after = .mapping entries' ∧ Entries.keys entries' = Entries.keys entries := by
  obtain ⟨name, entries', rfl, rfl, hkeys⟩ := h.keys
  refine ⟨entries', rfl, ?_⟩
  rcases hkeys with ⟨-, hsame⟩ | ⟨hname, -⟩
  · exact hsame
  · rw [get?_cons_mapping, Segment.documentKey, Entries.get?_eq_none_of_not_mem hname] at hread
    cases hread

/-- A sequence above keeps its length when something is written where something was read. -/
theorem Writes.length_of_get? (h : Writes value (.sequence items) (s :: p) after)
    (hread : (Value.sequence items).get? (s :: p) = some u) :
    ∃ items', after = .sequence items' ∧ items'.length = items.length := by
  obtain ⟨items', rfl, hlength⟩ := h.length
  refine ⟨items', rfl, ?_⟩
  rw [hlength, if_neg]
  rintro ⟨-, rfl⟩
  rw [get?_cons_sequence, Segment.position?, Option.bind_some, List.getElem?_eq_none le_rfl] at hread
  cases hread

/-- What has come of a value out of which another one was taken. It stood in the container at the first path, and
the segment led from there to it. -/
structure Taken (root : Value) (parent : Path) (s : Segment) (v after : Value) : Prop where
  /-- The value was read there. -/
  read : root.get? (parent ++ [s]) = some v
  /-- It stood in a mapping or in a sequence. -/
  container : (∃ entries, root.get? parent = some (.mapping entries)) ∨
    ∃ items, root.get? parent = some (.sequence items)
  /-- In a mapping it is missing now; the other keys have their values, in their order. -/
  mapping : ∀ entries, root.get? parent = some (.mapping entries) →
    after.get? (parent ++ [s]) = none ∧
      ∃ name entries', s = .key name ∧ after.get? parent = some (.mapping entries') ∧
        Entries.keys entries' = (Entries.keys entries).erase name ∧
        ∀ other, other ≠ name → Entries.get? entries' other = Entries.get? entries other
  /-- In a sequence the items behind it have moved up by one. -/
  sequence : ∀ items, root.get? parent = some (.sequence items) →
    ∃ i items', s = .index i ∧ after.get? parent = some (.sequence items') ∧
      (∀ j < i, items'[j]? = items[j]?) ∧ ∀ j, i ≤ j → items'[j]? = items[j + 1]?
  /-- What is read at a path that parts from the path of the container is read as before. -/
  elsewhere : ∀ q, root.Parts parent q → after.get? q = root.get? q
  /-- The mappings around the container keep their keys in their order. -/
  keys : ∀ pre t rest entries, parent = pre ++ t :: rest → root.get? pre = some (.mapping entries) →
    ∃ entries', after.get? pre = some (.mapping entries') ∧ Entries.keys entries' = Entries.keys entries
  /-- The sequences around it keep their lengths. -/
  length : ∀ pre t rest items, parent = pre ++ t :: rest → root.get? pre = some (.sequence items) →
    ∃ items', after.get? pre = some (.sequence items') ∧ items'.length = items.length

/-- Taken out of its container, a value leaves a mapping without its key or a sequence without its item. -/
theorem Removes.container (h : Removes v root [s] after) :
    (∃ entries name, root = .mapping entries ∧ s = .key name ∧ after = .mapping (Entries.erase entries name)) ∨
      ∃ items i, root = .sequence items ∧ s = .index i ∧ after = .sequence (items.eraseIdx i) := by
  cases h with
  | @key entries name => exact .inl ⟨entries, name, rfl, rfl, rfl⟩
  | @index items i => exact .inr ⟨items, i, rfl, rfl, rfl⟩
  | entry _ hbelow => exact absurd rfl hbelow.ne_nil
  | item _ hbelow => exact absurd rfl hbelow.ne_nil

theorem Removes.taken (h : Removes v root p after) (hroot : root.Wellformed) :
    ∃ parent s, p = parent ++ [s] ∧ Taken root parent s v after := by
  have hread := h.get?
  obtain ⟨parent, s, c, c', rfl, hc, hremoves, hwrites⟩ := h.exists_writes
  have hc' : after.get? parent = some c' := hwrites.get?
  refine ⟨parent, s, rfl, hread, ?_, ?_, ?_, fun _ => hwrites.get?_of_parts, ?_, ?_⟩
  · rcases hremoves.container with ⟨entries, _, rfl, -⟩ | ⟨items, _, rfl, -⟩
    · exact .inl ⟨entries, hc⟩
    · exact .inr ⟨items, hc⟩
  · intro entries hentries
    obtain rfl := Option.some.inj (hc.symm.trans hentries)
    obtain ⟨entries, name, heq, rfl, rfl⟩ | ⟨_, _, heq, -⟩ := hremoves.container
    · obtain rfl := Value.mapping.inj heq
      have hdistinct : Entries.Distinct entries := (hroot.get? hc).1
      refine ⟨?_, name, _, rfl, hc', Entries.keys_erase _ _, fun other hne => ?_⟩
      · rw [get?_append, hc', Option.bind_some, get?_cons_mapping, Segment.documentKey,
          Entries.get?_erase_self hdistinct, Option.bind_none]
      · exact Entries.get?_erase_of_ne _ (Ne.symm hne)
    · cases heq
  · intro items hitems
    obtain rfl := Option.some.inj (hc.symm.trans hitems)
    obtain ⟨_, _, heq, -⟩ | ⟨items, i, heq, rfl, rfl⟩ := hremoves.container
    · cases heq
    · obtain rfl := Value.sequence.inj heq
      refine ⟨i, _, rfl, hc', fun j hj => ?_, fun j hj => ?_⟩
      · exact List.getElem?_eraseIdx_of_lt hj
      · exact List.getElem?_eraseIdx_of_ge hj
  · intro pre t rest entries hparent hpre
    obtain ⟨u, hu, hrest⟩ := (hparent ▸ hwrites).get?_of_append hpre
    rw [hparent, get?_append, hpre, Option.bind_some] at hc
    obtain ⟨entries', rfl, hkeys⟩ := hrest.keys_of_get? hc
    exact ⟨entries', hu, hkeys⟩
  · intro pre t rest items hparent hpre
    obtain ⟨u, hu, hrest⟩ := (hparent ▸ hwrites).get?_of_append hpre
    rw [hparent, get?_append, hpre, Option.bind_some] at hc
    obtain ⟨items', rfl, hlength⟩ := hrest.length_of_get? hc
    exact ⟨items', hu, hlength⟩

/-! ### Undoing a writing -/

theorem Writes.eq_of_nil (h : Writes value root [] after) : after = value := by
  cases h
  rfl

/-- What is written where nothing was read, into a container that was there, is taken out again, and the tree is
as before. -/
theorem Writes.removes (h : Writes value root (parent ++ [s]) after) (hparent : root.get? parent = some u)
    (hnone : root.get? (parent ++ [s]) = none) : Removes value after (parent ++ [s]) root := by
  induction parent generalizing root after with
  | nil =>
    rw [List.nil_append] at h hnone ⊢
    cases h with
    | @entry entries name _ below hbelow =>
      obtain rfl : below = value := hbelow.eq_of_nil
      have hname : name ∉ Entries.keys entries := by
        rw [← Entries.isSome_get?_iff]
        intro hsome
        obtain ⟨w, hw⟩ := Option.isSome_iff_exists.1 hsome
        rw [get?_cons_mapping, Segment.documentKey, hw] at hnone
        cases hnone
      have hstep : Removes below (.mapping (Entries.insert entries name below)) [.key name]
          (.mapping (Entries.erase (Entries.insert entries name below) name)) :=
        .key (Entries.get?_insert_self entries name below)
      rwa [Entries.erase_insert_of_not_mem below hname] at hstep
    | @item items i v _ below hitem hbelow =>
      rw [get?_cons_sequence, Segment.position?, Option.bind_some, hitem] at hnone
      cases hnone
    | append items =>
      have hstep : Removes value (.sequence (items ++ [value])) [.index items.length]
          (.sequence ((items ++ [value]).eraseIdx items.length)) := .index List.getElem?_concat_length
      rwa [List.eraseIdx_append_of_length_le le_rfl, Nat.sub_self, List.eraseIdx_cons_zero,
        List.append_nil] at hstep
  | cons t parent ih =>
    rw [List.cons_append] at h hnone ⊢
    generalize hp : parent ++ [s] = p at h hnone ⊢
    cases h with
    | @entry entries name _ below hbelow =>
      rw [get?_cons_mapping, Segment.documentKey] at hparent hnone
      obtain ⟨v, hv, hparent⟩ := Option.bind_eq_some_iff.1 hparent
      rw [hv, Option.getD_some, ← hp] at hbelow
      rw [hv, Option.bind_some, ← hp] at hnone
      have hstep : Removes value (.mapping (Entries.insert entries name below)) (.key name :: (parent ++ [s]))
          (.mapping (Entries.insert (Entries.insert entries name below) name v)) :=
        .entry (Entries.get?_insert_self entries name below) (ih hbelow hparent hnone)
      rwa [Entries.insert_insert, Entries.insert_of_get? hv, hp] at hstep
    | @item items i v _ below hitem hbelow =>
      rw [get?_cons_sequence, Segment.position?, Option.bind_some, hitem, Option.bind_some] at hparent hnone
      rw [← hp] at hbelow hnone
      obtain ⟨hi, rfl⟩ := List.getElem?_eq_some_iff.1 hitem
      have hstep : Removes value (.sequence (items.set i below)) (.index i :: (parent ++ [s]))
          (.sequence ((items.set i below).set i items[i])) :=
        .item (List.getElem?_set_self hi) (ih hbelow hparent hnone)
      rwa [List.set_set, List.set_getElem_self, hp] at hstep
    | append items => exact absurd hp (List.append_ne_nil_of_right_ne_nil _ (List.cons_ne_nil _ _))

/-- **Removing takes out what is read and what was written.** Where it finds nothing it changes nothing. Where it
finds a value, this was read at the path, and it alone is gone: its mapping keeps the other keys in their order, its
sequence closes up, and nothing is touched outside this container. And where something new was written into a
container that was there, removing finds it and brings back the tree as it was. -/
theorem remove_taken (hroot : root.Wellformed) (p : Path) :
    ((root.remove p).value = none → (root.remove p).tree = root) ∧
      (∀ v, (root.remove p).value = some v →
        ∃ parent s, p = parent ++ [s] ∧ Taken root parent s v (root.remove p).tree) ∧
      ∀ parent s v, p = parent ++ [s] → (root.get? parent).isSome → root.get? p = none →
        (root.set p v).fault = none → (root.set p v).tree.remove p = ⟨root, some v⟩ := by
  refine ⟨tree_remove_of_none, fun v hv => (removes_of_remove hv).taken hroot, ?_⟩
  rintro parent s v rfl hparent hnone hfault
  obtain ⟨u, hu⟩ := Option.isSome_iff_exists.1 hparent
  exact remove_of_removes ((writes_of_set hfault).removes hu hnone)

/-- The first item of the list is taken out of the mapping with a list; by its key, which is read, it is not; and an
item that is put behind the list is taken off again. -/
theorem remove_taken_nested :
    nested.Wellformed ∧
      (nested.remove [.key "list", .index 0]).value = some (.mapping [("a", .bool true)]) ∧
      (∃ parent s, [.key "list", .index 0] = parent ++ [s] ∧
        Taken nested parent s (.mapping [("a", .bool true)]) (nested.remove [.key "list", .index 0]).tree) ∧
      (nested.remove [.key "list", .key "0"]).value = none ∧
      (nested.remove [.key "list", .key "0"]).tree = nested ∧
      nested.get? [.key "list", .index 2] = none ∧ (nested.set [.key "list", .index 2] .null).fault = none ∧
      (nested.set [.key "list", .index 2] .null).tree.remove [.key "list", .index 2] = ⟨nested, some .null⟩ := by
  have hnested : nested.Wellformed := by decide
  exact ⟨hnested, rfl, (remove_taken hnested _).2.1 _ rfl, rfl, (remove_taken hnested _).1 rfl, rfl, rfl,
    (remove_taken hnested _).2.2 [.key "list"] _ _ rfl rfl rfl rfl⟩

end Value

end ConfigTree
