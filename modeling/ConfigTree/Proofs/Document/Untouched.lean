import ConfigTree.Proofs.Document.Stepping

/-!
# What a writing leaves as it was

A writing that comes to its end changes the containers that it goes through, and in each of them only the child
that it goes through. So nothing changes for a reading that parts from the path somewhere
(`Value.Writes.get?_of_parts`).

Of the containers themselves little changes. What stands at a beginning of the path is written with the rest of
the path (`Value.Writes.get?_of_append`), so it is enough to see what one step does: a mapping may gain a key
behind the others, and below this key nothing stood that could gain one too; a sequence gets longer only at the
end of the path.

`Value.Kept` gathers this, and `Value.set_kept` states it of writing.
-/

namespace ConfigTree

namespace Value

variable {root value after v u : Value} {s t : Segment} {p q pre rest : Path} {items : List Value}
  {entries : List (String × Value)} {name : String} {i : Nat}

/-! ### Readings that part from the path -/

theorem get?_empty (hq : q ≠ []) : (Value.mapping []).get? q = none := by
  cases q with
  | nil => exact absurd rfl hq
  | cons s q => rw [get?_cons_mapping, Entries.get?_nil, Option.bind_none]

/-- A segment of another key reads the same of a mapping after an entry is written. -/
theorem get?_cons_insert_of_ne (v : Value) (hne : name ≠ s.documentKey) (q : Path) :
    (Value.mapping (Entries.insert entries name v)).get? (s :: q) = (Value.mapping entries).get? (s :: q) := by
  rw [get?_cons_mapping, get?_cons_mapping, Entries.get?_insert_of_ne entries v hne]

/-- What is read at a path that parts from the path of the writing is read as before. -/
theorem Writes.get?_of_parts (h : Writes value root p after) (hq : root.Parts p q) :
    after.get? q = root.get? q := by
  induction h generalizing q with
  | here => cases hq
  | @entry entries name p below _ ih =>
    cases hq with
    | here hne =>
      refine get?_cons_insert_of_ne below (fun heq => hne ?_) _
      rw [fitting?, fitting?, ← heq]
      rfl
    | @further _ _ t c _ q hname ht hparts =>
      -- Both go through the entry; where it is missing, nothing is read below it.
      obtain rfl : Segment.key name = c := Option.some.inj hname
      have hsame : ∀ es : List (String × Value),
          (Value.mapping es).get? (t :: q) = (Value.mapping es).get? (.key name :: q) :=
        fun _ => get?_cons_congr ht q
      have hbelow : below.get? q = ((Entries.get? entries name).getD (.mapping [])).get? q := ih hparts
      rw [hsame, hsame, get?_cons_insert, hbelow, get?_cons, child?_mapping, Segment.documentKey]
      cases Entries.get? entries name with
      | none => exact get?_empty hparts.ne_nil
      | some v => rfl
  | @item items i v p below hitem _ ih =>
    have hi : i < items.length := (List.getElem?_eq_some_iff.1 hitem).1
    cases hq with
    | here hne =>
      refine get?_cons_sequence_congr (fun j hj => List.getElem?_set_ne fun heq => hne ?_) _
      rw [fitting?, fitting?, hj, ← heq]
      rfl
    | @further _ _ t c _ q hindex ht hparts =>
      obtain rfl : Segment.index i = c := Option.some.inj hindex
      have hsame : ∀ vs : List Value,
          (Value.sequence vs).get? (t :: q) = (Value.sequence vs).get? (.index i :: q) :=
        fun _ => get?_cons_congr ht q
      have hv : (Value.sequence items).child? (.index i) = some v := hitem
      rw [hv, Option.getD_some] at hparts
      rw [hsame, hsame, get?_cons_set hi, ih hparts, get?_cons, hv, Option.bind_some]
  | append items =>
    cases hq with
    | @here _ _ t _ q hne =>
      refine get?_cons_sequence_congr (fun j hj => ?_) q
      have hend : j ≠ items.length := fun heq => hne (by rw [fitting?, fitting?, hj, heq]; rfl)
      by_cases hlt : j < items.length
      · exact List.getElem?_append_left hlt
      · have hgrown : (items ++ [value]).length ≤ j := by
          rw [List.length_append, List.length_singleton]
          omega
        rw [List.getElem?_eq_none hgrown, List.getElem?_eq_none (Nat.not_lt.1 hlt)]
    | further _ _ hparts => cases hparts

/-! ### The containers on the path -/

/-- What stands at a beginning of the path is written with the rest of the path. -/
theorem Writes.get?_of_append (h : Writes value root (pre ++ rest) after) (hpre : root.get? pre = some u) :
    ∃ u', after.get? pre = some u' ∧ Writes value u rest u' := by
  induction pre generalizing root after with
  | nil =>
    obtain rfl : root = u := Option.some.inj hpre
    exact ⟨after, rfl, h⟩
  | cons s pre ih =>
    rw [List.cons_append] at h
    generalize hp : pre ++ rest = p at h
    cases h with
    | @entry entries name _ below hbelow =>
      rw [get?_cons_mapping] at hpre
      obtain ⟨v, hv, hpre⟩ := Option.bind_eq_some_iff.1 hpre
      have hname : Entries.get? entries name = some v := hv
      rw [hname, Option.getD_some, ← hp] at hbelow
      obtain ⟨u', hu', hrest⟩ := ih hbelow hpre
      exact ⟨u', by rwa [get?_cons_insert], hrest⟩
    | @item items i v _ below hitem hbelow =>
      rw [get?_cons_sequence] at hpre
      obtain ⟨w, hw, hpre⟩ := Option.bind_eq_some_iff.1 hpre
      obtain rfl : v = w := Option.some.inj (hitem.symm.trans hw)
      rw [← hp] at hbelow
      obtain ⟨u', hu', hrest⟩ := ih hbelow hpre
      have hi : i < items.length := (List.getElem?_eq_some_iff.1 hitem).1
      exact ⟨u', by rwa [get?_cons_set hi], hrest⟩
    | append items =>
      rw [get?_cons_sequence] at hpre
      obtain ⟨w, hw, -⟩ := Option.bind_eq_some_iff.1 hpre
      have hend : items[items.length]? = some w := hw
      simp at hend

/-- A mapping that is written into keeps its keys, or it gains the key of the segment, behind the others. -/
theorem Writes.keys (h : Writes value (.mapping entries) (s :: p) after) :
    ∃ name entries', s = .key name ∧ after = .mapping entries' ∧
      (name ∈ Entries.keys entries ∧ Entries.keys entries' = Entries.keys entries ∨
        name ∉ Entries.keys entries ∧ Entries.keys entries' = Entries.keys entries ++ [name]) := by
  cases h with
  | @entry _ name _ below =>
    refine ⟨name, _, rfl, rfl, ?_⟩
    by_cases hname : name ∈ Entries.keys entries
    · exact .inl ⟨hname, Entries.keys_insert_of_mem below hname⟩
    · exact .inr ⟨hname, Entries.keys_insert_of_not_mem below hname⟩

/-- A sequence that is written into keeps its length, or the path ends behind the last item and it gains one. -/
theorem Writes.length (h : Writes value (.sequence items) (s :: p) after) :
    ∃ items', after = .sequence items' ∧
      items'.length = if p = [] ∧ s = .index items.length then items.length + 1 else items.length := by
  cases h with
  | @item _ i _ _ below hitem =>
    have hi : i < items.length := (List.getElem?_eq_some_iff.1 hitem).1
    have hne : ¬ (p = [] ∧ Segment.index i = .index items.length) := by
      rintro ⟨-, heq⟩
      have := Segment.index.inj heq
      omega
    exact ⟨_, rfl, by rw [if_neg hne, List.length_set]⟩
  | append => exact ⟨_, rfl, by rw [if_pos ⟨rfl, rfl⟩, List.length_append, List.length_singleton]⟩

/-- At the path stands a mapping before and after, and it has gained a key. -/
def Gains (root after : Value) (pre : Path) : Prop :=
  ∃ entries entries', root.get? pre = some (.mapping entries) ∧ after.get? pre = some (.mapping entries') ∧
    Entries.keys entries' ≠ Entries.keys entries

/-- Where a mapping has gained a key, nothing was read below the key before. -/
theorem Writes.get?_of_gains (h : Writes value root (pre ++ s :: rest) after) (hgains : Gains root after pre)
    (q : Path) : root.get? (pre ++ s :: q) = none := by
  obtain ⟨entries, entries', hroot, hafter, hne⟩ := hgains
  obtain ⟨u, hu, hwrites⟩ := h.get?_of_append hroot
  obtain rfl : u = .mapping entries' := Option.some.inj (hu.symm.trans hafter)
  obtain ⟨name, _, rfl, heq, hkeys⟩ := hwrites.keys
  obtain rfl := Value.mapping.inj heq
  have hname : name ∉ Entries.keys entries := by
    rcases hkeys with ⟨-, hsame⟩ | ⟨hname, -⟩
    · exact absurd hsame hne
    · exact hname
  have hmissing : Entries.get? entries name = none := Entries.get?_eq_none_of_not_mem hname
  have hkey : Segment.documentKey (.key name) = name := rfl
  rw [get?_append, hroot, Option.bind_some, get?_cons_mapping, hkey, hmissing, Option.bind_none]

/-- No mapping further down gains a key too. -/
theorem Writes.gains_of_le {pre' rest' : Path} {s' : Segment} (h : Writes value root p after)
    (hp : p = pre ++ s :: rest) (hp' : p = pre' ++ s' :: rest') (hgains : Gains root after pre)
    (hgains' : Gains root after pre') (hle : pre <+: pre') : pre = pre' := by
  obtain ⟨more, rfl⟩ := hle
  cases more with
  | nil => rw [List.append_nil]
  | cons t more =>
    have heq : s :: rest = t :: (more ++ s' :: rest') := by
      rw [hp, List.append_assoc] at hp'
      exact List.append_cancel_left hp'
    have hs : s = t := (List.cons.inj heq).1
    obtain ⟨entries, _, hroot, -⟩ := hgains'
    have hnone : root.get? (pre ++ t :: more) = none := hs ▸ (hp ▸ h).get?_of_gains hgains more
    exact nomatch hroot.symm.trans hnone

/-! ### All together -/

/-- What has come of a value in which another one was written at a path. The containers strictly above the place
of the writing are those at the beginnings of the path that a segment follows. -/
structure Kept (root : Value) (p : Path) (value after : Value) : Prop where
  /-- The value is read where it was written. -/
  read : after.get? p = some value
  /-- What is read at a path that parts from this one is read as before. -/
  elsewhere : ∀ q, root.Parts p q → after.get? q = root.get? q
  /-- A mapping above keeps its keys in their order, or it gains one, behind the others. -/
  mapping : ∀ pre s rest entries, p = pre ++ s :: rest → root.get? pre = some (.mapping entries) →
    ∃ entries', after.get? pre = some (.mapping entries') ∧
      (Entries.keys entries' = Entries.keys entries ∨
        ∃ name, s = .key name ∧ name ∉ Entries.keys entries ∧
          Entries.keys entries' = Entries.keys entries ++ [name])
  /-- At most one mapping above gains a key. -/
  once : ∀ pre s rest pre' s' rest', p = pre ++ s :: rest → p = pre' ++ s' :: rest' →
    Gains root after pre → Gains root after pre' → pre = pre'
  /-- A sequence above keeps its length; only the last one gains an item, when the path ends with its length. -/
  sequence : ∀ pre s rest items, p = pre ++ s :: rest → root.get? pre = some (.sequence items) →
    ∃ items', after.get? pre = some (.sequence items') ∧
      items'.length = if rest = [] ∧ s = .index items.length then items.length + 1 else items.length

theorem Writes.kept (h : Writes value root p after) : Kept root p value after where
  read := h.get?
  elsewhere _ hq := h.get?_of_parts hq
  mapping pre s rest entries hp hentries := by
    obtain ⟨u, hu, hwrites⟩ := (hp ▸ h).get?_of_append hentries
    obtain ⟨name, entries', hs, rfl, hkeys⟩ := hwrites.keys
    refine ⟨entries', hu, ?_⟩
    rcases hkeys with ⟨-, hsame⟩ | ⟨hname, hmore⟩
    · exact .inl hsame
    · exact .inr ⟨name, hs, hname, hmore⟩
  once pre s rest pre' s' rest' hp hp' hgains hgains' := by
    have hprefix : pre <+: p := ⟨_, hp.symm⟩
    have hprefix' : pre' <+: p := ⟨_, hp'.symm⟩
    rcases List.prefix_or_prefix_of_prefix hprefix hprefix' with hle | hle
    · exact h.gains_of_le hp hp' hgains hgains' hle
    · exact (h.gains_of_le hp' hp hgains' hgains hle).symm
  sequence pre s rest items hp hitems := by
    obtain ⟨u, hu, hwrites⟩ := (hp ▸ h).get?_of_append hitems
    obtain ⟨items', rfl, hlength⟩ := hwrites.length
    exact ⟨items', hu, hlength⟩

/-- Where a value is read by segments that fit, any value can be written; and writing the same value changes
nothing. -/
theorem exists_writes_of_straight (hp : root.Straight p) (hread : root.get? p = some v) (value : Value) :
    ∃ after, Writes value root p after ∧ (value = v → after = root) := by
  induction p generalizing root with
  | nil =>
    obtain rfl : root = v := Option.some.inj hread
    exact ⟨value, .here root, id⟩
  | cons s p ih =>
    obtain ⟨hs, hp⟩ := hp
    rw [get?_cons] at hread
    obtain ⟨u, hu, hread⟩ := Option.bind_eq_some_iff.1 hread
    obtain ⟨below, hbelow, hsame⟩ := ih (hp u hu) hread
    cases root with
    | mapping entries =>
      obtain ⟨name, rfl⟩ : ∃ name, s = .key name := ⟨_, (Option.some.inj hs).symm⟩
      have hname : Entries.get? entries name = some u := hu
      refine ⟨_, .entry (by rwa [hname]), fun heq => ?_⟩
      rw [hsame heq, Entries.insert_of_get? hname]
    | sequence items =>
      obtain ⟨i, -, rfl⟩ := Option.map_eq_some_iff.1 hs
      have hitem : items[i]? = some u := hu
      refine ⟨_, .item hitem hbelow, fun heq => ?_⟩
      obtain ⟨hi, rfl⟩ := List.getElem?_eq_some_iff.1 hitem
      rw [hsame heq, List.set_getElem_self]
    | _ => cases hs

theorem writes_self (hp : root.Straight p) (hvalue : root.get? p = some value) : Writes value root p root := by
  obtain ⟨after, hwrites, hsame⟩ := exists_writes_of_straight hp hvalue value
  rwa [hsame rfl] at hwrites

/-- **A value that was written is read, and nothing else is touched** but for the one key or the one item that
the writing adds. Writing what stands at the path, by segments that fit, changes nothing. -/
theorem set_kept (root : Value) (p : Path) (value : Value) :
    ((root.set p value).fault = none → Kept root p value (root.set p value).tree) ∧
      (root.Straight p → root.get? p = some value → root.set p value = ⟨root, none⟩) :=
  ⟨fun h => (writes_of_set h).kept, fun hp hvalue => set_of_writes (writes_self hp hvalue)⟩

/-- A mapping with a sequence, in which a mapping stands before a scalar. -/
def nested : Value :=
  .mapping [("list", .sequence [.mapping [("a", .bool true)], .null]), ("m", .mapping [("x", .string "y")])]

/-- A path on which a mapping is missing there. -/
def missingOne : Path := [.key "list", .index 0, .key "b", .key "c"]

/-- The scalar, named by a key, is read as before, and writing it again changes nothing. -/
theorem set_kept_nested :
    (nested.set missingOne .null).fault = none ∧
      Kept nested missingOne .null (nested.set missingOne .null).tree ∧
      nested.Parts missingOne [.key "list", .key "1"] ∧ nested.Straight [.key "list", .index 1] ∧
      nested.get? [.key "list", .index 1] = some .null ∧
      nested.set [.key "list", .index 1] .null = ⟨nested, none⟩ := by
  have hset : (nested.set missingOne .null).fault = none := rfl
  have hone : Text.readIndex? ['1'] = some 1 := by decide
  have hparts : nested.Parts missingOne [.key "list", .key "1"] := by
    refine .further (c := .key "list") rfl rfl (.here ?_)
    simp [nested, child?, Entries.get?, fitting?, Segment.position?, hone]
  have hstraight : nested.Straight [.key "list", .index 1] := by
    refine ⟨rfl, fun u hu => ?_⟩
    obtain rfl := Option.some.inj hu
    exact ⟨rfl, fun _ _ => trivial⟩
  exact ⟨hset, (set_kept _ _ _).1 hset, hparts, hstraight, rfl, (set_kept _ _ _).2 hstraight rfl⟩

end Value

end ConfigTree
