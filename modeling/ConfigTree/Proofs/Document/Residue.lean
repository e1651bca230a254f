import ConfigTree.Proofs.Document.Stepping

/-!
# What a stopped writing leaves behind

A writing changes the tree while it goes down, before it is known whether the rest of the path fits. When it
is stopped, what it has made stays. This is little: nothing is made before a key is missing, from then on the
writing goes through mappings that are empty, and there only an index stops it. So either nothing has changed,
or one mapping has one new entry, behind the others, and below this entry stands a chain of mappings
(`Value.set_residue`).

`Value.Appended` tells how two trees differ that differ in such an entry, with the entries and items around it
written out. All that stood in the first tree and is not around the new entry is read in the second one
(`Value.Appended.get?_of_not_along`).
-/

namespace ConfigTree

namespace Entries

variable {α : Type*} {es : Entries α} {key : String} {value : α}

/-- Of two lists of entries, the first one is read first. -/
theorem get?_append (es fs : Entries α) (key : String) :
    get? (es ++ fs) key = (get? es key).or (get? fs key) := by
  induction es with
  | nil => rfl
  | cons e es ih =>
    rw [List.cons_append, get?_cons, get?_cons, ih]
    split <;> rfl

/-- The first entry of a key is read, whatever follows. -/
theorem get?_append_cons_self {before : Entries α} (h : key ∉ keys before) (value : α) (after : Entries α) :
    get? (before ++ (key, value) :: after) key = some value := by
  rw [get?_append, get?_eq_none_of_not_mem h, Option.none_or, get?_cons, if_pos rfl]

/-- What stands in an entry decides nothing for the other keys. -/
theorem get?_append_cons_of_ne {other : String} (hne : key ≠ other) (before after : Entries α) (v w : α) :
    get? (before ++ (key, v) :: after) other = get? (before ++ (key, w) :: after) other := by
  rw [get?_append, get?_append, get?_cons, get?_cons, if_neg hne, if_neg hne]

/-- An entry that is read has no entry of its key before it, so it is the one that is written. -/
theorem exists_eq_append_cons (h : get? es key = some value) :
    ∃ before after, es = before ++ (key, value) :: after ∧ key ∉ keys before ∧
      ∀ other, insert es key other = before ++ (key, other) :: after := by
  induction es with
  | nil => cases h
  | cons e es ih =>
    obtain ⟨k, v⟩ := e
    rw [get?_cons] at h
    by_cases hk : k = key
    · rw [if_pos hk] at h
      obtain rfl := Option.some.inj h
      subst hk
      exact ⟨[], es, rfl, List.not_mem_nil, fun other => by rw [insert, if_pos rfl, List.nil_append]⟩
    · rw [if_neg hk] at h
      obtain ⟨before, after, heq, hnew, hinsert⟩ := ih h
      refine ⟨(k, v) :: before, after, by rw [heq, List.cons_append], ?_, fun other => ?_⟩
      · rw [keys, List.map_cons]
        exact List.not_mem_cons_of_ne_of_not_mem (Ne.symm hk) hnew
      · rw [insert, if_neg hk, hinsert, List.cons_append]

end Entries

namespace Value

variable {root value made after v v' u : Value} {s : Segment} {p q pre : Path} {items : List Value}
  {entries : List (String × Value)} {name : String} {i : Nat}

/-! ### One new entry -/

/-- Mappings inside each other, each with its name as the only key, and in the innermost no entry. -/
def chain : List String → Value
  | [] => .mapping []
  | name :: names => .mapping [(name, chain names)]

/-- The second tree is the first one with one more entry: behind the entries of the mapping at the path stands a
new one. -/
inductive Appended (name : String) (made : Value) : Value → Path → Value → Prop
  /-- The path ends at a mapping that does not have the key. -/
  | here {entries : List (String × Value)} : name ∉ Entries.keys entries →
      Appended name made (.mapping entries) [] (.mapping (entries ++ [(name, made)]))
  /-- The path goes on below the first entry of a key. -/
  | entry {before after : List (String × Value)} {key : String} {v v' : Value} {p : Path} :
      key ∉ Entries.keys before → Appended name made v p v' →
      Appended name made (.mapping (before ++ (key, v) :: after)) (.key key :: p)
        (.mapping (before ++ (key, v') :: after))
  /-- The path goes on below an item. -/
  | item {before after : List Value} {v v' : Value} {p : Path} : Appended name made v p v' →
      Appended name made (.sequence (before ++ v :: after)) (.index before.length :: p)
        (.sequence (before ++ v' :: after))

theorem Appended.insert (hget : Entries.get? entries name = some v) {key : String}
    (h : Appended key made v p v') :
    Appended key made (.mapping entries) (.key name :: p) (.mapping (Entries.insert entries name v')) := by
  obtain ⟨before, after, rfl, hnew, hinsert⟩ := Entries.exists_eq_append_cons hget
  rw [hinsert]
  exact .entry hnew h

theorem Appended.setItem (hitem : items[i]? = some v) (h : Appended name made v p v') :
    Appended name made (.sequence items) (.index i :: p) (.sequence (items.set i v')) := by
  obtain ⟨hi, rfl⟩ := List.getElem?_eq_some_iff.1 hitem
  have hlength : (items.take i).length = i := List.length_take_of_le hi.le
  have hitems : items = items.take i ++ items[i] :: items.drop (i + 1) := by
    rw [List.cons_getElem_drop_succ, List.take_append_drop]
  have hstep : Appended name made (.sequence (items.take i ++ items[i] :: items.drop (i + 1)))
      (.index (items.take i).length :: p) (.sequence (items.take i ++ v' :: items.drop (i + 1))) := .item h
  rw [hlength, ← hitems] at hstep
  rwa [List.set_eq_take_append_cons_drop, if_pos hi]

theorem exists_cons_of_not_along (hq : ¬ Along root q pre) : ∃ s rest, q = s :: rest :=
  List.exists_cons_of_ne_nil fun hnil => hq (hnil ▸ .here root pre)

/-- All that was read is still read, but for the mapping with the new entry and what is around it. -/
theorem Appended.get?_of_not_along (h : Appended name made root pre after) (hq : ¬ Along root q pre)
    (hget : root.get? q = some u) : after.get? q = some u := by
  induction h generalizing q with
  | @here entries hname =>
    obtain ⟨s, q, rfl⟩ := exists_cons_of_not_along hq
    rw [get?_cons, child?_mapping] at hget
    obtain ⟨w, hw, hget⟩ := Option.bind_eq_some_iff.1 hget
    rw [get?_cons, child?_mapping, Entries.get?_append, hw]
    exact hget
  | @entry before after key v v' p hnew _ ih =>
    obtain ⟨s, q, rfl⟩ := exists_cons_of_not_along hq
    rw [get?_cons, child?_mapping] at hget ⊢
    by_cases hkey : key = s.documentKey
    · -- The reading goes through the same entry, so further down it leaves the path.
      have hentry : Entries.get? (before ++ (key, v) :: after) key = some v :=
        Entries.get?_append_cons_self hnew v after
      rw [← hkey, hentry, Option.bind_some] at hget
      rw [← hkey, Entries.get?_append_cons_self hnew, Option.bind_some]
      refine ih (fun halong => hq ?_) hget
      exact .further (c := .key key) (by rw [fitting?, ← hkey]) rfl hentry halong
    · rwa [Entries.get?_append_cons_of_ne hkey before after v' v]
  | @item before after v v' p _ ih =>
    obtain ⟨s, q, rfl⟩ := exists_cons_of_not_along hq
    have hset : before ++ v' :: after = (before ++ v :: after).set before.length v' := by
      rw [List.set_append_right _ _ le_rfl, Nat.sub_self, List.set_cons_zero]
    have hitem : (before ++ v :: after)[before.length]? = some v := by
      rw [List.getElem?_append_right le_rfl, Nat.sub_self, List.getElem?_cons_zero]
    have hlt : before.length < (before ++ v :: after).length := (List.getElem?_eq_some_iff.1 hitem).1
    by_cases hs : s.position? = some before.length
    · rw [get?_cons_sequence, hs, Option.bind_some, hitem, Option.bind_some] at hget
      rw [hset, get?_cons_sequence, hs, Option.bind_some, List.getElem?_set_self hlt, Option.bind_some]
      refine ih (fun halong => hq ?_) hget
      exact .further (c := .index before.length) (by rw [fitting?, hs]; rfl) rfl hitem halong
    · have hother : ∀ j, s.position? = some j → (before ++ v' :: after)[j]? = (before ++ v :: after)[j]? := by
        intro j hj
        rw [hset]
        exact List.getElem?_set_ne fun heq => hs (hj.trans (congrArg some heq.symm))
      rwa [get?_cons_sequence_congr hother]

/-! ### Where a writing stops -/

/-- In an empty mapping only an index stops a writing. Before this it makes a mapping for each key. -/
theorem set_empty_of_fault (h : ((Value.mapping []).set p value).fault ≠ none) :
    ∃ run i rest, p = run.map .key ++ .index i :: rest ∧ ((Value.mapping []).set p value).tree = chain run := by
  induction p with
  | nil => exact absurd rfl h
  | cons s p ih =>
    cases s with
    | index i => exact ⟨[], i, p, rfl, by cases p <;> rfl⟩
    | key name =>
      rw [set_entry, Entries.get?_nil, Option.getD_none] at h ⊢
      obtain ⟨run, i, rest, rfl, htree⟩ := ih h
      exact ⟨name :: run, i, rest, rfl, by rw [htree]; rfl⟩

/-- A stopped writing has changed nothing, or it has brought in one entry with a chain of mappings. -/
theorem tree_set_of_fault (h : (root.set p value).fault ≠ none) :
    (root.set p value).tree = root ∨
      ∃ pre name run i rest, p = pre ++ .key name :: (run.map .key ++ .index i :: rest) ∧
        Appended name (chain run) root pre (root.set p value).tree := by
  induction p generalizing root with
  | nil => exact absurd rfl h
  | cons s p ih =>
    rcases set_cases root s p with ⟨entries, name, rfl, rfl⟩ | ⟨items, i, v, rfl, rfl, hitem⟩ |
      ⟨items, rfl, rfl, rfl⟩ | ⟨fault, hfault⟩
    · rw [set_entry] at h ⊢
      cases hget : Entries.get? entries name with
      | none =>
        rw [hget, Option.getD_none] at h
        obtain ⟨run, i, rest, rfl, htree⟩ := set_empty_of_fault h
        have hname : name ∉ Entries.keys entries := by
          rw [← Entries.isSome_get?_iff, hget]
          exact Bool.false_ne_true
        refine .inr ⟨[], name, run, i, rest, rfl, ?_⟩
        rw [Option.getD_none, htree, Entries.insert_of_not_mem _ hname]
        exact .here hname
      | some v =>
        rw [hget, Option.getD_some] at h
        rw [Option.getD_some]
        rcases ih h with hsame | ⟨pre, key, run, i, rest, rfl, happended⟩
        · exact .inl (by rw [hsame, Entries.insert_of_get? hget])
        · exact .inr ⟨.key name :: pre, key, run, i, rest, rfl, happended.insert hget⟩
    · rw [set_item hitem] at h ⊢
      rcases ih h with hsame | ⟨pre, key, run, j, rest, rfl, happended⟩
      · obtain ⟨hi, rfl⟩ := List.getElem?_eq_some_iff.1 hitem
        exact .inl (by rw [hsame, List.set_getElem_self])
      · exact .inr ⟨.index i :: pre, key, run, j, rest, rfl, happended.setItem hitem⟩
    · rw [set_append] at h
      exact absurd rfl h
    · exact .inl (by rw [hfault])

/-- A stopped writing does not depend on the value, which is not stored. -/
theorem set_eq_of_fault (h : (root.set p value).fault ≠ none) (other : Value) :
    root.set p other = root.set p value := by
  induction p generalizing root with
  | nil => exact absurd rfl h
  | cons s p ih =>
    rcases set_cases root s p with ⟨entries, name, rfl, rfl⟩ | ⟨items, i, v, rfl, rfl, hitem⟩ |
      ⟨items, rfl, rfl, rfl⟩ | ⟨fault, hfault⟩
    · rw [set_entry] at h
      rw [set_entry, set_entry, ih h]
    · rw [set_item hitem] at h
      rw [set_item hitem, set_item hitem, ih h]
    · rw [set_append] at h
      exact absurd rfl h
    · rw [hfault, hfault]

/-- **A stopped writing destroys nothing.** It leaves the tree as it was, or with one new entry where a key of
the path was missing and an index follows. The entry is the last one of its mapping, and below it stand mappings
for the keys up to an index, the last of them empty. What was read is still read, but for this mapping and what
is around it; and the value that was to be written is nowhere in the outcome. -/
theorem set_residue (h : (root.set p value).fault ≠ none) :
    ((root.set p value).tree = root ∨
      ∃ pre name run i rest, p = pre ++ .key name :: (run.map .key ++ .index i :: rest) ∧
        Appended name (chain run) root pre (root.set p value).tree ∧
        ∀ q u, root.get? q = some u → ¬ Along root q pre → (root.set p value).tree.get? q = some u) ∧
      ∀ other, root.set p other = root.set p value := by
  refine ⟨?_, set_eq_of_fault h⟩
  rcases tree_set_of_fault h with hsame | ⟨pre, name, run, i, rest, hp, happended⟩
  · exact .inl hsame
  · exact .inr ⟨pre, name, run, i, rest, hp, happended, fun q u hget hq => happended.get?_of_not_along hq hget⟩

/-- A mapping with a sequence, in which a mapping stands behind a scalar. -/
def listed : Value := .mapping [("list", .sequence [.bool true, .mapping [("a", .null)]]), ("b", .null)]

/-- A path of which two keys are missing there, and then an index stops the writing. -/
def missingTwo : Path := [.key "list", .index 1, .key "x", .key "y", .index 0, .key "z"]

theorem set_residue_listed :
    (listed.set missingTwo .null).fault ≠ none ∧
      ((listed.set missingTwo .null).tree = listed ∨
        ∃ pre name run i rest, missingTwo = pre ++ .key name :: (run.map .key ++ .index i :: rest) ∧
          Appended name (chain run) listed pre (listed.set missingTwo .null).tree ∧
          ∀ q u, listed.get? q = some u → ¬ Along listed q pre →
            (listed.set missingTwo .null).tree.get? q = some u) ∧
      (∀ other, listed.set missingTwo other = listed.set missingTwo .null) ∧
      (listed.set missingTwo .null).tree = .mapping [("list", .sequence [.bool true,
        .mapping [("a", .null), ("x", .mapping [("y", .mapping [])])]]), ("b", .null)] := by
  have hfault : (listed.set missingTwo .null).fault ≠ none := nofun
  exact ⟨hfault, (set_residue hfault).1, (set_residue hfault).2, rfl⟩

end Value

end ConfigTree
