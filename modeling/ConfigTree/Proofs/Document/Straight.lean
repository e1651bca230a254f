import ConfigTree.Document.Flat
import ConfigTree.Proofs.Document.Removed
import ConfigTree.Proofs.Document.Residue

/-!
# Writing and removing where something is read

Can a value that is read at a path be replaced and be taken out there? Reading is lenient: an index reads a key of a
mapping, and a key that is an index reads an item. Writing and removing are not: an item has to be named by an index
and an entry by its key, but for the entries at the top of a document, which may be named by an index too.

So it depends on the spelling of the path alone. A path of which each segment is of the kind of the container that
it selects from (`Value.Straight`) can be written and removed at as soon as something is read there. By any other
path to the same place neither is done, and nothing is changed (`FlatDocument.set_remove_of_get?`).
-/

namespace ConfigTree

namespace Value

variable {root value after v : Value} {p pre rest : Path} {name : String} {made : Value}

/-! ### Straight paths -/

theorem straight_nil (v : Value) : v.Straight [] := by
  cases v <;> trivial

/-- Writing goes along straight paths only. -/
theorem Writes.straight (h : Writes value root p after) : root.Straight p := by
  induction h with
  | here root => exact straight_nil root
  | @entry entries name p below _ ih =>
    refine ⟨rfl, fun u hu => ?_⟩
    have hname : Entries.get? entries name = some u := hu
    rwa [hname] at ih
  | @item items i v p below hitem _ ih =>
    refine ⟨rfl, fun u hu => ?_⟩
    obtain rfl : v = u := Option.some.inj (hitem.symm.trans hu)
    exact ih
  | append items =>
    refine ⟨rfl, fun u hu => ?_⟩
    have hend : items[items.length]? = some u := hu
    simp at hend

/-- So does removing. -/
theorem Removes.straight (h : Removes v root p after) : root.Straight p := by
  induction h with
  | key => exact ⟨rfl, fun u _ => straight_nil u⟩
  | index => exact ⟨rfl, fun u _ => straight_nil u⟩
  | entry hget _ ih =>
    refine ⟨rfl, fun u hu => ?_⟩
    obtain rfl := Option.some.inj (hget.symm.trans hu)
    exact ih
  | item hitem _ ih =>
    refine ⟨rfl, fun u hu => ?_⟩
    obtain rfl := Option.some.inj (hitem.symm.trans hu)
    exact ih

/-- Where a value is read by segments that fit, it can be taken out. -/
theorem exists_removes_of_straight (hp : root.Straight p) (hread : root.get? p = some v) (hne : p ≠ []) :
    ∃ after, Removes v root p after := by
  induction p generalizing root with
  | nil => exact absurd rfl hne
  | cons s p ih =>
    obtain ⟨hs, hp⟩ := hp
    rw [get?_cons] at hread
    obtain ⟨u, hu, hrest⟩ := Option.bind_eq_some_iff.1 hread
    cases root with
    | mapping entries =>
      obtain ⟨name, rfl⟩ : ∃ name, s = .key name := ⟨_, (Option.some.inj hs).symm⟩
      have hname : Entries.get? entries name = some u := hu
      by_cases hend : p = []
      · subst hend
        obtain rfl : u = v := Option.some.inj hrest
        exact ⟨_, .key hname⟩
      · obtain ⟨below, hbelow⟩ := ih (hp u hu) hrest hend
        exact ⟨_, .entry hname hbelow⟩
    | sequence items =>
      obtain ⟨i, -, rfl⟩ := Option.map_eq_some_iff.1 hs
      have hitem : items[i]? = some u := hu
      by_cases hend : p = []
      · subst hend
        obtain rfl : u = v := Option.some.inj hrest
        exact ⟨_, .index hitem⟩
      · obtain ⟨below, hbelow⟩ := ih (hp u hu) hrest hend
        exact ⟨_, .item hitem hbelow⟩
    | _ => cases hs

/-- Where there is a new entry, nothing was read at its key or below it. -/
theorem Appended.get?_eq_none (h : Appended name made root pre after) (rest : Path) :
    root.get? (pre ++ .key name :: rest) = none := by
  induction h with
  | here hname =>
    rw [List.nil_append, get?_cons_mapping, Segment.documentKey, Entries.get?_eq_none_of_not_mem hname,
      Option.bind_none]
  | entry hnew _ ih =>
    rw [List.cons_append, get?_cons_mapping, Segment.documentKey, Entries.get?_append_cons_self hnew,
      Option.bind_some, ih]
  | item _ ih =>
    rw [List.cons_append, get?_cons_sequence, Segment.position?, Option.bind_some,
      List.getElem?_append_right le_rfl, Nat.sub_self, List.getElem?_cons_zero, Option.bind_some, ih]

/-- A writing that is stopped on a path at which something is read changes nothing. -/
theorem set_of_not_straight (hp : ¬ root.Straight p) (hread : root.get? p = some v) (value : Value) :
    ∃ fault, root.set p value = ⟨root, some fault⟩ := by
  have hfault : (root.set p value).fault ≠ none := fun h => hp (writes_of_set h).straight
  obtain ⟨fault, heq⟩ := Option.ne_none_iff_exists'.1 hfault
  rcases tree_set_of_fault hfault with hsame | ⟨pre, name, run, i, rest, rfl, happended⟩
  · exact ⟨fault, congrArg₂ Written.mk hsame heq⟩
  · rw [happended.get?_eq_none] at hread
    cases hread

theorem remove_of_not_straight (hp : ¬ root.Straight p) : root.remove p = ⟨root, none⟩ := by
  rcases remove_eq_none_or_removes root p with hnone | ⟨v, after, -, hremoves⟩
  · exact hnone
  · exact absurd hremoves.straight hp

end Value

open Value

namespace Document

variable {d : Document} {s : Segment} {p rest : Path} {u v value : Value}

/-- Each segment but the first is of the kind of the container from which it selects. -/
def Straight (d : Document) : Path → Prop
  | [] => True
  | s :: rest => ∀ u, Entries.get? d s.documentKey = some u → u.Straight rest

theorem set_cons (h : Entries.get? d s.documentKey = some u) (rest : Path) (value : Value) :
    d.set (s :: rest) value =
      ⟨Entries.insert d s.documentKey (u.set rest value).tree, (u.set rest value).fault⟩ := by
  cases rest with
  | nil => rfl
  | cons t rest =>
    rw [Document.set]
    · simp only [h, Option.getD_some]
    · exact List.cons_ne_nil t rest

theorem remove_cons (h : Entries.get? d s.documentKey = some u) (hrest : rest ≠ []) :
    d.remove (s :: rest) = ⟨Entries.insert d s.documentKey (u.remove rest).tree, (u.remove rest).value⟩ := by
  cases rest with
  | nil => exact absurd rfl hrest
  | cons t rest =>
    rw [Document.remove]
    · simp only [h]
    · exact List.cons_ne_nil t rest

theorem straight_cons_of_get? (h : Entries.get? d s.documentKey = some u) (hrest : u.Straight rest) :
    d.Straight (s :: rest) := fun w hw => by
  obtain rfl := Option.some.inj (h.symm.trans hw)
  exact hrest

theorem get?_cons_eq_some_iff :
    d.get? (s :: rest) = some v ↔ ∃ u, Entries.get? d s.documentKey = some u ∧ u.get? rest = some v :=
  Option.bind_eq_some_iff

/-- What is read at a straight path of a document can be replaced. -/
theorem set_of_straight (hp : d.Straight p) (hread : d.get? p = some v) (value : Value) :
    (d.set p value).fault = none := by
  cases p with
  | nil => cases hread
  | cons s rest =>
    obtain ⟨u, hu, hread⟩ := get?_cons_eq_some_iff.1 hread
    obtain ⟨after, hwrites, -⟩ := exists_writes_of_straight (hp u hu) hread value
    rw [set_cons hu, set_of_writes hwrites]

/-- It can be taken out as well. -/
theorem remove_of_straight (hp : d.Straight p) (hread : d.get? p = some v) :
    (d.remove p).value = some v := by
  cases p with
  | nil => cases hread
  | cons s rest =>
    obtain ⟨u, hu, hread⟩ := get?_cons_eq_some_iff.1 hread
    cases rest with
    | nil =>
      obtain rfl : u = v := Option.some.inj hread
      exact hu
    | cons t rest =>
      obtain ⟨after, hremoves⟩ := exists_removes_of_straight (hp u hu) hread (List.cons_ne_nil t rest)
      rw [remove_cons hu (List.cons_ne_nil t rest), remove_of_removes hremoves]

/-- At a path that is not straight nothing can be written, and nothing is changed. -/
theorem set_of_not_straight (hp : ¬ d.Straight p) (hread : d.get? p = some v) (value : Value) :
    ∃ fault, d.set p value = ⟨d, some fault⟩ := by
  cases p with
  | nil => cases hread
  | cons s rest =>
    obtain ⟨u, hu, hread⟩ := get?_cons_eq_some_iff.1 hread
    have hrest : ¬ u.Straight rest := fun h => hp (straight_cons_of_get? hu h)
    obtain ⟨fault, hset⟩ := Value.set_of_not_straight hrest hread value
    exact ⟨fault, by rw [set_cons hu, hset, Entries.insert_of_get? hu]⟩

/-- Nor can anything be taken out there. -/
theorem remove_of_not_straight (hp : ¬ d.Straight p) (hread : d.get? p = some v) :
    d.remove p = ⟨d, none⟩ := by
  cases p with
  | nil => cases hread
  | cons s rest =>
    obtain ⟨u, hu, hread⟩ := get?_cons_eq_some_iff.1 hread
    have hrest : ¬ u.Straight rest := fun h => hp (straight_cons_of_get? hu h)
    have hne : rest ≠ [] := by
      rintro rfl
      exact hrest (straight_nil u)
    rw [remove_cons hu hne, Value.remove_of_not_straight hrest, Entries.insert_of_get? hu]

end Document

namespace FlatDocument

variable {flat : FlatDocument} {text : String} {v : Value}

/-- **Where something is read, it can be replaced and taken out by straight paths, and only by them.** Then the new
value is read at the path, or the old one is what is taken out. By another path at which it is read neither is done,
and the document stays as it is. -/
theorem set_remove_of_get? (h : flat.get? text = some v) (value : Value) :
    ∃ p, Path.parse text = .ok p ∧
      (flat.document.Straight p → (flat.set text value).2 = .ok () ∧
        (flat.set text value).1.get? text = some value ∧ (flat.remove text).2 = some v) ∧
      (¬ flat.document.Straight p → (∃ e, flat.set text value = (flat, .error e)) ∧
        flat.remove text = (flat, none)) := by
  obtain ⟨p, hparse, hread⟩ := get?_eq_some_iff.1 h
  refine ⟨p, hparse, fun hp => ?_, fun hp => ?_⟩
  · have hfault := Document.set_of_straight hp hread value
    rw [set_of_parse hparse, remove_of_parse hparse, Written.outcome, hfault]
    exact ⟨rfl, get?_eq_some_iff.2 ⟨p, hparse, Document.get?_set hfault⟩, Document.remove_of_straight hp hread⟩
  · obtain ⟨fault, hset⟩ := Document.set_of_not_straight hp hread value
    rw [set_of_parse hparse, remove_of_parse hparse, hset, Document.remove_of_not_straight hp hread]
    exact ⟨⟨_, rfl⟩, rfl⟩

/-- A list that begins with a mapping whose key looks like an index. -/
def numberedKey : FlatDocument := ⟨[("list", .sequence [.mapping [("0", .null)], .bool true])]⟩

/-- Two paths to one place, of which the second one names the item by a key and the key by an index. -/
theorem set_remove_of_get?_numberedKey :
    numberedKey.get? "list[0].0" = some .null ∧
      ((numberedKey.set "list[0].0" (.bool false)).2 = .ok () ∧
        (numberedKey.set "list[0].0" (.bool false)).1.get? "list[0].0" = some (.bool false) ∧
        (numberedKey.remove "list[0].0").2 = some .null) ∧
      numberedKey.get? "list.0[0]" = some .null ∧
      (∃ e, numberedKey.set "list.0[0]" (.bool false) = (numberedKey, .error e)) ∧
      numberedKey.remove "list.0[0]" = (numberedKey, none) := by
  have hread : numberedKey.get? "list[0].0" = some .null := by decide +kernel
  have hread' : numberedKey.get? "list.0[0]" = some .null := by decide +kernel
  have hparse : Path.parse "list[0].0" = .ok [.key "list", .index 0, .key "0"] := by decide +kernel
  have hparse' : Path.parse "list.0[0]" = .ok [.key "list", .key "0", .index 0] := by decide +kernel
  obtain ⟨p, hp, hdone, -⟩ := set_remove_of_get? hread (.bool false)
  obtain ⟨p', hp', -, hrefused⟩ := set_remove_of_get? hread' (.bool false)
  obtain rfl := Except.ok.inj (hparse.symm.trans hp)
  obtain rfl := Except.ok.inj (hparse'.symm.trans hp')
  refine ⟨hread, hdone fun u hu => ?_, hread', hrefused fun h => ?_⟩
  · obtain rfl := Option.some.inj hu
    refine ⟨rfl, fun u hu => ?_⟩
    obtain rfl := Option.some.inj hu
    exact ⟨rfl, fun _ _ => straight_nil _⟩
  · have hfirst := (h _ rfl).1
    have hzero : Text.readIndex? ['0'] = some 0 := by decide
    simp [fitting?, Segment.position?, hzero] at hfirst

/-- An item that is read by a key that is an index is not written and not taken out by it. -/
theorem not_set_remove_of_get? :
    ¬ ∀ (flat : FlatDocument) (text : String) (v value : Value), flat.get? text = some v →
      (flat.set text value).2 = .ok () ∧ (flat.set text value).1.get? text = some value ∧
        (flat.remove text).2 = some v := by
  intro h
  have hread : FlatDocument.get? ⟨[("list", .sequence [.null])]⟩ "list.0" = some .null := by decide +kernel
  have hrefused : (FlatDocument.set ⟨[("list", .sequence [.null])]⟩ "list.0" (.bool true)).2 ≠ .ok () := by
    decide +kernel
  exact hrefused (h _ _ _ _ hread).1

end FlatDocument

end ConfigTree
