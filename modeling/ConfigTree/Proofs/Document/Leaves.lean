import ConfigTree.Proofs.Document.Editing
import ConfigTree.Proofs.Path.Canonical
import Mathlib.Data.List.Nodup
import Mathlib.Data.Prod.Basic

/-!
# A document and its list of leaves

The flat view calls each leaf by the canonical text of its position. Two questions are answered here.

Is the list right, whatever was done to the document before (`listsLeaves_editAll`)? Different positions
have different texts, so no entry is lost. And a text that is read again leads back to its position:
reading is lenient, but where a mapping has a key, or a sequence an index, nothing else is tried.

Does the list hold all there is to know of the document (`eq_of_leaves_eq`)? The leaves of a child stand
together, behind the step that leads to it. So the list falls into one block for each child, and a block
tells the step and, by induction, the child. A container without children is a leaf and tells itself.
-/

namespace ConfigTree

namespace Value

variable {v w u : Value} {s t : Segment} {p : Path}

/-- Where no sequence is too long, what stands somewhere stands at a path that can be read. -/
theorem Addressable.inBounds_of_holds (hv : v.Addressable) (h : v.Holds p u) : p.InBounds := by
  induction h with
  | here => simp [Path.InBounds]
  | @item items i v _ _ hitem _ ih =>
    have hlength : items.length ≤ Text.indexBound := (everywhere_sequence_iff.1 hv).1
    have hi : i < items.length := (List.getElem?_eq_some_iff.1 hitem).1
    refine Path.inBounds_cons ?_ (ih (Everywhere.item hv hitem))
    simp only [Path.InBounds, List.mem_singleton, Segment.index.injEq, forall_eq]
    exact Nat.lt_of_lt_of_le hi hlength
  | entry hentry _ ih =>
    exact Path.inBounds_cons (by simp [Path.InBounds]) (ih ((everywhere_mapping_iff.1 hv).2 _ hentry))

/-! ### One block for each child -/

theorem positions_ne_nil (v : Value) : v.positions ≠ [] := by
  induction v using Value.induction with
  | leaf v hv => simp [positions_of_isLeaf hv]
  | sequence items hne ih =>
    obtain ⟨v, vs, rfl⟩ := List.exists_cons_of_ne_nil hne
    simp [positions_sequence hne, List.zipIdx_cons, positionsBelow, ih v List.mem_cons_self]
  | mapping entries hne ih =>
    obtain ⟨e, es, rfl⟩ := List.exists_cons_of_ne_nil hne
    simp [positions_mapping hne, positionsBelow, ih e List.mem_cons_self]

/-- The blocks of the children, each given with the step that leads to it. -/
def blocks (children : List (Segment × Value)) : List (Path × Value) :=
  children.flatMap fun c => positionsBelow c.1 c.2

/-- The items of a sequence as its children. -/
def itemChildren (items : List Value) : List (Segment × Value) :=
  items.zipIdx.map fun x => (.index x.2, x.1)

/-- The entries of a mapping as its children. -/
def entryChildren (entries : List (String × Value)) : List (Segment × Value) :=
  entries.map fun e => (.key e.1, e.2)

variable {cs ds : List (Segment × Value)} {xs ys : List (Path × Value)}

theorem head?_of_mem_blocks {x : Path × Value} (hx : x ∈ (blocks cs).head?) :
    ∃ s ∈ cs.map Prod.fst, x.1.head? = some s := by
  obtain ⟨c, hc, hx⟩ := List.mem_flatMap.1 (List.mem_of_mem_head? hx)
  obtain ⟨q, hq, -⟩ := mem_positionsBelow_iff.1 hx
  exact ⟨c.1, List.mem_map_of_mem hc, by simp [hq]⟩

/-- A block ends where the next step begins, and tells its step and the leaves below it. -/
theorem positionsBelow_append_inj (hxs : ∀ x ∈ xs.head?, x.1.head? ≠ some s)
    (hys : ∀ y ∈ ys.head?, y.1.head? ≠ some t)
    (h : positionsBelow s v ++ xs = positionsBelow t w ++ ys) :
    s = t ∧ v.positions = w.positions ∧ xs = ys := by
  obtain rfl : s = t := by
    obtain ⟨x, _, hx⟩ := List.exists_cons_of_ne_nil v.positions_ne_nil
    obtain ⟨y, _, hy⟩ := List.exists_cons_of_ne_nil w.positions_ne_nil
    have hhead := congrArg List.head? h
    simp only [positionsBelow, hx, hy, List.map_cons, List.cons_append, List.head?_cons,
      Option.some.injEq, Prod.map, Prod.mk.injEq, List.cons.injEq] at hhead
    exact hhead.1.1
  have hbegins : ∀ u : Value, ∀ x ∈ positionsBelow s u, (x.1.head? == some s) = true := by
    rintro u ⟨p, w⟩ hx
    obtain ⟨q, rfl, -⟩ := mem_positionsBelow_iff.1 hx
    simp
  obtain ⟨hblock, hrest⟩ := append_inj_of_head? (hbegins v) (hbegins w)
    (fun x hx => by simpa using hxs x hx) (fun y hy => by simpa using hys y hy) h
  have hmap : Function.Injective (Prod.map (s :: ·) (id : Value → Value)) :=
    Function.Injective.prodMap List.cons_injective Function.injective_id
  exact ⟨rfl, hmap.list_map hblock, hrest⟩

theorem eq_nil_of_blocks_eq_nil (h : blocks cs = []) : cs = [] := by
  cases cs with
  | nil => rfl
  | cons c cs =>
    have hc := (List.append_eq_nil_iff.1 h).1
    exact absurd (List.map_eq_nil_iff.1 hc) c.2.positions_ne_nil

/-- The blocks tell the children, if the leaves of each child tell the child. -/
theorem eq_of_blocks_eq (hcs : (cs.map Prod.fst).Nodup) (hds : (ds.map Prod.fst).Nodup)
    (hinj : ∀ c ∈ cs, ∀ d ∈ ds, c.2.positions = d.2.positions → c.2 = d.2)
    (h : blocks cs = blocks ds) : cs = ds := by
  induction cs generalizing ds with
  | nil => exact (eq_nil_of_blocks_eq_nil h.symm).symm
  | cons c cs ih =>
    cases ds with
    | nil => exact absurd (eq_nil_of_blocks_eq_nil h) (List.cons_ne_nil _ _)
    | cons d ds =>
      obtain ⟨hc, hcs⟩ := List.nodup_cons.1 hcs
      obtain ⟨hd, hds⟩ := List.nodup_cons.1 hds
      have hother : ∀ {s : Segment} {es : List (Segment × Value)}, s ∉ es.map Prod.fst →
          ∀ x ∈ (blocks es).head?, x.1.head? ≠ some s := by
        intro s es hs x hx heq
        obtain ⟨t, ht, hxt⟩ := head?_of_mem_blocks hx
        exact hs (Option.some.inj (hxt.symm.trans heq) ▸ ht)
      obtain ⟨hstep, hleaves, hrest⟩ := positionsBelow_append_inj (hother hc) (hother hd) h
      have hchild := hinj c List.mem_cons_self d List.mem_cons_self hleaves
      have hchildren := ih hcs hds (fun c hc d hd => hinj c (List.mem_cons_of_mem _ hc) d
        (List.mem_cons_of_mem _ hd)) hrest
      rw [Prod.ext hstep hchild, hchildren]

/-! ### The children of a container -/

theorem positions_eq_blocks_items {items : List Value} (h : items ≠ []) :
    (Value.sequence items).positions = blocks (itemChildren items) := by
  rw [positions_sequence h, blocks, itemChildren, List.flatMap_map]

theorem positions_eq_blocks_entries {entries : List (String × Value)} (h : entries ≠ []) :
    (Value.mapping entries).positions = blocks (entryChildren entries) := by
  rw [positions_mapping h, blocks, entryChildren, List.flatMap_map]

theorem nodup_itemChildren (items : List Value) : ((itemChildren items).map Prod.fst).Nodup := by
  have hindices :
      (itemChildren items).map Prod.fst = (List.range' 0 items.length).map Segment.index := by
    rw [← List.zipIdx_map_snd, itemChildren, List.map_map, List.map_map]
    rfl
  rw [hindices]
  exact List.Nodup.map (fun i j h => Segment.index.inj h) List.nodup_range'

theorem nodup_entryChildren {entries : List (String × Value)} (h : Entries.Distinct entries) :
    ((entryChildren entries).map Prod.fst).Nodup := by
  have hkeys : (entryChildren entries).map Prod.fst = (Entries.keys entries).map Segment.key := by
    simp [entryChildren, Entries.keys]
  rw [hkeys]
  exact List.Nodup.map (fun i j h => Segment.key.inj h) h

theorem mem_of_mem_itemChildren {items : List Value} {c : Segment × Value}
    (h : c ∈ itemChildren items) : c.2 ∈ items := by
  obtain ⟨x, hx, rfl⟩ := List.mem_map.1 h
  exact List.fst_mem_of_mem_zipIdx hx

theorem mem_of_mem_entryChildren {entries : List (String × Value)} {c : Segment × Value}
    (h : c ∈ entryChildren entries) : ∃ e ∈ entries, c.2 = e.2 := by
  obtain ⟨e, he, rfl⟩ := List.mem_map.1 h
  exact ⟨e, he, rfl⟩

theorem itemChildren_injective : Function.Injective itemChildren := fun xs ys h => by
  have hitems := congrArg (List.map Prod.snd) h
  simpa [itemChildren, Function.comp_def] using hitems

theorem entryChildren_injective : Function.Injective entryChildren := by
  refine Function.Injective.list_map fun e f h => ?_
  simp only [Prod.mk.injEq, Segment.key.injEq] at h
  exact Prod.ext h.1 h.2

/-- Values with the same leaves have one in common. -/
theorem exists_leaf_of_positions_eq (h : v.positions = w.positions) :
    ∃ p u, v.Holds p u ∧ w.Holds p u ∧ u.IsLeaf := by
  obtain ⟨⟨p, u⟩, xs, hxs⟩ := List.exists_cons_of_ne_nil v.positions_ne_nil
  have hmem : (p, u) ∈ v.positions := hxs ▸ List.mem_cons_self
  obtain ⟨hv, hleaf⟩ := mem_positions_iff.1 hmem
  exact ⟨p, u, hv, (mem_positions_iff.1 (h ▸ hmem)).1, hleaf⟩

/-- **Leaves tell a value**, the order of its keys and the kind of its containers included. -/
theorem eq_of_positions_eq (hv : v.Wellformed) (hw : w.Wellformed)
    (h : v.positions = w.positions) : v = w := by
  induction v using Value.induction generalizing w with
  | leaf v hleaf =>
    have hmem : ([], v) ∈ v.positions := by simp [positions_of_isLeaf hleaf]
    cases (mem_positions_iff.1 (h ▸ hmem)).1
    rfl
  | sequence items hne ih =>
    -- A leaf that both have stands below an item, so the other value is a sequence too.
    obtain ⟨p, u, hv', hw', hu⟩ := exists_leaf_of_positions_eq h
    cases hv' with
    | here => exact absurd hu hne
    | item _ _ =>
      cases hw' with
      | @item items' _ _ _ _ hitem _ =>
        have hne' : items' ≠ [] := List.ne_nil_of_mem (List.mem_of_getElem? hitem)
        rw [positions_eq_blocks_items hne, positions_eq_blocks_items hne'] at h
        refine congrArg _ (itemChildren_injective (eq_of_blocks_eq (nodup_itemChildren _)
          (nodup_itemChildren _) (fun c hc d hd => ?_) h))
        have hc := mem_of_mem_itemChildren hc
        have hd := mem_of_mem_itemChildren hd
        exact ih _ hc (wellformedItems_iff.1 hv _ hc) (wellformedItems_iff.1 hw _ hd)
  | mapping entries hne ih =>
    obtain ⟨p, u, hv', hw', hu⟩ := exists_leaf_of_positions_eq h
    cases hv' with
    | here => exact absurd hu hne
    | entry _ _ =>
      cases hw' with
      | @entry entries' _ _ _ _ hentry _ =>
        have hne' : entries' ≠ [] := List.ne_nil_of_mem hentry
        rw [positions_eq_blocks_entries hne, positions_eq_blocks_entries hne'] at h
        refine congrArg _ (entryChildren_injective (eq_of_blocks_eq (nodup_entryChildren hv.1)
          (nodup_entryChildren hw.1) (fun c hc d hd => ?_) h))
        obtain ⟨e, he, hce⟩ := mem_of_mem_entryChildren hc
        obtain ⟨f, hf, hdf⟩ := mem_of_mem_entryChildren hd
        rw [hce, hdf]
        exact ih e he (wellformedEntries_iff.1 hv.2 e he) (wellformedEntries_iff.1 hw.2 f hf)

end Value

open Value

namespace Document

variable {a b d : Document}

theorem positions_eq_blocks (d : Document) : d.positions = blocks (entryChildren d) := by
  rw [positions_eq_flatMap, blocks, entryChildren, List.flatMap_map]

theorem eq_of_positions_eq (ha : a.Wellformed) (hb : b.Wellformed)
    (h : a.positions = b.positions) : a = b := by
  rw [positions_eq_blocks, positions_eq_blocks] at h
  refine entryChildren_injective (eq_of_blocks_eq (nodup_entryChildren ha.1)
    (nodup_entryChildren hb.1) (fun c hc d hd => ?_) h)
  obtain ⟨e, he, hce⟩ := mem_of_mem_entryChildren hc
  obtain ⟨f, hf, hdf⟩ := mem_of_mem_entryChildren hd
  rw [hce, hdf]
  exact Value.eq_of_positions_eq (wellformedEntries_iff.1 ha.2 e he) (wellformedEntries_iff.1 hb.2 f hf)

end Document

namespace FlatDocument

/-! ### The list of the flat view -/

/-- A leaf as the flat view lists it. -/
def written (leaf : Path × Value) : String × Value := (leaf.1.render, leaf.2)

theorem written_injective : Function.Injective written :=
  Function.Injective.prodMap Path.render_injective Function.injective_id

variable {flat : FlatDocument} {edits : List Edit}

/-- No two leaves are listed under one text. -/
theorem distinct_written (hd : flat.document.Wellformed) :
    Entries.Distinct (flat.document.positions.map written) := by
  have htexts := hd.nodup_positions.map Path.render_injective
  rw [List.map_map] at htexts
  rw [Entries.Distinct, Entries.keys, List.map_map]
  exact htexts

theorem leaves_eq (hd : flat.document.Wellformed) :
    flat.leaves = flat.document.positions.map written :=
  Entries.ofList_of_distinct (distinct_written hd)

/-- What stands at a position is read at the canonical text of its path. -/
theorem get?_render {p : Path} {v : Value} (hd : flat.document.Wellformed)
    (hindices : flat.document.Addressable) (h : flat.document.Holds p v) :
    flat.get? p.render = some v := by
  rw [get?, Path.parse_render h.1 (Addressable.inBounds_of_holds hindices h.2)]
  exact hd.get?_of_holds h

/-- The list of leaves of a view is right. -/
structure ListsLeaves (flat : FlatDocument) : Prop where
  /-- The positions are those at which a leaf stands, each with its leaf. -/
  complete : ∀ p v, (p, v) ∈ flat.document.positions ↔ flat.document.Holds p v ∧ v.IsLeaf
  /-- They come in the order of the document, so none comes twice. -/
  ordered : flat.document.positions.Pairwise fun x y => x.1 ≠ y.1 ∧ flat.document.Precedes x.1 y.1
  /-- Each of them is listed, in this order, by the canonical text of its path. -/
  listed : flat.leaves = flat.document.positions.map written
  /-- No entry has the text of another. -/
  distinct : Entries.Distinct flat.leaves
  /-- Reading at the text of an entry gives its leaf. -/
  readable : ∀ text v, (text, v) ∈ flat.leaves → flat.has text = true ∧ flat.get? text = some v

theorem listsLeaves (hd : flat.document.Wellformed) (hindices : flat.document.Addressable) :
    flat.ListsLeaves where
  complete _ _ := Document.mem_positions_iff
  ordered :=
    (List.pairwise_map.1 hd.nodup_positions).and (Document.pairwise_positions flat.document)
  listed := leaves_eq hd
  distinct := leaves_eq hd ▸ distinct_written hd
  readable text v h := by
    rw [leaves_eq hd] at h
    obtain ⟨⟨p, u⟩, hmem, heq⟩ := List.mem_map.1 h
    obtain ⟨rfl, rfl⟩ := Prod.mk.inj heq
    have hread := get?_render hd hindices (Document.mem_positions_iff.1 hmem).1
    exact ⟨by rw [has, hread, Option.isSome_some], hread⟩

/-- **The leaves are listed once each, and can be read**, whatever was written and removed before,
where no mapping has a key twice and no sequence is longer than there are indices. -/
theorem listsLeaves_editAll {d : Document} (hd : d.Wellformed) (hindices : d.Addressable)
    (hedits : ∀ e ∈ edits, e.Sound) : (editAll ⟨d⟩ edits).ListsLeaves :=
  have hflat := @wellformed_editAll ⟨d⟩ edits hd hindices hedits
  listsLeaves hflat.1 hflat.2

/-- A document whose keys look like paths, and like the indices of a sequence beside them. -/
def lookalike : Document :=
  [("a", .sequence [.null, .mapping [("", .sequence [])]]),
    ("a[0]", .mapping [("0", .mapping []), ("\"", .bool true)])]

/-- Edits that append an item, remove an item before it, fail, and remove the key that looks like a path. -/
def lookalikeEdits : List Edit :=
  [.set "a[2]" (.mapping [("1", .string "x")]), .remove "a[0]", .set "a[1].1.y" .null,
    .set "['a[0]'].0['.']" (.sequence [.null]), .remove "['a[0]']['\"']"]

theorem wellformed_lookalike : lookalike.Wellformed := by decide

theorem addressable_lookalike : lookalike.Addressable := by
  have hnull : Everywhere HasIndices .null := (everywhere_of_isLeaf (v := .null) trivial).2 trivial
  have hbool : Everywhere HasIndices (.bool true) :=
    (everywhere_of_isLeaf (v := .bool true) trivial).2 trivial
  simp [lookalike, Document.Addressable, Addressable, everywhere_mapping_iff,
    everywhere_sequence_iff, hnull, hbool, HasIndices, Text.indexBound]

theorem sound_lookalikeEdits : ∀ e ∈ lookalikeEdits, e.Sound := by
  have hnull : Everywhere HasIndices .null := (everywhere_of_isLeaf (v := .null) trivial).2 trivial
  have hstring : Everywhere HasIndices (.string "x") :=
    (everywhere_of_isLeaf (v := .string "x") trivial).2 trivial
  simp [lookalikeEdits, Edit.Sound, Wellformed, WellformedEntries, WellformedItems,
    Entries.Distinct, Entries.keys, Addressable, everywhere_mapping_iff,
    everywhere_sequence_iff, hnull, hstring, HasIndices, Text.indexBound]

theorem listsLeaves_lookalike :
    lookalike.Wellformed ∧ lookalike.Addressable ∧ (∀ e ∈ lookalikeEdits, e.Sound) ∧
      (editAll ⟨lookalike⟩ lookalikeEdits).ListsLeaves ∧
      (editAll ⟨lookalike⟩ lookalikeEdits).leaves =
        [("a[0][\"\"]", .sequence []), ("a[1].1", .string "x"), ("[\"a[0]\"].0[\".\"][0]", .null)] :=
  ⟨wellformed_lookalike, addressable_lookalike, sound_lookalikeEdits,
    listsLeaves_editAll wellformed_lookalike addressable_lookalike sound_lookalikeEdits,
    by decide +kernel⟩

/-- **A document is told by its leaves**, the order of all its keys included. -/
theorem document_eq_of_leaves_eq {a b : Document} (ha : a.Wellformed) (hb : b.Wellformed)
    (h : leaves ⟨a⟩ = leaves ⟨b⟩) : a = b := by
  rw [leaves_eq ha, leaves_eq hb] at h
  exact Document.eq_of_positions_eq ha hb (written_injective.list_map h)

/-- What the edits make of the document, written out. -/
def lookalikeEdited : Document :=
  [("a", .sequence [.mapping [("", .sequence [])], .mapping [("1", .string "x")]]),
    ("a[0]", .mapping [("0", .mapping [(".", .sequence [.null])])])]

theorem document_eq_of_leaves_eq_lookalike :
    (editAll ⟨lookalike⟩ lookalikeEdits).document.Wellformed ∧ lookalikeEdited.Wellformed ∧
      leaves (editAll ⟨lookalike⟩ lookalikeEdits) = leaves ⟨lookalikeEdited⟩ ∧
      (editAll ⟨lookalike⟩ lookalikeEdits).document = lookalikeEdited := by
  have hedited : (editAll ⟨lookalike⟩ lookalikeEdits).document.Wellformed :=
    (wellformed_editAll wellformed_lookalike addressable_lookalike sound_lookalikeEdits).1
  have hwritten : lookalikeEdited.Wellformed := by decide
  have hleaves : leaves (editAll ⟨lookalike⟩ lookalikeEdits) = leaves ⟨lookalikeEdited⟩ := by
    decide +kernel
  exact ⟨hedited, hwritten, hleaves, document_eq_of_leaves_eq hedited hwritten hleaves⟩

end FlatDocument

end ConfigTree
