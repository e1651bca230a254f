import ConfigTree.Proofs.Loader.Composition

/-!
# The tree of what is loaded

A load goes through files along their imports, and a file that is imported twice is loaded twice. So what
is loaded is a tree of documents, each over the trees of its imports (`ImportTree`), and the result of the
load is put together from it (`ImportTree.compose`). Which tree it is depends on the files alone
(`Grows`); that the result is put together from one tree, and from which, is `exists_tree`.
-/

namespace ConfigTree

/-- A document of a file, with the trees of the files it imports, in the order of its list. -/
inductive ImportTree where
  /-- One file. -/
  | file (document : Document) (imported : List ImportTree)

namespace ImportTree

mutual

/-- The documents of the tree merged, each over those it imports. -/
def compose : ImportTree → Document
  | .file d ts => Document.mergeAll (composeAll ts ++ [d])

/-- Each tree merged. -/
def composeAll : List ImportTree → List Document
  | [] => []
  | t :: ts => compose t :: composeAll ts

end

mutual

/-- The tree with each document changed. -/
def map (f : Document → Document) : ImportTree → ImportTree
  | .file d ts => .file (f d) (mapAll f ts)

/-- The trees with each document changed. -/
def mapAll (f : Document → Document) : List ImportTree → List ImportTree
  | [] => []
  | t :: ts => map f t :: mapAll f ts

end

mutual

/-- All documents of the tree have a property. -/
def All (P : Document → Prop) : ImportTree → Prop
  | .file d ts => P d ∧ AllOf P ts

/-- All documents of the trees have a property. -/
def AllOf (P : Document → Prop) : List ImportTree → Prop
  | [] => True
  | t :: ts => All P t ∧ AllOf P ts

end

mutual

theorem map_id : ∀ t : ImportTree, t.map id = t
  | .file d ts => by rw [map, mapAll_id ts, id]

theorem mapAll_id : ∀ ts : List ImportTree, mapAll id ts = ts
  | [] => rfl
  | t :: ts => by rw [mapAll, map_id t, mapAll_id ts]

end

mutual

theorem All.imp {P Q : Document → Prop} (hPQ : ∀ d, P d → Q d) : ∀ {t : ImportTree}, t.All P → t.All Q
  | .file d _, h => ⟨hPQ d h.1, AllOf.imp hPQ h.2⟩

theorem AllOf.imp {P Q : Document → Prop} (hPQ : ∀ d, P d → Q d) :
    ∀ {ts : List ImportTree}, AllOf P ts → AllOf Q ts
  | [], _ => trivial
  | _ :: _, h => ⟨All.imp hPQ h.1, AllOf.imp hPQ h.2⟩

end

mutual

theorem All.and {P Q : Document → Prop} :
    ∀ {t : ImportTree}, t.All P → t.All Q → t.All fun d => P d ∧ Q d
  | .file _ _, hP, hQ => ⟨⟨hP.1, hQ.1⟩, AllOf.and hP.2 hQ.2⟩

theorem AllOf.and {P Q : Document → Prop} :
    ∀ {ts : List ImportTree}, AllOf P ts → AllOf Q ts → AllOf (fun d => P d ∧ Q d) ts
  | [], _, _ => trivial
  | _ :: _, hP, hQ => ⟨All.and hP.1 hQ.1, AllOf.and hP.2 hQ.2⟩

end

end ImportTree

namespace Loader

variable {l : Loader} {w : World} {o : EffectiveOptions} {path : String} {d : Document} {n : Nat}

mutual

/-- The tree that grows from a file along its imports. -/
inductive Grows (l : Loader) (w : World) (o : EffectiveOptions) : String → ImportTree → Prop
  | file {path : String} {self : Own} {ts : List ImportTree} :
      (l.own w o path).outcome = .ok self → GrowsAll l w o self.imports ts →
      Grows l w o path (.file self.document ts)

/-- The trees that grow from files. -/
inductive GrowsAll (l : Loader) (w : World) (o : EffectiveOptions) :
    List String → List ImportTree → Prop
  | nil : GrowsAll l w o [] []
  | cons {path : String} {paths : List String} {t : ImportTree} {ts : List ImportTree} :
      Grows l w o path t → GrowsAll l w o paths ts → GrowsAll l w o (path :: paths) (t :: ts)

end

theorem growsAll_of_forall₂ {paths : List String} {ds : List Document}
    (h : List.Forall₂ (fun path d => ∃ t, Grows l w o path t ∧ d = t.compose) paths ds) :
    ∃ ts, GrowsAll l w o paths ts ∧ ds = ImportTree.composeAll ts := by
  induction h with
  | nil => exact ⟨[], .nil, rfl⟩
  | cons hd _ ih =>
    obtain ⟨t, ht, rfl⟩ := hd
    obtain ⟨ts, hts, rfl⟩ := ih
    exact ⟨t :: ts, .cons ht hts, rfl⟩

mutual

/-- What is true of the documents of all files is true of the documents of a tree. -/
theorem Grows.all {P : Document → Prop}
    (hP : ∀ path self, (l.own w o path).outcome = .ok self → P self.document) {path : String}
    {t : ImportTree} : Grows l w o path t → t.All P
  | .file hself hts => ⟨hP _ _ hself, GrowsAll.allOf hP hts⟩

theorem GrowsAll.allOf {P : Document → Prop}
    (hP : ∀ path self, (l.own w o path).outcome = .ok self → P self.document)
    {paths : List String} {ts : List ImportTree} : GrowsAll l w o paths ts → ImportTree.AllOf P ts
  | .nil => trivial
  | .cons ht hts => ⟨ht.all hP, hts.allOf hP⟩

end

/-- **A load is put together from a tree**, the one that grows from the file. -/
theorem exists_tree
    (hown : ∀ path self, (l.own w o path).outcome = .ok self → Entries.Distinct self.document)
    {chain : List String} (h : (l.loadDocument w o n chain path).outcome = .ok d) :
    ∃ t, Grows l w o path t ∧ d = t.compose := by
  induction n generalizing chain path d with
  | zero =>
    obtain ⟨-, m, -, -, hm, -⟩ := loadDocument_eq_ok_iff.1 h
    exact absurd hm (by omega)
  | succ n ih =>
    obtain ⟨-, m, self, ds, hm, hself, hds, rfl⟩ := loadDocument_eq_ok_iff.1 h
    obtain rfl : n = m := by omega
    have hover : Own.over self ds = Document.mergeAll (ds ++ [self.document]) := by
      refine Own.over_eq_mergeAll (hown _ _ hself) fun hnil => ?_
      rw [hnil] at hds
      exact List.forall₂_nil_left_iff.1 hds
    obtain ⟨ts, hts, hcompose⟩ := growsAll_of_forall₂ (hds.imp fun i di hdi => ih hdi)
    refine ⟨.file self.document ts, .file hself hts, ?_⟩
    rw [hover, hcompose, ImportTree.compose]

end Loader

end ConfigTree
