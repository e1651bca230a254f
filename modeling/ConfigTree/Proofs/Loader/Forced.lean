import ConfigTree.Proofs.Document.Forced
import ConfigTree.Proofs.Loader.Tree
import ConfigTree.Proofs.World.Files

/-!
# Forced data

Data that the caller forces rank above all files. They are not laid over the result of a load, though,
but over the document of every file, before its imports are merged below it. Is that the same?

It is where each file yields to the data. But where the data hold a mapping and a file something else, the
data replace this, and then it is no longer there to cut off what the imports of the file hold at the same
place: a value that the file had overridden comes back (`not_loadRaw_over`). So the result is that of
laying the data over a load in which each file had first been cleared of what is in their way
(`loadRaw_forced`).

The data must leave the import lists as they are. Otherwise other files are loaded.
-/

namespace ConfigTree

open Relation

/-- The options without data. -/
def EffectiveOptions.withoutData (o : EffectiveOptions) : EffectiveOptions := { o with data := [] }

/-- What a load overrides, but for data. -/
def LoadOptions.withoutData (overrides : LoadOptions) : LoadOptions := { overrides with data := none }

namespace Loader

/-- The loader without data of its own. -/
def withoutData (l : Loader) : Loader := { l with options := { l.options with data := [] } }

theorem effective_withoutData (l : Loader) (overrides : LoadOptions) :
    l.withoutData.options.effective overrides.withoutData =
      (l.options.effective overrides).withoutData := rfl

/-- Loaders give documents without a key twice, at any depth, and the resolver changes no entry but the
one it is asked for. -/
structure KeepsDocuments (l : Loader) (w : World) : Prop where
  /-- A loader gives no key twice. -/
  load : ∀ {extension loader path d}, l.registry.get? extension = some loader →
    loader.load w path = .ok d → d.Wellformed
  /-- The resolver changes one entry. -/
  resolve : ∀ {d d' : Document} {key : String}, Entries.Distinct d → key ∈ Entries.keys d →
    (l.resolver w.env).resolve d (some key) = ⟨d', none⟩ → ∃ v, d' = Entries.insert d key v

end Loader

namespace Scope

variable {σ : Type} {f : String → StateM σ Value} {key : String} {d : Document}

theorem mapStrings_only_of_not_mem (h : key ∉ Entries.keys d) (s : σ) :
    ((only key).mapStrings f d).run s = (d, s) := by
  induction d with
  | nil => rfl
  | cons e d ih =>
    obtain ⟨k, v⟩ := e
    have hne : (k == key) = false := beq_eq_false_iff_ne.2 fun hk => h (by simp [Entries.keys, hk])
    have hrest := ih fun hk => h (List.mem_cons_of_mem _ hk)
    simp only [mapStrings, contains, hne, Bool.false_eq_true, if_false, StateT.run_bind,
      StateT.run_pure, pure_bind, hrest]
    rfl

/-- A pass over the entry of one key writes this entry and no other. -/
theorem exists_mapStrings_only (hd : Entries.Distinct d) (hmem : key ∈ Entries.keys d) (s : σ) :
    ∃ v, (((only key).mapStrings f d).run s).1 = Entries.insert d key v := by
  induction d with
  | nil => simp [Entries.keys] at hmem
  | cons e d ih =>
    obtain ⟨k, v⟩ := e
    obtain ⟨hk, hd⟩ := List.nodup_cons.1 hd
    by_cases hkey : k = key
    · subst hkey
      refine ⟨((v.mapStrings f).run s).1, ?_⟩
      simp only [mapStrings, contains, beq_self_eq_true, if_true, StateT.run_bind, StateT.run_pure,
        mapStrings_only_of_not_mem hk]
      rw [Entries.insert, if_pos rfl]
      rfl
    · have hmem' : key ∈ Entries.keys d := (List.mem_cons.1 hmem).resolve_left (Ne.symm hkey)
      obtain ⟨u, hu⟩ := ih hd hmem'
      refine ⟨u, ?_⟩
      rw [Entries.insert, if_neg hkey, ← hu]
      simp only [mapStrings, contains, beq_eq_false_iff_ne.2 hkey, Bool.false_eq_true, if_false,
        StateT.run_bind, StateT.run_pure, pure_bind]
      rfl

end Scope

namespace Loader

variable {l : Loader} {w : World} {o : EffectiveOptions} {path : String} {self self' : Own}

theorem keepsDocuments_of_builtin {options : ResolverOptions}
    (hregistry : ∀ extension loader, l.registry.get? extension = some loader →
      loader = .json ∨ loader = .yaml)
    (hresolver : l.resolver = .placeholders options) (w : World) : l.KeepsDocuments w where
  load hloader h := by
    rcases hregistry _ _ hloader with rfl | rfl
    · exact ExtensionLoader.wellformed_of_json h
    · exact ExtensionLoader.wellformed_of_yaml h
  resolve hd hmem h := by
    rw [hresolver] at h
    obtain ⟨v, hv⟩ := Scope.exists_mapStrings_only hd hmem _
    exact ⟨v, (congrArg Resolution.document h).symm.trans hv⟩

/-! ### One file -/

/-- A document in which the paths that it imports stand in place of its import list, if it has one. -/
def listing (key : String) (paths : List String) (d : Document) : Document :=
  match Entries.get? d key with
  | some (.sequence _) => Entries.insert d key (.sequence (paths.map .string))
  | _ => d

theorem wellformed_listing {key : String} {paths : List String} {d : Document} (hd : d.Wellformed) :
    Document.Wellformed (listing key paths d) := by
  unfold listing
  split
  · exact hd.insert (Value.wellformed_strings paths)
  · exact hd

/-- Data without an import list may be laid over a document before or after its list is read. -/
theorem merge_listing {key : String} {paths : List String} {d data : Document}
    (hkey : Entries.get? data key = none) :
    Document.merge (listing key paths d) data = listing key paths (Document.merge d data) := by
  unfold listing
  rw [Document.get?_merge_of_none hkey]
  split
  · next items hitems =>
    refine Document.merge_insert _ ?_ hkey
    rw [← Entries.isSome_get?_iff, hitems]
    rfl
  · rfl

/-- What a file gives by itself is what was loaded with the data over it, its import list read. -/
theorem document_of_own (hl : l.KeepsDocuments w) (h : (l.own w o path).outcome = .ok self) :
    ∃ loader loaded, l.registry.get? (Extension.ofPath path) = some loader ∧
      (loadWithEnvironment w (Extension.ofPath path) loader path o.environment).outcome = .ok loaded ∧
      loaded.Wellformed ∧
      self.document = listing o.importsKey self.imports (Document.merge loaded o.data) := by
  obtain ⟨loader, loaded, hloader, hloaded, h⟩ := own_eq_ok h
  have hwell : loaded.Wellformed :=
    of_loadWithEnvironment (hl.load hloader) (fun hd he => hd.merge he) hloaded
  refine ⟨loader, loaded, hloader, hloaded, hwell, ?_⟩
  rcases h with ⟨rfl, hlist⟩ | ⟨⟨items, hitems⟩, h⟩
  · unfold listing
    split
    · next items hitems => exact absurd hitems (hlist items)
    · rfl
  · obtain ⟨hdocument, hfailure, -⟩ := resolveImports_eq_ok h
    have hmem : o.importsKey ∈ Entries.keys (Document.merge loaded o.data) := by
      rw [← Entries.isSome_get?_iff, hitems]
      rfl
    obtain ⟨d', hd'⟩ := Resolution.failure_eq_none_iff.1 hfailure
    obtain ⟨v, rfl⟩ := hl.resolve (Document.distinct_merge hwell.1 o.data) hmem hd'
    rw [hdocument, hd', Entries.insert_insert, listing, hitems]

theorem wellformed_own (hl : l.KeepsDocuments w) (hdata : o.data.Wellformed)
    (h : (l.own w o path).outcome = .ok self) : self.document.Wellformed := by
  obtain ⟨loader, loaded, -, -, hwell, hdocument⟩ := document_of_own hl h
  rw [hdocument]
  exact wellformed_listing (hwell.merge hdata)

/-- A file that imports the same with data as without them gives what it gives without them, with the data
over it. -/
theorem document_eq_merge (hl : l.KeepsDocuments w) (hkey : Entries.get? o.data o.importsKey = none)
    (h : (l.own w o.withoutData path).outcome = .ok self)
    (h' : (l.own w o path).outcome = .ok self') (himports : self'.imports = self.imports) :
    self'.document = Document.merge self.document o.data := by
  obtain ⟨loader, loaded, hloader, hloaded, -, hdocument⟩ := document_of_own hl h
  obtain ⟨loader', loaded', hloader', hloaded', -, hdocument'⟩ := document_of_own hl h'
  obtain rfl : loader = loader' := Option.some.inj (hloader.symm.trans hloader')
  obtain rfl : loaded = loaded' := Except.ok.inj (hloaded.symm.trans hloaded')
  rw [hdocument', hdocument, himports]
  exact (merge_listing hkey).symm

/-! ### All files -/

/-- A file that imports the same with data as without them. -/
def KeepsImports (l : Loader) (w : World) (o : EffectiveOptions) (path : String) : Prop :=
  ∀ self self', (l.own w o.withoutData path).outcome = .ok self →
    (l.own w o path).outcome = .ok self' → self'.imports = self.imports

mutual

/-- Where files import the same, data are laid over each document of a tree. -/
theorem Grows.eq_map (hl : l.KeepsDocuments w) (hkey : Entries.get? o.data o.importsKey = none) :
    ∀ {path : String} {t t' : ImportTree}, Grows l w o.withoutData path t → Grows l w o path t' →
      (∀ p, ReflTransGen (Imports l w o.withoutData) path p → KeepsImports l w o p) →
      t' = t.map (Document.merge · o.data)
  | path, _, _, @Grows.file _ _ _ _ self _ hself hts, .file hself' hts', h => by
    have himports := h path .refl _ _ hself hself'
    rw [himports] at hts'
    rw [ImportTree.map, ← document_eq_merge hl hkey hself hself' himports]
    rw [GrowsAll.eq_mapAll hl hkey hts hts' fun i hi p hp => h p (.head ⟨self, hself, hi⟩ hp)]

theorem GrowsAll.eq_mapAll (hl : l.KeepsDocuments w)
    (hkey : Entries.get? o.data o.importsKey = none) :
    ∀ {paths : List String} {ts ts' : List ImportTree}, GrowsAll l w o.withoutData paths ts →
      GrowsAll l w o paths ts' →
      (∀ i ∈ paths, ∀ p, ReflTransGen (Imports l w o.withoutData) i p → KeepsImports l w o p) →
      ts' = ImportTree.mapAll (Document.merge · o.data) ts
  | _, _, _, .nil, .nil, _ => rfl
  | _, _, _, .cons ht hts, .cons ht' hts', h => by
    rw [ImportTree.mapAll, Grows.eq_map hl hkey ht ht' fun p hp => h _ List.mem_cons_self p hp,
      GrowsAll.eq_mapAll hl hkey hts hts' fun i hi => h i (List.mem_cons_of_mem _ hi)]

end

end Loader

namespace ImportTree

open Document

mutual

/-- Where data over each document of a tree are data over another document that yields to them, so it is
with what is put together from the trees. -/
theorem forced_compose {data : Document} {f : Document → Document} (hdata : data.Wellformed) :
    ∀ t : ImportTree, t.All (fun d => Forced data (Document.merge d data) (f d)) →
      Forced data (t.map (Document.merge · data)).compose (t.map f).compose
  | .file d ts, h => by
    rw [map, map, compose, compose]
    refine forced_mergeAll hdata (by simp) ?_
    exact List.rel_append (forced_composeAll hdata ts h.2) (.cons h.1 .nil)

theorem forced_composeAll {data : Document} {f : Document → Document} (hdata : data.Wellformed) :
    ∀ ts : List ImportTree, AllOf (fun d => Forced data (Document.merge d data) (f d)) ts →
      List.Forall₂ (Forced data) (composeAll (mapAll (Document.merge · data) ts))
        (composeAll (mapAll f ts))
  | [], _ => .nil
  | t :: ts, h => .cons (forced_compose hdata t h.1) (forced_composeAll hdata ts h.2)

end

end ImportTree

namespace Loader

variable {l : Loader} {w : World} {o : EffectiveOptions} {root : String}

/-- The data of a load list no imports, and leave the import lists of the files that it comes to as they
are. -/
structure LeavesImports (l : Loader) (w : World) (o : EffectiveOptions) (root : String) : Prop where
  /-- No mapping in the data has a key twice. -/
  wellformed : o.data.Wellformed
  /-- The data have no entry of the imports key. -/
  listless : Entries.get? o.data o.importsKey = none
  /-- Each file imports the same with the data as without them. -/
  keeps : ∀ path, ReflTransGen (Imports l w o.withoutData) root path → KeepsImports l w o path

theorem loadDocument_withoutData (n : Nat) (chain : List String) (path : String) :
    l.withoutData.loadDocument w o n chain path = l.loadDocument w o n chain path := by
  induction n generalizing chain path with
  | zero => rw [loadDocument.eq_1, loadDocument.eq_1]
  | succ n ih =>
    have hrec : l.withoutData.loadDocument w o n = l.loadDocument w o n := by
      funext chain path
      exact ih chain path
    rw [loadDocument.eq_2, loadDocument.eq_2, hrec]
    rfl

/-- What a load with data gives is put together from the tree of the load without them, with the data over
each document. -/
theorem exists_tree_of_forced (hl : l.KeepsDocuments w) (hleaves : l.LeavesImports w o root)
    {n m : Nat} {d forced : Document}
    (h : (l.loadDocument w o.withoutData n [] root).outcome = .ok d)
    (hforced : (l.loadDocument w o m [] root).outcome = .ok forced) :
    ∃ t : ImportTree, Grows l w o.withoutData root t ∧ d = t.compose ∧
      forced = (t.map (Document.merge · o.data)).compose ∧ t.All Document.Wellformed := by
  have hwell : ∀ path self, (l.own w o.withoutData path).outcome = .ok self →
      self.document.Wellformed := fun _ _ => wellformed_own hl Document.wellformed_nil
  obtain ⟨t, ht, hd⟩ := exists_tree (fun path self hself => (hwell path self hself).1) h
  obtain ⟨t', ht', hforced⟩ := exists_tree
    (fun path self hself => (wellformed_own hl hleaves.wellformed hself).1) hforced
  obtain rfl := Grows.eq_map hl hleaves.listless ht ht' hleaves.keeps
  exact ⟨t, ht, hd, hforced, ht.all hwell⟩

/-- **Forced data.** Where a load succeeds with its data and without them, and the data leave the import
lists as they are, the load without them is put together from a tree of documents. With them it gives, up
to the order of entries, the data laid over what is put together from this tree once each document is
cleared of what is in the way of the data. Where nothing is, that is the data laid over the load without
them. -/
theorem loadRaw_forced (hl : l.KeepsDocuments w) (root : String) (overrides : LoadOptions)
    (hleaves : l.LeavesImports w (l.options.effective overrides) (FilePath.normalize w.cwd root))
    {d forced : Document}
    (h : (l.withoutData.loadRaw w root overrides.withoutData).outcome = .ok d)
    (hforced : (l.loadRaw w root overrides).outcome = .ok forced) :
    ∃ t : ImportTree,
      Grows l w (l.options.effective overrides).withoutData (FilePath.normalize w.cwd root) t ∧
      d = t.compose ∧
      Value.ReorderedEntries forced
        (Document.merge (t.map (Document.clear (l.options.effective overrides).data)).compose
          (l.options.effective overrides).data) ∧
      (t.All (·.YieldsTo (l.options.effective overrides).data) →
        Value.ReorderedEntries forced
          (Document.merge d (l.options.effective overrides).data)) := by
  set o := l.options.effective overrides
  obtain ⟨n, h⟩ := loadRaw_eq_ok_iff_exists.1 h
  obtain ⟨m, hforced⟩ := loadRaw_eq_ok_iff_exists.1 hforced
  rw [loadDocument_withoutData, effective_withoutData] at h
  have hdata := hleaves.wellformed
  obtain ⟨t, ht, rfl, rfl, hwell⟩ := exists_tree_of_forced hl hleaves h hforced
  refine ⟨t, ht, rfl, ?_, fun hyields => ?_⟩
  · have hclear := hwell.imp fun d hd => Document.forced_clear hd hdata
    exact (ImportTree.forced_compose hdata t hclear).reordered hdata
  · have hsame := (hwell.and hyields).imp fun d hd => Document.forced_of_yieldsTo hd.1 hdata hd.2
    have hcompose := ImportTree.forced_compose (f := id) hdata t hsame
    rw [ImportTree.map_id] at hcompose
    exact hcompose.reordered hdata

/-- A file that overrides a mapping of its import with a number. -/
def overriding : World where
  nodes := [
    ("/root.json", .file "\x7b\"imports\":[\"base.json\"],\"a\":5\x7d".toUTF8),
    ("/base.json", .file "\x7b\"a\":\x7b\"y\":2\x7d\x7d".toUTF8)]

/-- Data that hold a mapping where the file holds the number. -/
def backing : LoadOptions where
  data := some [("a", .mapping [("x", .number (.int 1))])]

/-- The number is the last that was written without the data, and with them the mapping of the import comes
back. -/
theorem loadRaw_overriding :
    (jsonOnly.withoutData.loadRaw overriding "/root.json" backing.withoutData).outcome =
        .ok [("a", .number (.int 5)), ("imports", .sequence [.string "/base.json"])] ∧
      (jsonOnly.loadRaw overriding "/root.json" backing).outcome =
        .ok [("a", .mapping [("y", .number (.int 2)), ("x", .number (.int 1))]),
          ("imports", .sequence [.string "/base.json"])] := by
  constructor
  · exact loadRaw_eq_ok_iff_exists.2 ⟨2, by decide +kernel⟩
  · exact loadRaw_eq_ok_iff_exists.2 ⟨2, by decide +kernel⟩

theorem imports_eq_of_map {x : Run Own} {paths : List String} (h : x.outcome = .ok self)
    (hmap : x.outcome.map Own.imports = .ok paths) : self.imports = paths := by
  rw [h] at hmap
  exact Except.ok.inj hmap

/-- The two files import the same with the data and without them. -/
theorem imports_overriding :
    ∀ file ∈ [("/root.json", ["/base.json"]), ("/base.json", [])],
      (jsonOnly.own overriding (jsonOnly.options.effective backing).withoutData
        file.1).outcome.map Own.imports = .ok file.2 ∧
      (jsonOnly.own overriding (jsonOnly.options.effective backing) file.1).outcome.map
        Own.imports = .ok file.2 := by
  decide +kernel

theorem keepsImports_overriding {path : String} (h : path = "/root.json" ∨ path = "/base.json") :
    jsonOnly.KeepsImports overriding (jsonOnly.options.effective backing) path := by
  obtain ⟨paths, hmem⟩ : ∃ paths, (path, paths) ∈
      [("/root.json", ["/base.json"]), ("/base.json", [])] := by
    rcases h with rfl | rfl
    · exact ⟨_, List.mem_cons_self⟩
    · exact ⟨_, List.mem_cons_of_mem _ List.mem_cons_self⟩
  obtain ⟨hwithout, hwith⟩ := imports_overriding _ hmem
  intro self self' hself hself'
  rw [imports_eq_of_map hself' hwith, imports_eq_of_map hself hwithout]

theorem leavesImports_overriding :
    jsonOnly.LeavesImports overriding (jsonOnly.options.effective backing) "/root.json" where
  wellformed := by decide
  listless := by decide
  keeps := by
    intro path hpath
    refine keepsImports_overriding ?_
    induction hpath with
    | refl => exact .inl rfl
    | tail _ hstep ih =>
      obtain ⟨self, hself, hi⟩ := hstep
      rcases ih with rfl | rfl
      · rw [imports_eq_of_map hself (imports_overriding _ List.mem_cons_self).1] at hi
        exact .inr (List.mem_singleton.1 hi)
      · rw [imports_eq_of_map hself
          (imports_overriding _ (List.mem_cons_of_mem _ List.mem_cons_self)).1] at hi
        cases hi

/-- Cleared of the number, the load without the data gives with the data over it what the load with them
gives. -/
theorem loadRaw_backing :
    jsonOnly.KeepsDocuments overriding ∧
    jsonOnly.LeavesImports overriding (jsonOnly.options.effective backing) "/root.json" ∧
    ∃ t : ImportTree,
      Grows jsonOnly overriding (jsonOnly.options.effective backing).withoutData "/root.json" t ∧
      t.compose = [("a", .number (.int 5)), ("imports", .sequence [.string "/base.json"])] ∧
      Value.ReorderedEntries
        [("a", .mapping [("y", .number (.int 2)), ("x", .number (.int 1))]),
          ("imports", .sequence [.string "/base.json"])]
        (Document.merge (t.map (Document.clear [("a", .mapping [("x", .number (.int 1))])])).compose
          [("a", .mapping [("x", .number (.int 1))])]) := by
  have hkeeps := keepsDocuments_of_builtin builtin_jsonOnly rfl overriding
  have hroot : FilePath.normalize overriding.cwd "/root.json" = "/root.json" := by decide +kernel
  have hleaves := leavesImports_overriding
  refine ⟨hkeeps, hleaves, ?_⟩
  rw [← hroot] at hleaves
  obtain ⟨hwithout, hwith⟩ := loadRaw_overriding
  obtain ⟨t, ht, hcompose, hforced, -⟩ :=
    loadRaw_forced hkeeps "/root.json" backing hleaves hwithout hwith
  rw [hroot] at ht
  exact ⟨t, ht, hcompose.symm, hforced⟩

/-- **Forced data are not laid over the load without them.** They bring back what a file had overridden,
even where they leave the import lists of all files as they are. -/
theorem not_loadRaw_over :
    ¬ ∀ (l : Loader) (w : World) (root : String) (overrides : LoadOptions) (d forced : Document),
      l.KeepsDocuments w → (l.options.effective overrides).data.Wellformed →
      Entries.get? (l.options.effective overrides).data
        (l.options.effective overrides).importsKey = none →
      (∀ path ∈ w.filePaths, l.KeepsImports w (l.options.effective overrides) path) →
      (l.withoutData.loadRaw w root overrides.withoutData).outcome = .ok d →
      (l.loadRaw w root overrides).outcome = .ok forced →
      Value.ReorderedEntries forced (Document.merge d (l.options.effective overrides).data) := by
  intro hclaim
  obtain ⟨hwithout, hwith⟩ := loadRaw_overriding
  have hfiles : ∀ path ∈ overriding.filePaths, path = "/root.json" ∨ path = "/base.json" := by
    decide +kernel
  have hreordered := hclaim jsonOnly overriding "/root.json" backing _ _
    (keepsDocuments_of_builtin builtin_jsonOnly rfl overriding) (by decide) (by decide)
    (fun path hpath => keepsImports_overriding (hfiles path hpath)) hwithout hwith
  -- under the key stand two entries on one side, and one on the other
  obtain ⟨v, hv, ha⟩ := hreordered.get? (by decide) (show Entries.get? _ "a" = _ from rfl)
  have hmerged : Entries.get? (Document.merge
      [("a", .number (.int 5)), ("imports", .sequence [.string "/base.json"])]
      (jsonOnly.options.effective backing).data) "a" =
        some (.mapping [("x", .number (.int 1))]) := by decide +kernel
  obtain rfl := Option.some.inj (hmerged.symm.trans hv)
  cases ha with
  | mapping hentries => exact absurd hentries.keys_perm.length_eq (by decide)

end Loader

end ConfigTree
