import ConfigTree.Proofs.Loader.Stages
import ConfigTree.Proofs.Reference.Finalized
import ConfigTree.Proofs.Reference.Reordering

/-!
# The import list that a load shows

Every file that is imported may list imports of its own under the same key, and a last pass resolves the
references of the whole. Which list does the result show? That of the file at the top, and with each entry
made a path by what this file alone says: the reference in an entry is read in the layers of the file, and
the path is taken from its directory (`load_importList`). Nothing of the lists below shows through, as a
list is not merged with what it is laid over but replaces it (`get?_over`), and the last pass sees by the
list that there is one to leave alone.

Where the layers hold no list, nothing is imported, and the last pass goes over that entry as over all
others.
-/

namespace ConfigTree

open Value

/-- What is no mapping shows over the documents of the imports as it is. -/
theorem Own.get?_over {self : Own} {ds : List Document} {key : String} {v : Value}
    (hself : Entries.Distinct self.document) (h : Entries.get? self.document key = some v)
    (hv : v.entries? = none) : Entries.get? (Own.over self ds) key = some v := by
  rcases Own.over_eq_or self ds with hover | hover
  · rw [hover, h]
  · rw [hover, Document.get?_merge_of_some hself h, overlay_of_entries?_eq_none hv]

/-- Items that are texts after their strings were replaced were texts before. -/
theorem Value.ReplacedItems.forall₂_of_strings {R : String → Value → Prop} {items : List Value}
    {raws : List String} (h : ReplacedItems R items (raws.map .string)) :
    List.Forall₂ (fun item raw => ∃ text, item = .string text ∧ R text (.string raw)) items raws := by
  induction raws generalizing items with
  | nil =>
    cases h
    exact .nil
  | cons raw raws ih =>
    cases h with
    | cons hitem hitems =>
      refine .cons ?_ (ih hitems)
      cases hitem with
      | string htext => exact ⟨_, rfl, htext⟩

namespace Loader

variable {l : Loader} {w : World} {path : String} {options : ResolverOptions} {d : Document}
  {overrides : LoadOptions}

/-- The path that a text on the import list of a file stands for. -/
def importTarget (w : World) (path raw : String) : String :=
  FilePath.normalize w.cwd (FilePath.join (importBase path) raw)

/-- The entry of an import list is a text, and it becomes the text `raw` by what the document says. -/
def Names (options : ResolverOptions) (w : World) (d : Document) (item : Value) (raw : String) : Prop :=
  ∃ text, item = .string text ∧
    Becomes (Lookup.HasValue ⟨options, w.env, d, .all⟩) text (.string raw)

/-! ### The list of one file -/

/-- The imports of a normalised path are read in a directory below the root. -/
theorem isAbsolute_importBase (w : World) (path : String) :
    FilePath.isAbsolute (importBase (FilePath.normalize w.cwd path)).toList = true := by
  rw [importBase]
  by_cases hempty : FilePath.normalize w.cwd path = ""
  · rw [if_pos hempty]
    rfl
  · rw [if_neg hempty, FilePath.directory, String.toList_ofList]
    refine FilePath.isAbsolute_parentChars ?_
    have hpath : path.toList ≠ [] := by
      intro hnil
      apply hempty
      rw [FilePath.normalize, hnil, FilePath.normalizeChars, if_pos rfl]
    rw [FilePath.normalize, String.toList_ofList]
    exact (FilePath.isNormal_normalizeChars _ hpath).1

/-- Whatever the text, it stands for a path from the root without dots or steps back. -/
theorem isNormal_importTarget (w : World) (path raw : String) :
    FilePath.IsNormal (importTarget w (FilePath.normalize w.cwd path) raw).toList := by
  rw [importTarget, FilePath.normalize, String.toList_ofList]
  refine FilePath.isNormal_normalizeChars _ (FilePath.ne_nil_of_isAbsolute ?_)
  rw [FilePath.join, String.toList_ofList]
  exact FilePath.isAbsolute_joinChars (isAbsolute_importBase w path) _

/-- The list of a file whose imports are resolved: what each entry becomes by the layers of the file, made
a path. -/
theorem resolveImports_placeholders {key : String} {items : List Value} {self : Own}
    (hresolver : l.resolver = .placeholders options) (hdistinct : Entries.Distinct d)
    (hitems : Entries.get? d key = some (.sequence items))
    (h : (l.resolveImports w key path d).outcome = .ok self) :
    ∃ raws, List.Forall₂ (Names options w d) items raws ∧
      (Resolver.placeholders options w.env).resolve d (some key) =
        ⟨Entries.insert d key (.sequence (raws.map .string)), none⟩ ∧
      Entries.get? self.document key =
        some (.sequence (raws.map fun raw => .string (importTarget w path raw))) := by
  obtain ⟨hself, hfailure, resolved, hresolved, hpaths⟩ := resolveImports_eq_ok h
  rw [hresolver] at hfailure hresolved
  obtain ⟨r, hrun⟩ := Resolution.failure_eq_none_iff.1 hfailure
  obtain ⟨v, hv, rfl⟩ := (Resolver.resolve_only_eq_iff_of_get? hdistinct hitems).1 hrun
  rw [hrun, Entries.get?_insert_self] at hresolved
  cases hresolved
  obtain ⟨raws, rfl, himports⟩ := importPaths_eq_ok hpaths
  refine ⟨raws, ?_, hrun, ?_⟩
  · cases hv with
    | sequence hreplaced => exact hreplaced.forall₂_of_strings
  · rw [hself, Entries.get?_insert_self, himports, List.map_map]
    rfl

/-! ### The list in the result -/

/-- The last pass leaves a list of imports as it is. -/
theorem get?_of_finish {key : String} {d' : Document} {items : List Value}
    (hitems : Entries.get? d key = some (.sequence items))
    (h : finish (.placeholders options w.env) key d = ⟨d', none⟩) :
    Entries.get? d' key = some (.sequence items) := by
  have hpass : (Resolver.placeholders options w.env).resolveExcept d key = ⟨d', none⟩ := by
    rw [finish, hitems] at h
    exact h
  have hdocument : ((Resolver.placeholders options w.env).resolveExcept d key).document = d' := by
    rw [hpass]
  rw [← hdocument, ← hitems]
  exact Lookup.get?_scopeMapStrings (by simp [Scope.contains]) _ _ _

/-- Where there is no list, the last pass is one over everything. -/
theorem finish_of_listless {resolver : Resolver} {key : String}
    (hlist : ∀ items, Entries.get? d key ≠ some (.sequence items)) :
    finish resolver key d = resolver.resolve d none := by
  rw [finish]
  split
  · next items hitems => exact absurd hitems (hlist items)
  · rfl

/-- What a load shows under the imports key when the layers `d` of its file hold the list `items` there. -/
structure ShowsList (l : Loader) (w : World) (path : String) (overrides : LoadOptions)
    (options : ResolverOptions) (d : Document) (items : List Value) (paths : List String) : Prop where
  /-- The paths are those that the entries of the list stand for, each read in the layers. -/
  named : ∃ raws, List.Forall₂ (Names options w d) items raws ∧
    (Resolver.placeholders options w.env).resolve d
        (some (l.options.effective overrides).importsKey) =
      ⟨Entries.insert d (l.options.effective overrides).importsKey (.sequence (raws.map .string)), none⟩ ∧
    paths = raws.map (importTarget w (FilePath.normalize w.cwd path))
  /-- They lead from the root, without dots or steps back. -/
  normal : ∀ p ∈ paths, FilePath.IsNormal p.toList
  /-- They are shown where references are left alone. -/
  raw : ∀ {loaded}, (l.loadRaw w path overrides).outcome = .ok loaded →
    Entries.get? loaded (l.options.effective overrides).importsKey = some (.sequence (paths.map .string))
  /-- They are shown where references are resolved. -/
  load : ∀ {output}, (l.loadWith w path overrides).outcome = .ok output →
    Entries.get? output.toDocument (l.options.effective overrides).importsKey =
      some (.sequence (paths.map .string))

/-- What a load is when the layers `d` of its file hold no list under the imports key. -/
structure ShowsNoList (l : Loader) (w : World) (path : String) (overrides : LoadOptions)
    (options : ResolverOptions) (d : Document) : Prop where
  /-- The file imports nothing. -/
  imports : ∀ q, ¬ Imports l w (l.options.effective overrides) (FilePath.normalize w.cwd path) q
  /-- Where references are left alone, the layers are the result. -/
  raw : (l.loadRaw w path overrides).outcome = .ok d
  /-- Where they are resolved, one pass goes over all entries. -/
  load : ∀ output, (l.loadWith w path overrides).outcome = .ok output ↔
    ∃ d', (Resolver.placeholders options w.env).resolve d none = ⟨d', none⟩ ∧
      output = if (l.options.effective overrides).flattenOutput then .flattened ⟨d'⟩ else .document d'

theorem showsList {items : List Value} (hl : l.KeepsKeys w)
    (hresolver : l.resolver = .placeholders options)
    (hd : (l.layered w (l.options.effective overrides) (FilePath.normalize w.cwd path)).outcome = .ok d)
    (hitems : Entries.get? d (l.options.effective overrides).importsKey = some (.sequence items))
    {loaded : Document} (hloaded : (l.loadRaw w path overrides).outcome = .ok loaded) :
    ∃ paths, ShowsList l w path overrides options d items paths := by
  obtain ⟨self, ds, hself, rfl⟩ := exists_own_of_loadRaw hloaded
  obtain ⟨raws, hnames, hpass, hlist⟩ := resolveImports_placeholders hresolver
    (distinct_layered hl hd) hitems ((own_of_listed hd hitems).1 hself)
  have hover : Entries.get? (Own.over self ds) (l.options.effective overrides).importsKey =
      some (.sequence (raws.map fun raw =>
        .string (importTarget w (FilePath.normalize w.cwd path) raw))) :=
    Own.get?_over (distinct_own hl hself) hlist rfl
  refine ⟨raws.map (importTarget w (FilePath.normalize w.cwd path)),
    ⟨raws, hnames, hpass, rfl⟩, ?_, ?_, ?_⟩
  · intro p hp
    obtain ⟨raw, -, rfl⟩ := List.mem_map.1 hp
    exact isNormal_importTarget w path raw
  · intro loaded hloaded'
    obtain rfl : Own.over self ds = loaded := by simpa [hloaded] using hloaded'
    rw [hover, List.map_map]
    rfl
  · intro output houtput
    obtain ⟨loaded, d', hloaded', hfinish, rfl⟩ := loadWith_eq_ok_iff.1 houtput
    obtain rfl : Own.over self ds = loaded := by simpa [hloaded] using hloaded'
    rw [hresolver] at hfinish
    have hd' := get?_of_finish hover hfinish
    rw [List.map_map]
    split_ifs <;> exact hd'

theorem showsNoList (hresolver : l.resolver = .placeholders options)
    (hd : (l.layered w (l.options.effective overrides) (FilePath.normalize w.cwd path)).outcome = .ok d)
    (hlist : ∀ items,
      Entries.get? d (l.options.effective overrides).importsKey ≠ some (.sequence items)) :
    ShowsNoList l w path overrides options d := by
  have hraw : (l.loadRaw w path overrides).outcome = .ok d := loadRaw_of_listless hd hlist
  refine ⟨?_, hraw, ?_⟩
  · rintro q ⟨self, hself, hq⟩
    obtain rfl : ⟨d, []⟩ = self := by simpa [own_of_listless hd hlist] using hself
    exact List.not_mem_nil hq
  · intro output
    rw [loadWith_eq_ok_iff]
    constructor
    · rintro ⟨loaded, d', hloaded, hfinish, rfl⟩
      obtain rfl : d = loaded := by simpa [hraw] using hloaded
      rw [finish_of_listless hlist, hresolver] at hfinish
      exact ⟨d', hfinish, rfl⟩
    · rintro ⟨d', hpass, rfl⟩
      refine ⟨d, d', hraw, ?_, rfl⟩
      rw [finish_of_listless hlist, hresolver]
      exact hpass

/-- **The result of a load shows the import list of the file at the top, and no other.** If the layers of
the file hold a list, each of its entries stands for a path, and the result holds these paths, whether
references are resolved or not. If they hold none, nothing is imported, and that entry is as any other. -/
theorem load_importList (hl : l.KeepsKeys w) (hresolver : l.resolver = .placeholders options)
    (hload : (∃ loaded, (l.loadRaw w path overrides).outcome = .ok loaded) ∨
      ∃ output, (l.loadWith w path overrides).outcome = .ok output) :
    ∃ d, (l.layered w (l.options.effective overrides) (FilePath.normalize w.cwd path)).outcome = .ok d ∧
      (∀ items, Entries.get? d (l.options.effective overrides).importsKey = some (.sequence items) →
        ∃ paths, ShowsList l w path overrides options d items paths) ∧
      ((∀ items, Entries.get? d (l.options.effective overrides).importsKey ≠ some (.sequence items)) →
        ShowsNoList l w path overrides options d) := by
  obtain ⟨loaded, hloaded⟩ : ∃ loaded, (l.loadRaw w path overrides).outcome = .ok loaded := by
    rcases hload with hloaded | ⟨output, houtput⟩
    · exact hloaded
    · obtain ⟨loaded, -, hloaded, -⟩ := loadWith_eq_ok_iff.1 houtput
      exact ⟨loaded, hloaded⟩
  obtain ⟨self, -, hself, -⟩ := exists_own_of_loadRaw hloaded
  rw [own_eq_layered, Run.outcome_bind_eq_ok_iff] at hself
  obtain ⟨d, hd, -⟩ := hself
  exact ⟨d, hd, fun items hitems => showsList hl hresolver hd hitems hloaded,
    showsNoList hresolver hd⟩

/-- A file whose import list takes a reference and a step back, next to one that lists imports of its
own. -/
def nested : World where
  nodes := [
    ("/etc", .directory),
    ("/etc/app.json",
      .file "\x7b\"imports\":[\"../$\x7bname\x7d.json\"],\"name\":\"base\",\"copy\":\"$\x7bx\x7d\"\x7d".toUTF8),
    ("/base.json", .file "\x7b\"name\":\"other\",\"x\":1,\"imports\":[\"leaf.json\"]\x7d".toUTF8),
    ("/leaf.json", .file "\x7b\"x\":2\x7d".toUTF8)]

/-- The list of the second file does not show, nor does what it says of the reference. -/
theorem load_nested :
    jsonOnly.KeepsKeys nested ∧ jsonOnly.resolver = .placeholders {} ∧
      (∃ output, (jsonOnly.loadWith nested "/etc/app.json" {}).outcome = .ok output) ∧
      ∃ d, Entries.get? d "imports" = some (.sequence [.string "../${name}.json"]) ∧
        ShowsList jsonOnly nested "/etc/app.json" {} {} d [.string "../${name}.json"] ["/base.json"] := by
  have hkeys : jsonOnly.KeepsKeys nested := keepsKeys_of_builtin builtin_jsonOnly rfl nested
  have hraw : (jsonOnly.loadRaw nested "/etc/app.json" {}).outcome =
      .ok [("x", .number (.int 1)), ("name", .string "base"),
        ("imports", .sequence [.string "/base.json"]), ("copy", .string "${x}")] :=
    loadRaw_eq_ok_iff_exists.2 ⟨3, by decide +kernel⟩
  have hload : ∃ output, (jsonOnly.loadWith nested "/etc/app.json" {}).outcome = .ok output :=
    ⟨_, loadWith_eq_ok_iff.2 ⟨_, [("x", .number (.int 1)), ("name", .string "base"),
      ("imports", .sequence [.string "/base.json"]), ("copy", .number (.int 1))], hraw,
      by decide +kernel, rfl⟩⟩
  have hlayers : (jsonOnly.layered nested (jsonOnly.options.effective {})
      (FilePath.normalize nested.cwd "/etc/app.json")).outcome =
      .ok [("imports", .sequence [.string "../${name}.json"]), ("name", .string "base"),
        ("copy", .string "${x}")] := by decide +kernel
  obtain ⟨d, hd, hlisted, -⟩ := load_importList hkeys rfl (.inr hload)
  obtain rfl := Except.ok.inj (hlayers.symm.trans hd)
  obtain ⟨paths, hshows⟩ := hlisted [.string "../${name}.json"] rfl
  -- The paths are told by the document that `hraw` gives.
  have hlist : some (Value.sequence [.string "/base.json"]) = some (.sequence (paths.map .string)) :=
    hshows.raw hraw
  obtain ⟨p, rfl, hp⟩ := List.map_eq_singleton_iff.1 (Value.sequence.inj (Option.some.inj hlist)).symm
  obtain rfl := Value.string.inj hp
  exact ⟨hkeys, rfl, hload, _, rfl, hshows⟩

end Loader

end ConfigTree
