import ConfigTree.Proofs.Document.Written
import ConfigTree.Proofs.Loader.Forced
import ConfigTree.Proofs.Loader.Stages
import ConfigTree.Proofs.Reference.Clean

/-!
# What forced data pin

The data that a caller forces are merged over the file at the top before its imports are, and after that
come the imports and a pass over the references. What the data hold at a path can still be read there in
the end (`get?_of_loadRaw`, `get?_of_loadWith`), whatever the files hold on the way to it: mappings are
merged with, and everything else is replaced.

There are three exceptions. A mapping is merged with what files hold at its place. Texts with placeholders
are resolved. And the entry of the imports key is rewritten as the imports are read.
-/

namespace ConfigTree

/-- What the document of a file holds and is not a mapping is read over the documents of its imports. -/
theorem Own.get?_over_of_get? {self : Own} {ds : List Document} {p : Path} {v : Value}
    (hself : self.document.Wellformed) (h : self.document.get? p = some v) (hv : v.entries? = none) :
    (Own.over self ds).get? p = some v := by
  rcases Own.over_eq_or self ds with hover | hover
  · rw [hover, h]
  · rw [hover]
    exact Document.get?_merge_of_get? hself h hv

namespace Loader

variable {l : Loader} {w : World} {path : String} {overrides : LoadOptions} {options : ResolverOptions}
  {d d' : Document} {first : Segment} {rest : Path} {v : Value}

/-- Reading the import list of a document leaves the entries of other keys. -/
theorem get?_listing {key : String} {paths : List String} (hkey : first.documentKey ≠ key) :
    Document.get? (listing key paths d) (first :: rest) = d.get? (first :: rest) := by
  unfold listing
  split
  · exact Document.get?_insert_of_ne hkey
  · rfl

/-- What the data hold is read in the document that the file at the top gives by itself. -/
theorem get?_of_own {o : EffectiveOptions} {self : Own} (hl : l.KeepsDocuments w)
    (hdata : o.data.Wellformed) (hget : o.data.get? (first :: rest) = some v) (hv : v.entries? = none)
    (hkey : first.documentKey ≠ o.importsKey) (h : (l.own w o path).outcome = .ok self) :
    self.document.get? (first :: rest) = some v := by
  obtain ⟨_, loaded, -, -, -, hdocument⟩ := document_of_own hl h
  rw [hdocument, get?_listing hkey]
  exact Document.get?_merge_of_get? hdata hget hv

/-- The last pass leaves what holds no beginning of a placeholder, but for the entry of imports. -/
theorem get?_of_finish_of_clean {key : String}
    (h : finish (.placeholders options w.env) key d = ⟨d', none⟩)
    (hget : d.get? (first :: rest) = some v) (hkey : first.documentKey ≠ key) (hv : v.Clean) :
    d'.get? (first :: rest) = some v := by
  have hpass : ∀ {scope : Scope}, Resolver.pass options w.env scope d = ⟨d', none⟩ →
      scope.contains first.documentKey = true → d'.get? (first :: rest) = some v := by
    intro scope hrun hscope
    exact Lookup.get?_run_of_clean (l := ⟨options, w.env, d, scope⟩) hrun hscope hget hv
  rw [finish] at h
  split at h
  · exact hpass h (by simpa [Scope.contains] using hkey)
  · exact hpass h rfl

/-- **What the data hold at a path is read there after a load**, where it is not a mapping and the path
does not begin with the imports key. -/
theorem get?_of_loadRaw (hl : l.KeepsDocuments w)
    (hdata : (l.options.effective overrides).data.Wellformed)
    (hget : (l.options.effective overrides).data.get? (first :: rest) = some v)
    (hv : v.entries? = none) (hkey : first.documentKey ≠ (l.options.effective overrides).importsKey)
    (h : (l.loadRaw w path overrides).outcome = .ok d) : d.get? (first :: rest) = some v := by
  obtain ⟨self, ds, hself, rfl⟩ := exists_own_of_loadRaw h
  exact Own.get?_over_of_get? (wellformed_own hl hdata hself) (get?_of_own hl hdata hget hv hkey hself) hv

/-- If its texts hold no beginnings of placeholders, it is read after the last pass, too. -/
theorem get?_of_loadWith (hl : l.KeepsDocuments w) (hresolver : l.resolver = .placeholders options)
    (hdata : (l.options.effective overrides).data.Wellformed)
    (hget : (l.options.effective overrides).data.get? (first :: rest) = some v)
    (hv : v.entries? = none) (hclean : v.Clean)
    (hkey : first.documentKey ≠ (l.options.effective overrides).importsKey) {output : LoadOutput}
    (h : (l.loadWith w path overrides).outcome = .ok output) :
    output.toDocument.get? (first :: rest) = some v := by
  obtain ⟨loaded, d', hloaded, hfinish, rfl⟩ := loadWith_eq_ok_iff.1 h
  rw [hresolver] at hfinish
  have hread := get?_of_finish_of_clean hfinish (get?_of_loadRaw hl hdata hget hv hkey hloaded) hkey hclean
  split_ifs <;> exact hread

end Loader

end ConfigTree
