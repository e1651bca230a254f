import ConfigTree.Proofs.FilePath.Normal
import ConfigTree.World

/-!
# Reading goes by normalised paths

A world lists what exists by normalised paths, but it is asked by paths in any spelling, which are
followed name by name. For a path that is normalised the two agree: when it is read, it is the listed
path of a file. So there are no more readable normalised paths than there are files.
-/

namespace ConfigTree

/-- Whether a node is a file. -/
def Node.isFile : Node → Bool
  | .file _ => true
  | .directory => false

namespace World

variable {w : World} {here ps ns : List (List Char)} {node : Node} {bytes : ByteArray} {path : String}

/-- The paths of the files. -/
def filePaths (w : World) : List String := (w.nodes.filter (·.2.isFile)).map Prod.fst

theorem length_filePaths (w : World) : w.filePaths.length = w.fileCount := by
  rw [filePaths, List.length_map, fileCount]
  congr 2

theorem mem_filePaths_of_get? (h : Entries.get? w.nodes path = some (.file bytes)) :
    path ∈ w.filePaths := by
  rw [filePaths, List.mem_map]
  exact ⟨(path, .file bytes), List.mem_filter.2 ⟨Entries.mem_of_get?_eq_some h, rfl⟩, rfl⟩

/-- Following pieces without a step back leads to the place that their names name. -/
theorem nodeAt_of_follow (hps : ∀ p ∈ ps, p ≠ FilePath.parentName)
    (h : w.follow here ps = .ok node) :
    w.nodeAt (here ++ ps.filter (· ≠ ['.'])) = some node := by
  induction ps generalizing here with
  | nil =>
    rw [follow] at h
    split at h
    · next hnode =>
      cases h
      simpa using hnode
    · cases h
  | cons p ps ih =>
    have hrest : ∀ q ∈ ps, q ≠ FilePath.parentName := fun q hq => hps q (by simp [hq])
    rw [follow] at h
    split at h
    · cases h
    · cases h
    · split_ifs at h with hdot hparent hlimit
      · simpa [hdot] using ih hrest h
      · exact absurd hparent (hps p (by simp))
      · simpa [hdot] using ih hrest h

theorem filter_ne_of_isIdle {p : List Char} (hns : ∀ n ∈ ns, FilePath.IsProper n)
    (hp : FilePath.isIdle p = true) : ns.filter (· ≠ p) = ns := by
  refine List.filter_eq_self.2 fun n hn => ?_
  have hidle := (hns n hn).1
  rw [decide_eq_true_eq]
  rintro rfl
  exact absurd hp (by simp [hidle])

/-- The pieces of a normalised path are its names, but for the empty ones. -/
theorem pieces_ofNames_filter (hns : ∀ n ∈ ns, FilePath.IsProper n) :
    (FilePath.pieces (FilePath.ofNames ns)).filter (· ≠ []) = ns := by
  by_cases hnil : ns = []
  · subst hnil
    rfl
  · rw [FilePath.pieces_ofNames hnil hns, List.filter_cons_of_neg (by simp), filter_ne_of_isIdle hns rfl]

/-- What a normalised path names stands at its names. -/
theorem nodeAt_of_lookup (hns : ∀ n ∈ ns, FilePath.IsProper n)
    (h : w.lookup (String.ofList (FilePath.ofNames ns)) = .ok node) : w.nodeAt ns = some node := by
  have hdot : ns.filter (· ≠ ['.']) = ns := filter_ne_of_isIdle hns rfl
  have hdots : (ns ++ [['.']]).filter (· ≠ ['.']) = ns := by
    rw [List.filter_append, hdot]
    simp
  have hparent : ∀ n ∈ ns, n ≠ FilePath.parentName := fun n hn => (hns n hn).2.1
  have habsolute : FilePath.isAbsolute (FilePath.ofNames ns) = true := by
    simp [FilePath.isAbsolute, FilePath.ofNames]
  rw [lookup] at h
  simp only [String.toList_ofList, habsolute, if_true] at h
  rw [pieces_ofNames_filter hns] at h
  split_ifs at h
  · have hparents : ∀ p ∈ ns ++ [['.']], p ≠ FilePath.parentName := by
      intro p hp
      rcases List.mem_append.1 hp with hp | hp
      · exact hparent p hp
      · rw [List.mem_singleton.1 hp]
        decide
    have hnode := nodeAt_of_follow hparents h
    rwa [hdots] at hnode
  · have hnode := nodeAt_of_follow hparent h
    rwa [hdot] at hnode

/-- **A normalised path that can be read is the path of a file.** -/
theorem mem_filePaths_of_readBytes (hpath : FilePath.normalize w.cwd path = path)
    (h : w.readBytes path = .ok bytes) : path ∈ w.filePaths := by
  have hlookup : w.lookup path = .ok (.file bytes) := by
    rw [readBytes] at h
    split at h
    · next hfile =>
      cases h
      exact hfile
    · cases h
    · cases h
  rcases FilePath.normalizeChars_eq w.cwd.toList path.toList with hempty | ⟨ns, hns, hnames⟩
  · have hnil : path = "" := by
      rw [← hpath, FilePath.normalize, hempty]
    subst hnil
    cases hlookup
  · have hpath' : path = String.ofList (FilePath.ofNames ns) := by
      rw [← hnames]
      exact hpath.symm
    rw [hpath'] at hlookup
    have hnode := nodeAt_of_lookup hns hlookup
    rw [nodeAt, ← hpath'] at hnode
    split_ifs at hnode
    · cases hnode
    · exact mem_filePaths_of_get? hnode

theorem mem_filePaths_of_readText {text : String} (hpath : FilePath.normalize w.cwd path = path)
    (h : w.readText path = .ok text) : path ∈ w.filePaths := by
  rw [readText] at h
  split at h
  · next bytes hbytes => exact mem_filePaths_of_readBytes hpath hbytes
  · cases h

end World

end ConfigTree
