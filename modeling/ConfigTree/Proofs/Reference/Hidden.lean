import ConfigTree.Reference.Resolver

/-!
# A hidden entry

A resolver that a caller brings may know nothing of finalized entries. It is shown the document without
the entry, and afterwards the entry is put back among what the resolver left. Is the entry then what it was,
whatever the resolver did?

It is, unless the resolver writes an entry of the same key. Nothing tells it that the key is taken. What it
writes there counts among the entries that it added, and those are inserted when all others have returned:
it takes the place of the value that was kept (`not_resolveHiding_keeps`). So under the key stands what the
resolver wrote there, and the value that was kept where it wrote nothing (`resolveHiding_keeps_iff`), no
matter what else the resolver did and whether it failed.
-/

namespace ConfigTree.Resolver

variable {resolve : Document → Option String → Resolution} {d rest done : Document} {key : String}
  {kept : Value}

theorem restore_self (keys : List String) :
    restore key kept (key :: keys) done rest =
      restore key kept keys (Entries.insert done key kept) rest := by
  rw [restore, if_pos rfl]

theorem restore_of_get?_eq_some {other : String} {v : Value} (hother : other ≠ key)
    (hv : Entries.get? rest other = some v) (keys : List String) :
    restore key kept (other :: keys) done rest =
      restore key kept keys (Entries.insert done other v) (Entries.swapErase rest other) := by
  rw [restore, if_neg hother, hv]

theorem restore_of_get?_eq_none {other : String} (hother : other ≠ key)
    (hnone : Entries.get? rest other = none) (keys : List String) :
    restore key kept (other :: keys) done rest = restore key kept keys done rest := by
  rw [restore, if_neg hother, hnone]

/-- Under the key of the finalized entry stands in the end what is left there of the resolver's document.
Where nothing is left, it is the value that was kept, once the key has returned. -/
theorem get?_restore (hrest : Entries.Distinct rest) (keys : List String) :
    Entries.get? (restore key kept keys done rest) key =
      (Entries.get? rest key).or (if key ∈ keys then some kept else Entries.get? done key) := by
  induction keys generalizing done rest with
  | nil => exact hrest.get?_insertAll key
  | cons other keys ih =>
    by_cases hother : other = key
    · subst hother
      rw [restore_self, ih hrest, Entries.get?_insert_self, if_pos List.mem_cons_self, ite_self]
    · have hmem : key ∈ other :: keys ↔ key ∈ keys := by
        simp [Ne.symm hother]
      simp only [hmem]
      cases hv : Entries.get? rest other with
      | none => rw [restore_of_get?_eq_none hother hv, ih hrest]
      | some v =>
        -- the resolver's entry moves to the entries that have returned, and the others stay readable
        rw [restore_of_get?_eq_some hother hv, ih (hrest.swapErase other),
          Entries.get?_swapErase_of_ne hrest hother, Entries.get?_insert_of_ne done v hother]

theorem resolveHiding_eq (hkept : Entries.get? d key = some kept) :
    resolveHiding resolve d key =
      ⟨restore key kept (Entries.keys d) [] (resolve (hide d key) none).document,
        (resolve (hide d key) none).failure⟩ := by
  rw [resolveHiding, hkept]

/-- **A hidden entry comes back as it was, unless the resolver writes one of the same key.** The resolver
is shown a document without the key. Whether it fails or not, what it has written under the key in the end
stands there, and the value that was kept stands there if it has written nothing. So the entry is what it
was exactly when the resolver has written nothing else there. -/
theorem resolveHiding_keeps_iff
    (hresolve : ∀ e, Entries.Distinct e → Entries.Distinct (resolve e none).document)
    (hd : Entries.Distinct d) (hkept : Entries.get? d key = some kept) :
    Entries.get? (hide d key) key = none ∧
      (resolveHiding resolve d key).failure = (resolve (hide d key) none).failure ∧
      Entries.get? (resolveHiding resolve d key).document key =
        some ((Entries.get? (resolve (hide d key) none).document key).getD kept) ∧
      (Entries.get? (resolveHiding resolve d key).document key = some kept ↔
        ∀ v, Entries.get? (resolve (hide d key) none).document key = some v → v = kept) := by
  have hmem : key ∈ Entries.keys d := by
    rw [← Entries.isSome_get?_iff, hkept]
    rfl
  have hrest : Entries.Distinct (resolve (hide d key) none).document :=
    hresolve _ (hd.swapErase key)
  have hget : Entries.get? (resolveHiding resolve d key).document key =
      some ((Entries.get? (resolve (hide d key) none).document key).getD kept) := by
    rw [resolveHiding_eq hkept, get?_restore hrest, if_pos hmem, Option.or_some]
  refine ⟨Entries.get?_swapErase_self hd key, by rw [resolveHiding_eq hkept], hget, ?_⟩
  rw [hget]
  cases Entries.get? (resolve (hide d key) none).document key with
  | none => simp
  | some v => simp

/-- A resolver that throws away all that it is shown, writes entries of its own, and fails. -/
def clearing (_ : Document) (_ : Option String) : Resolution :=
  ⟨[("last", .null), ("new", .bool true)], some (.notFound "${x}")⟩

/-- A document with a list of imports among other entries. -/
def listed : Document :=
  [("first", .null), ("imports", .sequence [.string "/a.json"]), ("last", .string "${x}")]

theorem resolveHiding_clearing :
    (∀ e, Entries.Distinct e → Entries.Distinct (clearing e none).document) ∧
      Entries.Distinct listed ∧
      Entries.get? listed "imports" = some (.sequence [.string "/a.json"]) ∧
      Entries.get? (hide listed "imports") "imports" = none ∧
      Entries.get? (resolveHiding clearing listed "imports").document "imports" =
        some (.sequence [.string "/a.json"]) ∧
      resolveHiding clearing listed "imports" =
        ⟨[("imports", .sequence [.string "/a.json"]), ("last", .null), ("new", .bool true)],
          some (.notFound "${x}")⟩ := by
  have hresolve : ∀ e, Entries.Distinct e → Entries.Distinct (clearing e none).document := by
    intro e _
    rw [clearing]
    decide
  have hlisted : Entries.Distinct listed := by decide
  have hkept : Entries.get? listed "imports" = some (.sequence [.string "/a.json"]) := rfl
  obtain ⟨hhidden, -, -, hiff⟩ := resolveHiding_keeps_iff hresolve hlisted hkept
  exact ⟨hresolve, hlisted, hkept, hhidden, hiff.2 (by rintro v ⟨⟩), by decide +kernel⟩

/-- A resolver that writes an entry of a key that was hidden from it. -/
def intruding (d : Document) (_ : Option String) : Resolution :=
  ⟨Entries.insert d "imports" .null, none⟩

/-- **Hiding an entry does not protect it from any resolver.** -/
theorem not_resolveHiding_keeps :
    ¬ ∀ (resolve : Document → Option String → Resolution) (d : Document) (key : String) (kept : Value),
      (∀ e k, Entries.Distinct e → Entries.Distinct (resolve e k).document) → Entries.Distinct d →
      Entries.get? d key = some kept →
      Entries.get? (resolveHiding resolve d key).document key = some kept := by
  intro hclaim
  have hresolve : ∀ e k, Entries.Distinct e → Entries.Distinct (intruding e k).document :=
    fun e _ he => he.insert "imports" .null
  have hkept := hclaim intruding listed "imports" _ hresolve (by decide) rfl
  have hnull : Entries.get? (resolveHiding intruding listed "imports").document "imports" =
      some .null := by decide +kernel
  cases hnull.symm.trans hkept

end ConfigTree.Resolver
