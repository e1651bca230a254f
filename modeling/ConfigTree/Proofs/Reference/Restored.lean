import ConfigTree.Proofs.Reference.Hidden

/-!
# The order in which entries return

To hide an entry, the last entry is moved into its place, and to put the entries back, each is taken out of
what the resolver left in the same way. So the entries are shuffled again at every step. Do they come back
in their first order, and does any get lost?

They do, and none does (`resolveHiding_order`). The shuffling goes on among the entries that are still to
be put back, and these are looked for by their keys. What has returned, what is to come and what is left
over are told apart by the keys alone, and this is what each step keeps (`Returning`).
-/

namespace ConfigTree.Resolver

variable {resolve : Document → Option String → Resolution} {d rest done : Document}
  {key other : String} {kept v : Value} {order : List String}

/-- How far the putting back has come: the keys of `order` are still to come, in this order. -/
structure Returning (key : String) (order : List String) (done rest : Document) : Prop where
  /-- Each key is to come once. -/
  once : order.Nodup
  /-- No key has returned that is still to come. -/
  ahead : ∀ k ∈ order, k ∉ Entries.keys done
  /-- What the resolver left has each key once. -/
  distinct : Entries.Distinct rest
  /-- Of the entries that have returned, nothing is left but what the resolver wrote under the hidden key. -/
  taken : ∀ k ∈ Entries.keys done, k ∈ Entries.keys rest → k = key
  /-- The hidden key has returned or is to come. -/
  returns : key ∈ order ∨ key ∈ Entries.keys done

namespace Returning

/-- In the beginning nothing has returned. -/
theorem start (hd : Entries.Distinct d) (hkey : key ∈ Entries.keys d) (hrest : Entries.Distinct rest) :
    Returning key (Entries.keys d) [] rest where
  once := hd
  ahead _ _ := List.not_mem_nil
  distinct := hrest
  taken _ h := absurd h List.not_mem_nil
  returns := .inl hkey

/-- The first key that is to come is put last. -/
theorem keys_insert (h : Returning key (other :: order) done rest) (v : Value) :
    Entries.keys (Entries.insert done other v) = Entries.keys done ++ [other] :=
  Entries.keys_insert_of_not_mem v (h.ahead other List.mem_cons_self)

theorem ahead_insert (h : Returning key (other :: order) done rest) (v : Value) :
    ∀ k ∈ order, k ∉ Entries.keys (Entries.insert done other v) := by
  intro k hk hmem
  rw [h.keys_insert, List.mem_append, List.mem_singleton] at hmem
  rcases hmem with hmem | rfl
  · exact h.ahead k (List.mem_cons_of_mem _ hk) hmem
  · exact (List.nodup_cons.1 h.once).1 hk

/-- The hidden entry returns. -/
theorem self (h : Returning key (key :: order) done rest) (v : Value) :
    Returning key order (Entries.insert done key v) rest where
  once := h.once.of_cons
  ahead := h.ahead_insert v
  distinct := h.distinct
  taken k hk hrest := by
    rw [h.keys_insert, List.mem_append, List.mem_singleton] at hk
    exact hk.elim (fun hk => h.taken k hk hrest) id
  returns := by
    rw [h.keys_insert]
    exact .inr List.mem_concat_self

/-- Another entry returns and is taken out of what is left. -/
theorem found (h : Returning key (other :: order) done rest) (hother : other ≠ key) (v : Value) :
    Returning key order (Entries.insert done other v) (Entries.swapErase rest other) where
  once := h.once.of_cons
  ahead := h.ahead_insert v
  distinct := h.distinct.swapErase other
  taken k hk hrest := by
    obtain ⟨hne, hrest⟩ := h.distinct.mem_keys_swapErase_iff.1 hrest
    rw [h.keys_insert, List.mem_append, List.mem_singleton] at hk
    exact h.taken k (hk.resolve_right hne) hrest
  returns := by
    rw [h.keys_insert, List.mem_append]
    exact h.returns.imp (fun hkey => (List.mem_cons.1 hkey).resolve_left (Ne.symm hother)) .inl

/-- An entry that is gone does not return. -/
theorem missing (h : Returning key (other :: order) done rest) (hother : other ≠ key) :
    Returning key order done rest where
  once := h.once.of_cons
  ahead k hk := h.ahead k (List.mem_cons_of_mem _ hk)
  distinct := h.distinct
  taken := h.taken
  returns := h.returns.imp (fun hkey => (List.mem_cons.1 hkey).resolve_left (Ne.symm hother)) id

end Returning

/-- The keys that are to come return in their order, and the keys that the resolver added follow. -/
theorem keys_restore (kept : Value) (h : Returning key order done rest) :
    ∃ added, Entries.keys (restore key kept order done rest) =
        Entries.keys done ++ (order.filter (fun k => k = key ∨ k ∈ Entries.keys rest) ++ added) ∧
      added.Perm ((Entries.keys rest).filter fun k => k ≠ key ∧ k ∉ order) := by
  induction order generalizing done rest with
  | nil =>
    refine ⟨_, Entries.keys_insertAll done h.distinct, ?_⟩
    refine .of_eq (List.filter_congr fun k hk => ?_)
    have hdone : k ∈ Entries.keys done ↔ k = key :=
      ⟨fun hmem => h.taken k hmem hk, fun heq => heq ▸ h.returns.resolve_left List.not_mem_nil⟩
    simp [hdone]
  | cons other order ih =>
    obtain ⟨hnew, -⟩ := List.nodup_cons.1 h.once
    by_cases hother : other = key
    · subst hother
      obtain ⟨added, hkeys, hadded⟩ := ih (h.self kept)
      refine ⟨added, ?_, hadded.trans (.of_eq (List.filter_congr fun k _ => ?_))⟩
      · rw [restore_self, hkeys, h.keys_insert]
        simp
      · by_cases hk : k = other <;> simp [hk]
    · cases hv : Entries.get? rest other with
      | none =>
        have hgone : other ∉ Entries.keys rest := by
          rw [← Entries.isSome_get?_iff, hv]
          simp
        obtain ⟨added, hkeys, hadded⟩ := ih (h.missing hother)
        refine ⟨added, ?_, hadded.trans (.of_eq (List.filter_congr fun k hk => ?_))⟩
        · rw [restore_of_get?_eq_none hother hv, hkeys]
          simp [hother, hgone]
        · have hk : k ≠ other := fun heq => hgone (heq ▸ hk)
          simp [hk]
      | some v =>
        have hmem : other ∈ Entries.keys rest := by
          rw [← Entries.isSome_get?_iff, hv]
          rfl
        obtain ⟨added, hkeys, hadded⟩ := ih (h.found hother v)
        refine ⟨added, ?_, hadded.trans ?_⟩
        · have horder : order.filter (fun k => k = key ∨ k ∈ Entries.keys (Entries.swapErase rest other)) =
              order.filter fun k => k = key ∨ k ∈ Entries.keys rest := by
            refine List.filter_congr fun k hk => ?_
            have hne : k ≠ other := fun heq => hnew (heq ▸ hk)
            simp [h.distinct.mem_keys_swapErase_iff, hne]
          rw [restore_of_get?_eq_some hother hv, hkeys, h.keys_insert, horder]
          simp [hmem]
        · refine ((Entries.keys_swapErase_perm rest other).filter _).trans (.of_eq ?_)
          rw [h.distinct.erase_eq_filter, List.filter_filter]
          refine List.filter_congr fun k _ => ?_
          by_cases hk : k = other <;> simp [hk]

/-- No key is put back twice. -/
theorem distinct_restore (hdone : Entries.Distinct done) (order : List String) :
    Entries.Distinct (restore key kept order done rest) := by
  induction order generalizing done rest with
  | nil => exact hdone.insertAll rest
  | cons other order ih =>
    rw [restore]
    split
    · exact ih (hdone.insert other kept)
    · split
      · exact ih (hdone.insert other _)
      · exact ih hdone

/-- Under every other key stands in the end what is left there of the resolver's document, and where nothing
is left, what has returned. -/
theorem get?_restore_of_ne (hrest : Entries.Distinct rest) (order : List String) (hother : other ≠ key) :
    Entries.get? (restore key kept order done rest) other =
      (Entries.get? rest other).or (Entries.get? done other) := by
  induction order generalizing done rest with
  | nil => exact hrest.get?_insertAll other
  | cons k order ih =>
    by_cases hk : k = key
    · subst hk
      rw [restore_self, ih hrest, Entries.get?_insert_of_ne done kept (Ne.symm hother)]
    · cases hv : Entries.get? rest k with
      | none => rw [restore_of_get?_eq_none hk hv, ih hrest]
      | some v =>
        rw [restore_of_get?_eq_some hk hv, ih (hrest.swapErase k)]
        by_cases hmoved : k = other
        · subst hmoved
          rw [Entries.get?_swapErase_self hrest, Entries.get?_insert_self, hv]
          rfl
        · rw [Entries.get?_swapErase_of_ne hrest hmoved, Entries.get?_insert_of_ne done v hmoved]

/-- **Entries come back in their first order, and none is lost.** An entry of the document is hidden from a
resolver, which leaves some document. Whether it fails or not, the keys are in the end first those of the
document before that are the hidden one or are still there, in their order, and then those that the resolver
added, each once. Under every key but the hidden one stands what the resolver left there. -/
theorem resolveHiding_order {left : Document} {failure : Option ReferenceError}
    (hd : Entries.Distinct d) (hkey : key ∈ Entries.keys d)
    (hrun : resolve (hide d key) none = ⟨left, failure⟩) (hleft : Entries.Distinct left) :
    ∃ after added, resolveHiding resolve d key = ⟨after, failure⟩ ∧
      Entries.keys after =
        (Entries.keys d).filter (fun k => k = key ∨ k ∈ Entries.keys left) ++ added ∧
      added.Perm ((Entries.keys left).filter (· ∉ Entries.keys d)) ∧
      Entries.Distinct after ∧
      ∀ other ≠ key, Entries.get? after other = Entries.get? left other := by
  obtain ⟨kept, hkept⟩ := Option.isSome_iff_exists.1 ((Entries.isSome_get?_iff d key).2 hkey)
  obtain ⟨added, hkeys, hadded⟩ := keys_restore kept (Returning.start hd hkey hleft)
  have hnew : (Entries.keys left).filter (fun k => k ≠ key ∧ k ∉ Entries.keys d) =
      (Entries.keys left).filter (· ∉ Entries.keys d) := by
    refine List.filter_congr fun k _ => ?_
    by_cases hk : k = key <;> simp [hk, hkey]
  have hnil : Entries.Distinct ([] : Document) := List.nodup_nil
  refine ⟨restore key kept (Entries.keys d) [] left, added, ?_, hkeys, hnew ▸ hadded,
    distinct_restore hnil _, fun other hother => ?_⟩
  · rw [resolveHiding_eq hkept, hrun]
  · rw [get?_restore_of_ne hleft _ hother, Entries.get?_nil, Option.or_none]

/-- A resolver that removes an entry, rewrites one, adds two and fails. -/
def meddling (d : Document) (_ : Option String) : Resolution :=
  ⟨("new", .bool true) ::
    Entries.insert (Entries.insert (Entries.erase d "second") "last" (.bool false)) "imports" .null,
    some (.notFound "${x}")⟩

/-- A document with entries on both sides of one that is hidden. -/
def crowded : Document :=
  [("first", .null), ("imports", .sequence []), ("second", .null), ("third", .null), ("last", .string "${x}")]

/-- What the resolver leaves of it, in the order that the hiding made. -/
def meddled : Document :=
  [("new", .bool true), ("first", .null), ("last", .bool false), ("third", .null), ("imports", .null)]

theorem resolveHiding_meddling :
    Entries.Distinct crowded ∧ "imports" ∈ Entries.keys crowded ∧
      meddling (hide crowded "imports") none = ⟨meddled, some (.notFound "${x}")⟩ ∧
      Entries.Distinct meddled ∧
      Entries.keys (resolveHiding meddling crowded "imports").document =
        ["first", "imports", "third", "last"] ++ ["new"] ∧
      ∀ other ≠ "imports", Entries.get? (resolveHiding meddling crowded "imports").document other =
        Entries.get? meddled other := by
  have hd : Entries.Distinct crowded := by decide
  have hkey : "imports" ∈ Entries.keys crowded := by decide
  have hrun : meddling (hide crowded "imports") none = ⟨meddled, some (.notFound "${x}")⟩ := by decide +kernel
  have hleft : Entries.Distinct meddled := by decide
  obtain ⟨after, added, hafter, hkeys, hadded, -, hothers⟩ := resolveHiding_order hd hkey hrun hleft
  have hnew : added = ["new"] := List.perm_singleton.1 hadded
  rw [hafter, hkeys, hnew]
  exact ⟨hd, hkey, hrun, hleft, rfl, hothers⟩

end ConfigTree.Resolver
