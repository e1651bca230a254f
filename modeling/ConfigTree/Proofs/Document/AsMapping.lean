import ConfigTree.Proofs.Document.Straight

/-!
# A document is a mapping

A document is the mapping at the top of a tree, and what is done at a path of a document could be done at the same
path of that mapping. It is programmed a second time, though. The first step is made in the document itself, where
an index stands for the key with its decimal text: it looks for the key and makes what is missing. Then the other
steps are made in the value below, and what went wrong there is told with the whole path. Is it the same?

It is, when the first segment is written as the key that it stands for: the same is read, the same is taken out, and
the same tree is left by a writing, also by one that is stopped on its way (`Document.operations_eq_mapping`).
-/

namespace ConfigTree

/-- The segment that names an entry at the top of a document: a key, or the key with the decimal text of an
index. -/
def Segment.atTop (s : Segment) : Segment := .key s.documentKey

/-- What went wrong is told with the text of the path that was asked with. -/
theorem Written.outcome_eq_error_iff {α : Type} {x : Written α} {p : Path} {e : PathError} :
    x.outcome p = .error e ↔ x.fault = some e.fault ∧ e.path = p.render := by
  obtain ⟨path, fault⟩ := e
  rw [outcome]
  cases x.fault <;> simp [and_comm, eq_comm]

theorem Written.outcome_eq_ok_iff {α : Type} {x : Written α} {p : Path} :
    x.outcome p = .ok () ↔ x.fault = none := by
  rw [outcome]
  cases x.fault <;> simp

namespace Document

variable (d : Document) (s t : Segment) (rest : Path) (value : Value)

theorem get?_mapping : (Value.mapping d).get? (s :: rest) = d.get? (s :: rest) :=
  Value.get?_cons_mapping d s rest

theorem remove_mapping :
    (Value.mapping d).remove (s.atTop :: rest) =
      ⟨.mapping (d.remove (s :: rest)).tree, (d.remove (s :: rest)).value⟩ := by
  cases rest with
  | nil => rfl
  | cons t rest =>
    cases hget : Entries.get? d s.documentKey with
    | some item =>
      rw [remove_cons hget (List.cons_ne_nil t rest), Segment.atTop,
        Value.remove_entry hget (List.cons_ne_nil t rest)]
    | none => simp only [Segment.atTop, Value.remove, Document.remove, hget]

/-- The value below the top that a writing goes on in, made where it is missing. -/
def below (d : Document) (s : Segment) : Value := (Entries.get? d s.documentKey).getD (.mapping [])

theorem set_below :
    d.set (s :: t :: rest) value =
      ⟨Entries.insert d s.documentKey ((d.below s).set (t :: rest) value).tree,
        ((d.below s).set (t :: rest) value).fault⟩ := rfl

theorem set_mapping :
    (Value.mapping d).set (s.atTop :: rest) value =
      ⟨.mapping (d.set (s :: rest) value).tree, (d.set (s :: rest) value).fault⟩ := by
  rw [Segment.atTop, Value.set_entry]
  cases rest <;> rfl

/-- **The operations on a document are those on the mapping that it is**, with the first segment written as a key.
At every path that has a segment the same is read, also as the path is written. The same is taken out, and the same
is left. A writing ends in the same way and leaves the same tree, whether it was stopped or not. Where it was
stopped, the wording of what is wrong is the same, and it is told with the path that was asked with, even where it
was found below the top; so where the first segment is a key, the whole error is the same. -/
theorem operations_eq_mapping :
    (d.get? (s :: rest) = (Value.mapping d).get? (s :: rest) ∧
      d.get? (s :: rest) = (Value.mapping d).get? (s.atTop :: rest)) ∧
    ((d.remove (s :: rest)).value = ((Value.mapping d).remove (s.atTop :: rest)).value ∧
      .mapping (d.remove (s :: rest)).tree = ((Value.mapping d).remove (s.atTop :: rest)).tree) ∧
    (((d.set (s :: rest) value).outcome (s :: rest) = .ok () ↔
        ((Value.mapping d).set (s.atTop :: rest) value).outcome (s.atTop :: rest) = .ok ()) ∧
      .mapping (d.set (s :: rest) value).tree = ((Value.mapping d).set (s.atTop :: rest) value).tree) ∧
    ∀ e, (d.set (s :: rest) value).outcome (s :: rest) = .error e →
      ∃ e', ((Value.mapping d).set (s.atTop :: rest) value).outcome (s.atTop :: rest) = .error e' ∧
        e'.fault.message = e.fault.message ∧ (∀ name, s = .key name → e' = e) ∧
        e.path = Path.render (s :: rest) ∧
        ∀ t tail, rest = t :: tail →
          ((d.below s).set rest value).outcome rest = .error ⟨Path.render rest, e.fault⟩ := by
  have hset := set_mapping d s rest value
  refine ⟨⟨(get?_mapping d s rest).symm, (get?_mapping d s.atTop rest).symm⟩, ?_, ⟨?_, by rw [hset]⟩,
    fun e he => ?_⟩
  · rw [remove_mapping]
    exact ⟨rfl, rfl⟩
  · rw [Written.outcome_eq_ok_iff, Written.outcome_eq_ok_iff, hset]
  · obtain ⟨hfault, hpath⟩ := Written.outcome_eq_error_iff.1 he
    have hfault' : ((Value.mapping d).set (s.atTop :: rest) value).fault = some e.fault := by rw [hset, hfault]
    refine ⟨⟨Path.render (s.atTop :: rest), e.fault⟩, Written.outcome_eq_error_iff.2 ⟨hfault', rfl⟩, rfl,
      fun name hname => ?_, hpath, fun t tail hrest => ?_⟩
    · subst hname
      exact congrArg (PathError.mk · e.fault) hpath.symm
    · subst hrest
      rw [set_below] at hfault
      exact Written.outcome_eq_error_iff.2 ⟨hfault, rfl⟩

end Document

end ConfigTree
