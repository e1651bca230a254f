import ConfigTree.Loader.Error
import ConfigTree.Value

/-!
# Runs of a loader

A load does not only end with a document or a failure. On its way it visits files, hands paths to
loaders and asks a resolver to replace references. A run holds both: how it ended, and what happened
on the way, in order.
-/

namespace ConfigTree

/-- Something that happens during a load. -/
inductive LoadEvent where
  /-- A file is visited; `chain` leads from the first file to the one that imports it. -/
  | visit (chain : List String) (path : String)
  /-- A path is handed to the loader registered for an extension. -/
  | handed (extension : String) (path : String)
  /-- The resolver is asked to replace the references of a document, or those under one of its keys. -/
  | resolve (key : Option String) (document : Document)
  /-- The resolver is asked to replace the references of a document but for a finalized entry. -/
  | resolveExcept (finalized : String) (document : Document)
  /-- Imports are nested deeper than was allowed for, and the load is given up. -/
  | tooDeep (path : String)

/-- Whether an event gives a load up for its depth. -/
def LoadEvent.isTooDeep : LoadEvent → Bool
  | tooDeep _ => true
  | _ => false

/-- How a computation ended, and what happened on the way. -/
structure Run (α : Type) where
  /-- The result or the failure. -/
  outcome : Except LoaderError α
  /-- What happened, in order. -/
  events : List LoadEvent

namespace Run

/-- The run that ends at once with a result. -/
def done {α : Type} (a : α) : Run α := ⟨.ok a, []⟩

/-- The run that fails at once. -/
def fail {α : Type} (e : LoaderError) : Run α := ⟨.error e, []⟩

/-- The run that only notes an event. -/
def note (event : LoadEvent) : Run Unit := ⟨.ok (), [event]⟩

/-- The run that ends at once as told. -/
def ofExcept {α : Type} (outcome : Except LoaderError α) : Run α := ⟨outcome, []⟩

/-- Whether a load was given up for its depth, so that its outcome means nothing. -/
def isCut {α : Type} (r : Run α) : Bool := r.events.any LoadEvent.isTooDeep

/-- One run after another. -/
def andThen {α β : Type} (r : Run α) (f : α → Run β) : Run β :=
  match r.outcome with
  | .ok a => ⟨(f a).outcome, r.events ++ (f a).events⟩
  | .error e => ⟨.error e, r.events⟩

instance : Monad Run where
  pure := done
  bind := andThen

@[simp] theorem outcome_pure {α : Type} (a : α) : (pure a : Run α).outcome = .ok a := rfl

theorem outcome_bind_eq_ok_iff {α β : Type} (r : Run α) (f : α → Run β) (b : β) :
    (r >>= f).outcome = .ok b ↔ ∃ a, r.outcome = .ok a ∧ (f a).outcome = .ok b := by
  rcases r with ⟨outcome, events⟩
  cases outcome <;> simp [bind, andThen]

theorem outcome_bind_eq_error_iff {α β : Type} (r : Run α) (f : α → Run β) (e : LoaderError) :
    (r >>= f).outcome = .error e ↔
      r.outcome = .error e ∨ ∃ a, r.outcome = .ok a ∧ (f a).outcome = .error e := by
  rcases r with ⟨outcome, events⟩
  cases outcome <;> simp [bind, andThen]

theorem mem_events_bind_iff {α β : Type} (r : Run α) (f : α → Run β) (event : LoadEvent) :
    event ∈ (r >>= f).events ↔
      event ∈ r.events ∨ ∃ a, r.outcome = .ok a ∧ event ∈ (f a).events := by
  rcases r with ⟨outcome, events⟩
  cases outcome <;> simp [bind, andThen]

/-- Doing things one after another does not depend on how they are grouped. -/
theorem andThen_assoc {α β γ : Type} (r : Run α) (f : α → Run β) (g : β → Run γ) :
    (r.andThen f).andThen g = r.andThen fun a => (f a).andThen g := by
  rcases r with ⟨outcome, events⟩
  cases outcome with
  | error e => rfl
  | ok a =>
    simp only [andThen]
    cases (f a).outcome <;> simp

theorem andThen_done {α : Type} (r : Run α) : r.andThen done = r := by
  rcases r with ⟨outcome, events⟩
  cases outcome <;> simp [andThen, done]

instance : LawfulMonad Run :=
  LawfulMonad.mk' Run andThen_done (fun _ _ => by simp [bind, pure, andThen, done]) andThen_assoc

@[simp] theorem outcome_fail {α : Type} (e : LoaderError) :
    (fail e : Run α).outcome = .error e := rfl

@[simp] theorem outcome_note (event : LoadEvent) : (note event).outcome = .ok () := rfl

@[simp] theorem outcome_ofExcept {α : Type} (x : Except LoaderError α) :
    (ofExcept x).outcome = x := rfl

@[simp] theorem events_pure {α : Type} (a : α) : (pure a : Run α).events = [] := rfl

@[simp] theorem events_fail {α : Type} (e : LoaderError) : (fail e : Run α).events = [] := rfl

@[simp] theorem events_note (event : LoadEvent) : (note event).events = [event] := rfl

@[simp] theorem events_ofExcept {α : Type} (x : Except LoaderError α) :
    (ofExcept x).events = [] := rfl

@[simp] theorem isCut_pure {α : Type} (a : α) : (pure a : Run α).isCut = false := rfl

@[simp] theorem isCut_fail {α : Type} (e : LoaderError) : (fail e : Run α).isCut = false := rfl

@[simp] theorem isCut_ofExcept {α : Type} (x : Except LoaderError α) :
    (ofExcept x).isCut = false := rfl

@[simp] theorem isCut_note (event : LoadEvent) : (note event).isCut = event.isTooDeep := by
  simp [note, isCut]

/-- A run that goes on is cut where its first part is cut, or where what follows is. -/
theorem isCut_bind_eq_false_iff {α β : Type} (r : Run α) (f : α → Run β) :
    (r >>= f).isCut = false ↔ r.isCut = false ∧ ∀ a, r.outcome = .ok a → (f a).isCut = false := by
  rcases r with ⟨outcome, events⟩
  cases outcome <;> simp [bind, andThen, isCut]

end Run

end ConfigTree
