import ConfigTree.Binary64.Shortest
import ConfigTree.Entries

/-!
# Configuration values

A configuration value is a scalar, a sequence of values or a mapping from keys to values. A
document is the mapping at the top of a file.

## The model

Mappings keep the order of their entries. A number is an integer or a finite binary64 number, and
the two are different values even when they stand for the same quantity. `Value.Wellformed` says
that no mapping, at any depth, has a key twice.
-/

namespace ConfigTree

/-- A number as it was written: an integer, or a number with a fraction or an exponent. -/
inductive Number where
  /-- An integer of at most sixty-four bits. -/
  | int (n : Int)
  /-- A binary64 number. -/
  | float (x : Binary64)
deriving DecidableEq, Repr

namespace Number

/-- Integers stay below this number. -/
def intLimit : Nat := Nat.pow 2 64

/-- The magnitude of a negative integer is at most this number. -/
def negativeLimit : Nat := Nat.pow 2 63

/-- Numbers are laid out without an exponent from `0.00001` up to, but not including, `10 ^ 16`. -/
def layout : Binary64.Layout := ⟨-5, 16, true⟩

/-- The text of a number. -/
def text : Number → String
  | .int n => toString n
  | .float x => x.render layout

end Number

/-- A configuration value. -/
inductive Value where
  /-- The absent value, written `null`. -/
  | null
  /-- A truth value. -/
  | bool (b : Bool)
  /-- A number. -/
  | number (n : Number)
  /-- A text. -/
  | string (s : String)
  /-- A sequence of values. -/
  | sequence (items : List Value)
  /-- A mapping, as its entries in order. -/
  | mapping (entries : List (String × Value))
deriving Repr

/-- A document is the mapping that a file holds. -/
abbrev Document := Entries Value

namespace Value

mutual

/-- Equality of values, entry order included. -/
def beq : Value → Value → Bool
  | .null, .null => true
  | .bool a, .bool b => a == b
  | .number a, .number b => a == b
  | .string a, .string b => a == b
  | .sequence a, .sequence b => beqItems a b
  | .mapping a, .mapping b => beqEntries a b
  | _, _ => false

/-- Equality of sequences. -/
def beqItems : List Value → List Value → Bool
  | [], [] => true
  | a :: as, b :: bs => beq a b && beqItems as bs
  | _, _ => false

/-- Equality of entries. -/
def beqEntries : List (String × Value) → List (String × Value) → Bool
  | [], [] => true
  | (k, a) :: as, (l, b) :: bs => k == l && beq a b && beqEntries as bs
  | _, _ => false

end

mutual

theorem eq_of_beq : ∀ a b : Value, beq a b = true → a = b
  | .null, b, h => by cases b <;> simp_all [beq]
  | .bool _, b, h => by cases b <;> simp_all [beq]
  | .number _, b, h => by cases b <;> simp_all [beq]
  | .string _, b, h => by cases b <;> simp_all [beq]
  | .sequence as, b, h => by
    cases b <;> simp [beq] at h
    rw [eq_of_beqItems as _ h]
  | .mapping as, b, h => by
    cases b <;> simp [beq] at h
    rw [eq_of_beqEntries as _ h]

theorem eq_of_beqItems : ∀ as bs : List Value, beqItems as bs = true → as = bs
  | [], bs, h => by cases bs <;> simp_all [beqItems]
  | a :: as, bs, h => by
    cases bs with
    | nil => simp [beqItems] at h
    | cons b bs =>
      simp only [beqItems, Bool.and_eq_true] at h
      rw [eq_of_beq a b h.1, eq_of_beqItems as bs h.2]

theorem eq_of_beqEntries : ∀ as bs : List (String × Value), beqEntries as bs = true → as = bs
  | [], bs, h => by cases bs <;> simp_all [beqEntries]
  | (k, a) :: as, bs, h => by
    cases bs with
    | nil => simp [beqEntries] at h
    | cons b bs =>
      simp only [beqEntries, Bool.and_eq_true, beq_iff_eq] at h
      obtain ⟨⟨hk, ha⟩, hs⟩ := h
      rw [hk, eq_of_beq a b.2 ha, eq_of_beqEntries as bs hs]

end

mutual

theorem beq_self : ∀ a : Value, beq a a = true
  | .null | .bool _ | .number _ | .string _ => by simp [beq]
  | .sequence as => by simp [beq, beqItems_self as]
  | .mapping as => by simp [beq, beqEntries_self as]

theorem beqItems_self : ∀ as : List Value, beqItems as as = true
  | [] => by simp [beqItems]
  | a :: as => by simp [beqItems, beq_self a, beqItems_self as]

theorem beqEntries_self : ∀ as : List (String × Value), beqEntries as as = true
  | [] => by simp [beqEntries]
  | (k, a) :: as => by simp [beqEntries, beq_self a, beqEntries_self as]

end

instance : DecidableEq Value := fun a b =>
  if h : beq a b = true then .isTrue (eq_of_beq a b h)
  else .isFalse fun he => h (he ▸ beq_self a)

mutual

/-- No mapping in the value, at any depth, has a key twice. -/
def Wellformed : Value → Prop
  | .null | .bool _ | .number _ | .string _ => True
  | .sequence items => WellformedItems items
  | .mapping entries => Entries.Distinct entries ∧ WellformedEntries entries

/-- Each value of a sequence is well formed. -/
def WellformedItems : List Value → Prop
  | [] => True
  | v :: vs => Wellformed v ∧ WellformedItems vs

/-- Each value of the entries is well formed. -/
def WellformedEntries : List (String × Value) → Prop
  | [] => True
  | (_, v) :: es => Wellformed v ∧ WellformedEntries es

end

mutual

/-- Being well formed can be decided. -/
def decideWellformed : ∀ v : Value, Decidable (Wellformed v)
  | .null | .bool _ | .number _ | .string _ => isTrue trivial
  | .sequence items => decideWellformedItems items
  | .mapping entries =>
    haveI := decideWellformedEntries entries
    inferInstanceAs (Decidable (Entries.Distinct entries ∧ WellformedEntries entries))

def decideWellformedItems : ∀ vs : List Value, Decidable (WellformedItems vs)
  | [] => isTrue trivial
  | v :: vs =>
    haveI := decideWellformed v
    haveI := decideWellformedItems vs
    inferInstanceAs (Decidable (Wellformed v ∧ WellformedItems vs))

def decideWellformedEntries : ∀ es : List (String × Value), Decidable (WellformedEntries es)
  | [] => isTrue trivial
  | (_, v) :: es =>
    haveI := decideWellformed v
    haveI := decideWellformedEntries es
    inferInstanceAs (Decidable (Wellformed v ∧ WellformedEntries es))

end

instance : DecidablePred Wellformed := decideWellformed

/-- The entries of a mapping. -/
def entries? : Value → Option Document
  | .mapping es => some es
  | _ => none

/-- Whether the value is a sequence. -/
def isSequence : Value → Bool
  | .sequence _ => true
  | _ => false

end Value

/-- A document without a repeated key, at any depth. -/
def Document.Wellformed (d : Document) : Prop := Value.Wellformed (.mapping d)

instance (d : Document) : Decidable d.Wellformed := Value.decideWellformed (.mapping d)

end ConfigTree
