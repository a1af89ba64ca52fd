/-!
# Conditions between sources

A condition equates two operands, each a column of some source or a literal.
The same shape is used twice: in a definition a source is named by its alias
and a literal by its identity, in a view a source is named by its position and
a literal carries its value.  So the types are generic in how a source (`σ`)
and how a literal (`ℓ`) is named, and resolving a definition is a traversal.
-/

namespace Rejoin

/-- The text of the position of a source in messages; the MAIN source is at position 0. -/
def positionLabel (index : Nat) : String :=
  "#" ++ index.repr

/-- A named constant of a view. -/
structure Literal where
  id : String
  value : String
  deriving DecidableEq, Repr

/-- A column of one source. -/
structure ColumnRef (σ : Type) where
  source : σ
  column : String
  deriving DecidableEq, Repr

/-- One side of a condition. -/
inductive Operand (σ ℓ : Type) where
  | reference (column : ColumnRef σ)
  | literal (value : ℓ)
  deriving DecidableEq, Repr

/-- An equality between two operands. -/
structure Condition (σ ℓ : Type) where
  left : Operand σ ℓ
  right : Operand σ ℓ
  deriving DecidableEq, Repr

variable {σ τ ℓ : Type}

namespace ColumnRef

/-- The same column with its source renamed. -/
def mapSource (rename : σ → τ) (ref : ColumnRef σ) : ColumnRef τ :=
  ⟨rename ref.source, ref.column⟩

end ColumnRef

namespace Operand

def reference? : Operand σ ℓ → Option (ColumnRef σ)
  | reference column => some column
  | literal _ => none

def literal? : Operand σ ℓ → Option ℓ
  | reference _ => none
  | literal value => some value

def mapSource (rename : σ → τ) : Operand σ ℓ → Operand τ ℓ
  | reference column => reference (column.mapSource rename)
  | literal value => literal value

@[simp] theorem reference?_mapSource (rename : σ → τ) (operand : Operand σ ℓ) :
    (operand.mapSource rename).reference? =
      operand.reference?.map (ColumnRef.mapSource rename) := by
  cases operand <;> rfl

@[simp] theorem literal?_mapSource (rename : σ → τ) (operand : Operand σ ℓ) :
    (operand.mapSource rename).literal? = operand.literal? := by
  cases operand <;> rfl

end Operand

namespace Condition

/-- The operands, left before right. -/
def operands (condition : Condition σ ℓ) : List (Operand σ ℓ) :=
  [condition.left, condition.right]

/-- The columns compared, left before right. -/
def references (condition : Condition σ ℓ) : List (ColumnRef σ) :=
  condition.operands.filterMap Operand.reference?

/-- The literals compared, left before right. -/
def literals (condition : Condition σ ℓ) : List ℓ :=
  condition.operands.filterMap Operand.literal?

/-- The two columns of a condition that relates two different sources. -/
def join? [DecidableEq σ] : Condition σ ℓ → Option (ColumnRef σ × ColumnRef σ)
  | ⟨.reference left, .reference right⟩ =>
      if left.source = right.source then none else some (left, right)
  | _ => none

/-- Whether the condition relates two different sources. -/
def isJoin [DecidableEq σ] (condition : Condition σ ℓ) : Bool :=
  condition.join?.isSome

/-- The same condition with every source renamed. -/
def mapSource (rename : σ → τ) (condition : Condition σ ℓ) : Condition τ ℓ :=
  ⟨condition.left.mapSource rename, condition.right.mapSource rename⟩

@[simp] theorem references_mapSource (rename : σ → τ) (condition : Condition σ ℓ) :
    (condition.mapSource rename).references =
      condition.references.map (ColumnRef.mapSource rename) := by
  rcases condition with ⟨_ | _, _ | _⟩ <;> rfl

@[simp] theorem literals_mapSource (rename : σ → τ) (condition : Condition σ ℓ) :
    (condition.mapSource rename).literals = condition.literals := by
  rcases condition with ⟨_ | _, _ | _⟩ <;> rfl

theorem join?_eq_some_iff [DecidableEq σ] {condition : Condition σ ℓ}
    {left right : ColumnRef σ} :
    condition.join? = some (left, right) ↔
      condition = ⟨.reference left, .reference right⟩ ∧ left.source ≠ right.source := by
  rcases condition with ⟨_ | _, _ | _⟩ <;> simp [join?]
  grind

end Condition

end Rejoin
