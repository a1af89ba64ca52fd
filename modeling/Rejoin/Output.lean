import Rejoin.Condition

/-!
# Output columns

An output column of a view either reads one column of one source or is
computed by an opaque expression, optionally bound to one declared literal.
-/

namespace Rejoin

/-- Where the value of an output column comes from. -/
inductive Origin (σ ℓ : Type) where
  | reference (column : ColumnRef σ)
  | computation (expression : String) (literal : Option ℓ)
  deriving DecidableEq, Repr

/-- A named output column. -/
structure OutputColumn (σ ℓ : Type) where
  name : String
  origin : Origin σ ℓ
  deriving DecidableEq, Repr

variable {σ ℓ : Type}

namespace Origin

def reference? : Origin σ ℓ → Option (ColumnRef σ)
  | reference column => some column
  | computation _ _ => none

/-- The literal a computed column is bound to. -/
def literal? : Origin σ ℓ → Option ℓ
  | reference _ => none
  | computation _ literal => literal

end Origin

namespace OutputColumn

def isComputed (column : OutputColumn σ ℓ) : Bool :=
  column.origin.reference?.isNone

end OutputColumn

end Rejoin
