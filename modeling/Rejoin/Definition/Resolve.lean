import Rejoin.Definition.Basic
import Rejoin.Definition.Defect

/-!
# Resolving a definition

Resolution checks a definition and replaces aliases by positions and literal
identities by literals.  Of several defects the first one counts: repeated
names, then modes, then the sources in order with their schema before their
conditions, then the output columns, then the key.
-/

namespace Rejoin

/-- The first text of a list that already stands before it, or in `seen`. -/
def firstRepeated? (seen : List String) : List String → Option String
  | [] => none
  | name :: rest => if name ∈ seen then some name else firstRepeated? (name :: seen) rest

theorem firstRepeated?_eq_none_iff (seen names : List String) :
    firstRepeated? seen names = none ↔ names.Nodup ∧ ∀ name ∈ names, name ∉ seen := by
  induction names generalizing seen with
  | nil => simp [firstRepeated?]
  | cons name rest ih =>
      by_cases known : name ∈ seen
      · simp [firstRepeated?, known]
      · simp only [firstRepeated?, known, if_false, ih, List.nodup_cons, List.mem_cons]
        constructor
        · rintro ⟨distinct, fresh⟩
          refine ⟨⟨fun again => (fresh name again) (Or.inl rfl), distinct⟩, ?_⟩
          rintro other (rfl | among)
          · exact known
          · exact fun held => fresh other among (Or.inr held)
        · rintro ⟨⟨apart, distinct⟩, fresh⟩
          refine ⟨distinct, fun other among => ?_⟩
          rintro (rfl | held)
          · exact apart among
          · exact fresh other (Or.inr among) held

/-- What is wrong with the key of a schema. -/
def Schema.defect? (schema : Schema) : Option Defect :=
  if schema.primaryKey.isEmpty then some (.emptyPrimaryKey schema.name)
  else
    (schema.primaryKey.find? (fun key => !schema.hasColumn key)).map
      (.missingKeyColumn schema.name)

/-- Succeeds exactly when there is no defect. -/
def Defect.refuse : Option Defect → Except Defect Unit
  | some defect => .error defect
  | none => .ok ()

namespace Definition

/-- The first name that two sources or two literals share. -/
def nameDefect? (definition : Definition) : Option Defect :=
  ((firstRepeated? [] (definition.sources.map Source.name)).map .duplicateAlias).or
    ((firstRepeated? [] (definition.literals.map Literal.id)).map .duplicateLiteral)

/-- The first source must be the only MAIN one. -/
def modeDefect? (definition : Definition) : Option Defect :=
  match definition.sources with
  | [] => some (.noSources definition.name)
  | first :: others =>
      if first.mode = .main then
        (others.find? (fun source => source.mode = .main)).map (fun extra => .extraMain extra.name)
      else some (.mainNotFirst first.name)

/-- The first key name that no output column has. -/
def keyDefect? (definition : Definition) : Option Defect :=
  (((definition.key.getD []).find?
    (fun name => !(definition.columns.map OutputColumn.name).contains name))).map .unknownKeyColumn

/-- The source of an alias with its position. -/
def locate? (definition : Definition) (name : String) : Option (Source × Nat) :=
  definition.sources.zipIdx.find? (fun placed => placed.1.name == name)

/-- A column by the position of its source. -/
def resolveRef (definition : Definition) (ref : ColumnRef String) :
    Except Defect (ColumnRef Nat) :=
  match definition.locate? ref.source with
  | none => .error (.unknownAlias ref.source)
  | some (source, index) =>
      if source.schema.hasColumn ref.column then .ok ⟨index, ref.column⟩
      else .error (.unknownColumn ref.source ref.column)

/-- The literal of an identity. -/
def resolveLiteral (definition : Definition) (id : String) : Except Defect Literal :=
  match definition.literals.find? (fun literal => literal.id == id) with
  | none => .error (.undeclaredLiteral id)
  | some literal => .ok literal

/-- One side of a condition on the source `owner`, which may not look ahead of it. -/
def resolveOperand (definition : Definition) (owner : Source) (index : Nat) :
    Operand String String → Except Defect (Operand Nat Literal)
  | .reference ref => do
      let resolved ← definition.resolveRef ref
      if index < resolved.source then .error (.forwardReference owner.name ref.source)
      else .ok (.reference resolved)
  | .literal id => (definition.resolveLiteral id).map .literal

def resolveCondition (definition : Definition) (owner : Source) (index : Nat)
    (condition : Condition String String) :
    Except Defect (Condition Nat Literal) := do
  let left ← definition.resolveOperand owner index condition.left
  let right ← definition.resolveOperand owner index condition.right
  return ⟨left, right⟩

def resolveSource (definition : Definition) (source : Source) (index : Nat) :
    Except Defect View.Source := do
  Defect.refuse source.schema.defect?
  let conditions ← source.conditions.mapM (definition.resolveCondition source index)
  return {
    index := index
    table := source.table
    name := source.name
    mode := source.mode
    schema := source.schema
    conditions := conditions }

def resolveOrigin (definition : Definition) :
    Origin String String → Except Defect (Origin Nat Literal)
  | .reference ref => (definition.resolveRef ref).map .reference
  | .computation expression none => .ok (.computation expression none)
  | .computation expression (some id) =>
      (definition.resolveLiteral id).map (fun literal => .computation expression (some literal))

def resolveColumn (definition : Definition) (column : OutputColumn String String) :
    Except Defect (OutputColumn Nat Literal) :=
  (definition.resolveOrigin column.origin).map (fun origin => ⟨column.name, origin⟩)

/-- The view that a definition describes, or its first defect. -/
def resolve (definition : Definition) : Except Defect View := do
  Defect.refuse definition.nameDefect?
  Defect.refuse definition.modeDefect?
  let sources ← definition.sources.zipIdx.mapM
    (fun placed => definition.resolveSource placed.1 placed.2)
  let columns ← definition.columns.mapM definition.resolveColumn
  Defect.refuse definition.keyDefect?
  return {
    name := definition.name
    sources := sources
    columns := columns
    filter := definition.filter
    literals := definition.literals
    keyOverride := definition.key }

end Definition

end Rejoin
