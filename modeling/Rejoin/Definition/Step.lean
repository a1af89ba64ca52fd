import Rejoin.Definition.Basic

/-!
# Building a definition step by step

Each step adds one part.  A condition joins the source declared last and is
lost when there is none yet; filter and key keep what was said last.
-/

namespace Rejoin

namespace Definition

/-- One addition to a definition. -/
inductive Step where
  | source (name : String) (mode : JoinMode) (schema : Schema)
  | condition (condition : Condition String String)
  | literal (literal : Literal)
  | column (column : OutputColumn String String)
  | filter (expression : String)
  | key (columns : List String)
  deriving DecidableEq, Repr

namespace Step

def main (name : String) (schema : Schema) : Step :=
  source name .main schema

def inner (name : String) (schema : Schema) : Step :=
  source name .inner schema

def left (name : String) (schema : Schema) : Step :=
  source name .left schema

/-- The condition that two columns are equal. -/
def on (left right : ColumnRef String) : Step :=
  condition ⟨.reference left, .reference right⟩

/-- The condition that a column equals a declared literal. -/
def onLiteral (column : ColumnRef String) (id : String) : Step :=
  condition ⟨.reference column, .literal id⟩

/-- An output column read from a source. -/
def read (name : String) (column : ColumnRef String) : Step :=
  Step.column ⟨name, .reference column⟩

/-- A computed output column. -/
def computed (name expression : String) (literal : Option String) : Step :=
  Step.column ⟨name, .computation expression literal⟩

end Step

/-- A source that reads the table its schema is named for. -/
def Source.ofSchema (name : String) (mode : JoinMode) (schema : Schema) : Source :=
  ⟨name, schema.name, mode, schema, []⟩

/-- Declares a condition on the last source. -/
def conditionOnLast (condition : Condition String String) : List Source → List Source
  | [] => []
  | [last] => [{ last with conditions := last.conditions ++ [condition] }]
  | first :: second :: rest => first :: conditionOnLast condition (second :: rest)

theorem conditionOnLast_append (condition : Condition String String) (before : List Source)
    (last : Source) :
    conditionOnLast condition (before ++ [last]) =
      before ++ [{ last with conditions := last.conditions ++ [condition] }] := by
  induction before with
  | nil => rfl
  | cons first rest ih => cases rest <;> simp_all [conditionOnLast]

/-- The definition after one more step. -/
def add (definition : Definition) : Step → Definition
  | .source name mode schema =>
      { definition with sources := definition.sources ++ [.ofSchema name mode schema] }
  | .condition condition =>
      { definition with sources := conditionOnLast condition definition.sources }
  | .literal literal => { definition with literals := definition.literals ++ [literal] }
  | .column column => { definition with columns := definition.columns ++ [column] }
  | .filter expression => { definition with filter := some expression }
  | .key columns => { definition with key := some columns }

/-- The definition that steps lead to. -/
def ofSteps (name : String) (steps : List Step) : Definition :=
  steps.foldl add (empty name)

/-- The definitions after each of the steps. -/
def states (definition : Definition) : List Step → List Definition
  | [] => []
  | step :: rest => definition.add step :: (definition.add step).states rest

theorem getLast?_states (definition : Definition) (steps : List Step) (step : Step) :
    (definition.states (steps ++ [step])).getLast? =
      some ((steps ++ [step]).foldl add definition) := by
  induction steps generalizing definition with
  | nil => rfl
  | cons first rest ih =>
      simp only [List.cons_append, states, List.getLast?_cons, ih, List.foldl_cons,
        Option.getD_some]

end Definition

end Rejoin
