/-!
# What can be wrong with a definition

One constructor per cause, with what its message names.
-/

namespace Rejoin

/-- The reason a definition does not resolve to a view. -/
inductive Defect where
  | noSources (view : String)
  | mainNotFirst (name : String)
  | extraMain (name : String)
  | duplicateAlias (name : String)
  | unknownAlias (name : String)
  | forwardReference (owner referenced : String)
  | unknownColumn (name column : String)
  | emptyPrimaryKey (table : String)
  | missingKeyColumn (table column : String)
  | undeclaredLiteral (id : String)
  | duplicateLiteral (id : String)
  | unknownKeyColumn (column : String)
  deriving DecidableEq, Repr

namespace Defect

/-- The sentence that reports a defect. -/
def message : Defect → String
  | noSources view => "view `" ++ view ++ "` declares no sources"
  | mainNotFirst name => "first source `" ++ name ++ "` must be the MAIN source"
  | extraMain name =>
      "source `" ++ name ++ "` is declared MAIN but only the first source may be"
  | duplicateAlias name => "duplicate alias `" ++ name ++ "`"
  | unknownAlias name => "unknown alias `" ++ name ++ "`"
  | forwardReference owner referenced =>
      "condition on `" ++ owner ++ "` references `" ++ referenced ++
        "`, which is declared later"
  | unknownColumn name column =>
      "column `" ++ column ++ "` does not exist in `" ++ name ++ "`"
  | emptyPrimaryKey table => "table `" ++ table ++ "` has no primary key"
  | missingKeyColumn table column =>
      "primary key column `" ++ column ++ "` is missing from table `" ++ table ++ "`"
  | undeclaredLiteral id => "literal `" ++ id ++ "` is not declared by the view"
  | duplicateLiteral id => "literal `" ++ id ++ "` is declared twice"
  | unknownKeyColumn column =>
      "key override names unknown output column `" ++ column ++ "`"

end Defect

end Rejoin
