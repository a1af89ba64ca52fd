import Rejoin.Plan.Error
import Rejoin.View.Basic

/-!
# What a slice has to produce

A goal is resolved against a view to a request: the target source whose columns
are wanted and the output columns of the slice, in order.
-/

namespace Rejoin

/-- The purpose of a slice: the MAIN key, columns of one source, or the overriding key. -/
inductive Goal where
  | keyPath
  | fields (target : Nat) (names : List String)
  | computedKey
  deriving DecidableEq, Repr

/-- An output column of a slice: a column of the target, or one copied from the view. -/
inductive Projection where
  | column (name column : String)
  | copied (column : OutputColumn Nat Literal)
  deriving DecidableEq, Repr

/-- A goal resolved against a view. -/
structure Request where
  target : Nat
  projections : List Projection
  deriving DecidableEq, Repr

namespace Projection

/-- The target's column of that name under its own name. -/
def ofName (name : String) : Projection :=
  column name name

/-- The target column that a projection reads. -/
def needed? : Projection → Option String
  | column _ needed => some needed
  | copied _ => none

end Projection

namespace Request

/-- The distinct target columns that a route has to provide, by first use. -/
def needed (request : Request) : List String :=
  (request.projections.filterMap Projection.needed?).eraseDups

/-- The request with one more output column in front. -/
def project (projection : Projection) (request : Request) : Request :=
  ⟨request.target, projection :: request.projections⟩

theorem mem_needed {request : Request} {column : String} :
    column ∈ request.needed ↔ ∃ name, .column name column ∈ request.projections := by
  simp only [needed, List.mem_eraseDups, List.mem_filterMap]
  constructor
  · rintro ⟨projection, among, reads⟩
    cases projection with
    | column name needed =>
        obtain rfl : needed = column := by simpa [Projection.needed?] using reads
        exact ⟨name, among⟩
    | copied _ => simp [Projection.needed?] at reads
  · rintro ⟨name, among⟩
    exact ⟨_, among, rfl⟩

end Request

namespace View

/-- The primary key of the MAIN source. -/
def keyPathRequest (view : View) : Except PlanError Request :=
  match view.main? with
  | none => .error (.invalidArgument (.noSources view.name))
  | some main => .ok ⟨0, main.schema.primaryKey.map Projection.ofName⟩

/-- Columns of one source: those named, each once, or all when none is named. -/
def fieldsRequest (view : View) (target : Nat) (names : List String) :
    Except PlanError Request :=
  match view.source? target with
  | none => .error (.invalidArgument (.noSource target))
  | some source =>
      if names.isEmpty then .ok ⟨target, source.schema.columnNames.map Projection.ofName⟩
      else
        match names.find? (fun name => !source.schema.hasColumn name) with
        | some unknown => .error (.unknownField source.name unknown)
        | none => .ok ⟨target, names.eraseDups.map Projection.ofName⟩

/--
Key columns by name.  Computed ones are copied; the referenced ones must all
read the same source, which is `target` when an earlier one has settled it.
-/
def keyColumnsRequest (view : View) (target : Option Nat) : List String → Except PlanError Request
  | [] => .ok ⟨target.getD 0, []⟩
  | name :: rest =>
      match view.column? name with
      | none => .error (.invalidArgument (.unknownKeyColumn name))
      | some column =>
          match column.origin with
          | .computation _ _ =>
              (view.keyColumnsRequest target rest).map (Request.project (.copied column))
          | .reference ref =>
              if target.any (fun settled => settled != ref.source) then
                .error (.invalidArgument (.scatteredKey view.name))
              else
                (view.keyColumnsRequest (some ref.source) rest).map
                  (Request.project (.column column.name ref.column))

/-- The key that overrides the MAIN primary key. -/
def computedKeyRequest (view : View) : Except PlanError Request :=
  match view.keyOverride with
  | none => .error (.invalidArgument (.noKeyOverride view.name))
  | some [] => .error (.invalidArgument (.emptyKeyOverride view.name))
  | some names => view.keyColumnsRequest none names

end View

/-- The request that a goal makes of a view. -/
def Goal.request (view : View) : Goal → Except PlanError Request
  | keyPath => view.keyPathRequest
  | fields target names => view.fieldsRequest target names
  | computedKey => view.computedKeyRequest

end Rejoin
