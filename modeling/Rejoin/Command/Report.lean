import Rejoin.Command.Invocation
import Rejoin.Definition.Load
import Rejoin.Digest.Fingerprint
import Rejoin.Plan.Planner

/-!
# Reports

A task's result is a report for its anchor, or the list of the reports for all
sources, written as JSON over several lines.
-/

namespace Rejoin

namespace Command

/-- Why a command fails. -/
inductive Failure where
  | file
  | load (error : LoadError)
  | plan (error : PlanError)
  deriving DecidableEq, Repr

/-- The planner's answer for one anchor; without a slice there is no join path. -/
structure Report where
  anchor : String
  slice : Option View
  deriving DecidableEq, Repr

def Report.toJson (report : Report) : Json :=
  .record [("anchor", .text report.anchor),
    ("fingerprint", .nullable .text (report.slice.map View.fingerprint)),
    ("slice", .nullable View.toJson report.slice)]

/-- The result of a task on a view. -/
def Task.result (task : Task) (options : Options) (view : View) : Except PlanError Json :=
  match task with
  | .keyPath anchor =>
      (view.keyPath options anchor).map (fun slice => Report.toJson ⟨anchor, slice⟩)
  | .fields anchor none names =>
      (view.fields options anchor names).map (fun slice => Report.toJson ⟨anchor, slice⟩)
  | .fields anchor (some target) names =>
      (view.fieldsFrom options anchor target names).map
        (fun slice => Report.toJson ⟨anchor, slice⟩)
  | .computedKey anchor =>
      (view.computedKey options anchor).map (fun slice => Report.toJson ⟨anchor, slice⟩)
  | .planAll =>
      (view.keyPaths options).map
        (.list (fun plan => Report.toJson ⟨plan.anchor, plan.slice⟩))

/-- The text that an invocation makes of the text of its view. -/
def Invocation.render (invocation : Invocation) (text : String) : Except Failure String := do
  let view ← (View.load text).mapError .load
  let result ← (invocation.task.result ⟨invocation.shortcuts⟩ view).mapError .plan
  return result.pretty

end Command

end Rejoin
