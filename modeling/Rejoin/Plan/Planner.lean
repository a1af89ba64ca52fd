import Rejoin.JoinGraph.Trail
import Rejoin.Plan.Options
import Rejoin.Plan.Slice

/-!
# Planning

Given the alias of the source a change arrived on and a goal, planning finds the
smallest slice of a view that produces the goal's columns: a shortest chain of
joins from the anchor to the target, or the anchor alone where it stores every
wanted value.  A target that no joins link to the anchor has no slice.
-/

namespace Rejoin

/-- The slice that recovers the MAIN key for changes on one source. -/
structure KeyPathPlan where
  anchor : String
  slice : Option View
  deriving DecidableEq, Repr

namespace View

/-- The blueprint of a slice along a path. -/
def blueprint (view : View) (options : Options) (path : List Nat) (request : Request) :
    Blueprint :=
  let graph := JoinGraph.ofView view
  let route := Route.ofPath view graph options.shortcuts request.needed path
  let survivors := Survivors.ofRoute route
  ⟨view, graph, route, survivors, survivors.retain graph⟩

/-- The slice for a goal after a change on the anchor, if joins lead to the goal's target. -/
def plan (view : View) (options : Options) (anchor : String) (goal : Goal) :
    Except PlanError (Option View) :=
  match view.indexOf? anchor with
  | none => .error (.invalidArgument (.unknownAnchor anchor view.name))
  | some start => do
      let request ← goal.request view
      match (JoinGraph.ofView view).shortestPath? start request.target with
      | none => return none
      | some path =>
          let slice ← (view.blueprint options path request).build request
          return some slice

/-- The slice that recovers the primary key of the MAIN source. -/
def keyPath (view : View) (options : Options) (anchor : String) :
    Except PlanError (Option View) :=
  view.plan options anchor .keyPath

/-- The slice that reads columns of the source `target`, all of them if none is named. -/
def fieldsFrom (view : View) (options : Options) (anchor target : String)
    (names : List String) : Except PlanError (Option View) :=
  match view.indexOf? target with
  | none => .error (.invalidArgument (.unknownTarget target view.name))
  | some index => view.plan options anchor (.fields index names)

/-- The slice that reads columns of the MAIN source. -/
def fields (view : View) (options : Options) (anchor : String) (names : List String) :
    Except PlanError (Option View) :=
  match view.main? with
  | none => .error (.invalidArgument (.noSources view.name))
  | some main => view.fieldsFrom options anchor main.name names

/-- The slice that recovers the view's overriding key. -/
def computedKey (view : View) (options : Options) (anchor : String) :
    Except PlanError (Option View) :=
  view.plan options anchor .computedKey

/-- The key path of every source in declaration order; only sources linked to MAIN are planned. -/
def keyPaths (view : View) (options : Options) : Except PlanError (List KeyPathPlan) :=
  let linked := (JoinGraph.ofView view).reachable 0
  view.sources.mapM (fun source =>
    if linked.contains source.index then
      (view.keyPath options source.name).map (fun slice => ⟨source.name, slice⟩)
    else .ok ⟨source.name, none⟩)

end View

end Rejoin
