import Rejoin.Plan.Planner
import Rejoin.Proofs.Plan.Blueprint

/-!
# What planning assembles

A blueprint that a route fits builds a cut along the sources of the route, and
`View.plan_cases` says along which orders planning cuts.
-/

namespace Rejoin

/-- What planning assembles a slice from once it has a route. -/
def View.cutting (view : View) (route : Route) : Blueprint :=
  ⟨view, JoinGraph.ofView view, route, Survivors.ofRoute route,
    (Survivors.ofRoute route).retain (JoinGraph.ofView view)⟩

/-! ## What a blueprint builds -/

namespace Blueprint

variable {view : View} {route : Route} {previous : Option Nat} {position node : Nat}

/-- Only chains have a source before another one. -/
theorem joinsInto_eq (follows : previous = none ∨ ∃ path, route = .chain path) :
    (view.cutting route).joinsInto previous node = view.joinsInto previous node := by
  obtain rfl | ⟨path, rfl⟩ := follows
  · cases route <;> rfl
  · rfl

/-- A surviving source carries all guards on it. -/
theorem guardConditions_eq (kept : node ∈ route.sources) :
    (view.cutting route).guardConditions node = view.guardsOn node := by
  rw [← View.guards_of_owner]
  exact congrArg (List.map Guard.condition) (filter_owner_retained kept view.guards)

theorem placed_eq (kept : node ∈ route.sources)
    (follows : previous = none ∨ ∃ path, route = .chain path) (entry : View.Source) :
    (view.cutting route).placed previous position node entry =
      view.movedSource route.sources previous position node entry := by
  have carried : (view.cutting route).carried previous node = view.carried previous node := by
    rw [carried, joinsInto_eq follows, guardConditions_eq kept, View.carried]
  rw [placed, carried, View.movedSource]
  rfl

theorem Shows.projects {allow : Bool} {start target : Nat} {path : List Nat}
    (planned : Route.Planned view allow start target path route)
    (chain : Chain view.Joined start target path) {projection : Projection}
    {column : OutputColumn Nat Literal} (shows : (view.cutting route).Shows projection column) :
    view.Projects route.sources target projection column := by
  cases shows with
  | copied => exact .copied column
  | column located kept => exact .column kept (planned.locate? chain located)

theorem build_cutAlong {allow : Bool} {start : Nat} {path : List Nat} {request : Request}
    {slice : View} (planned : Route.Planned view allow start request.target path route)
    (shortest : Shortest view.Joined start request.target path)
    (succeeded : (view.cutting route).build request = .ok slice) :
    view.CutAlong route.sources request slice := by
  obtain ⟨assembles, -⟩ := assembles_of_build rfl succeeded
  have single : route.sources = [start] ∨ ∃ path, route = .chain path := by
    cases planned with
    | single _ _ => exact .inl rfl
    | shortcut _ sound => exact .inl (by rw [Route.sources, sound.anchor])
    | chain => exact .inr ⟨path, rfl⟩
  have lists : route.sources = path ∨ route.sources = [start] :=
    planned.sources.imp_right fun shortened => shortened.2.2
  exact {
    nonempty := by
      rcases lists with same | same
      · rw [same]
        rintro rfl
        cases shortest.chain
      · simp [same]
    distinct := by
      rcases lists with same | same
      · rw [same]
        exact shortest.nodup
      · simp [same]
    length := assembles.length
    source := by
      intro position node named
      have follows : before? none route.sources position = none ∨ ∃ path, route = .chain path := by
        refine single.imp_left fun alone => ?_
        cases position with
        | zero => rfl
        | succ position => simp [alone] at named
      obtain ⟨entry, found, held⟩ := assembles.source position node named
      exact ⟨entry, found, held.trans
        (congrArg some (placed_eq (List.mem_of_getElem? named) follows entry))⟩
    columns := assembles.columns.imp fun _ _ => Shows.projects planned shortest.chain
    literals := assembles.literals
    filter := assembles.filter
    keyOverride := assembles.keyOverride }

end Blueprint

/-! ## What planning returns -/

namespace View

/--
A slice is cut along a shortest chain of joins from the anchor to the target of
the request, or along the anchor alone in place of its join with the target.
-/
theorem plan_cases {view : View} (wellFormed : view.WellFormed) {options : Options}
    {anchor : String} {goal : Goal} {slice : View}
    (planned : view.plan options anchor goal = .ok (some slice)) :
    ∃ start request path order, view.indexOf? anchor = some start ∧
      goal.request view = .ok request ∧ Shortest view.Joined start request.target path ∧
      (order = path ∨
        options.shortcuts = true ∧ view.Joined start request.target ∧ order = [start]) ∧
      view.CutAlong order request slice := by
  unfold plan at planned
  split at planned
  · cases planned
  · next start anchored =>
      obtain ⟨request, made, searched⟩ := bind_eq_ok_iff.1 planned
      split at searched
      · cases searched
      · next path found =>
          obtain ⟨built, succeeded, same⟩ := bind_eq_ok_iff.1 searched
          cases same
          have shortest : Shortest view.Joined start request.target path := by
            rw [← wellFormed.linked_eq_joined]
            exact JoinGraph.shortestPath?_shortest found
          have route : Route.Planned view options.shortcuts start request.target path _ :=
            Route.ofPath_planned shortest.chain request.needed
          exact ⟨start, request, path, _, anchored, made, shortest, route.sources,
            Blueprint.build_cutAlong route shortest succeeded⟩

/-! ## Slices of a view -/

/-- The orders of a note, by way of the customer. -/
def parcelsOfNote : View where
  name := "parcels"
  sources := [
    ⟨0, "notes", "note", .main, .notes, []⟩,
    ⟨1, "customers", "customer", .inner, .customers,
      [⟨.reference ⟨0, "customer"⟩, .reference ⟨1, "id"⟩⟩,
        ⟨.reference ⟨1, "grade"⟩, .literal ⟨"high", "3"⟩⟩]⟩,
    ⟨2, "orders", "order", .inner, .orders,
      [⟨.reference ⟨1, "id"⟩, .reference ⟨2, "customer"⟩⟩,
        ⟨.reference ⟨2, "region"⟩, .reference ⟨1, "region"⟩⟩]⟩]
  columns := [⟨"id", .reference ⟨2, "id"⟩⟩]
  filter := none
  literals := [⟨"high", "3"⟩]
  keyOverride := none

/-- The customer of a note, which the note itself names. -/
def customerOfNote : View where
  name := "parcels"
  sources := [⟨0, "notes", "note", .main, .notes, []⟩]
  columns := [⟨"id", .reference ⟨0, "customer"⟩⟩]
  filter := none
  literals := []
  keyOverride := none

theorem parcels_keyPath : parcels.keyPath {} "note" = .ok (some parcelsOfNote) :=
  rfl

theorem parcelsOfNote_fieldsFrom :
    parcelsOfNote.fieldsFrom {} "note" "customer" ["id"] = .ok (some customerOfNote) :=
  rfl

end View

end Rejoin
