import Rejoin.Proofs.Plan.Assembly
import Rejoin.Proofs.Plan.Request
import Rejoin.Proofs.Plan.Shortcut

/-!
# How a slice is laid out

On a well-formed view no route that planning takes can break: once the request
is made and a path is found there is a slice, and `plan_laidOut` says which one.
-/

namespace Rejoin

/-- The output column for a projection: the target's column is read at a position as `stored`. -/
def Projection.output (position : Nat) (stored : String → String) :
    Projection → OutputColumn Nat Literal
  | .copied copy => copy
  | .column name wanted => ⟨name, .reference ⟨position, stored wanted⟩⟩

/-! ## Routes that serve a request -/

namespace Route

variable {view : View} {start target : Nat} {path : List Nat}

/-- The route reads every needed column from its last source, which has it as `stored`. -/
def Serves (route : Route) (stored : String → String) (needed : List String) : Prop :=
  ∃ node, route.sources.getLast? = some node ∧
    ∀ column ∈ needed, route.locate? column = some (node, stored column)

theorem serves_chain {Joined : Nat → Nat → Prop} (chain : Chain Joined start target path)
    (needed : List String) : (Route.chain path).Serves id needed :=
  ⟨target, chain.getLast?, fun _ _ => by simp [locate?, chain.getLast?]⟩

theorem serves_shortcut {needed : List String} {found : Shortcut}
    (shortened : Shortcut.find? view (JoinGraph.ofView view) start target needed = some found) :
    (Route.shortcut found).Serves found.stored needed := by
  refine ⟨found.anchor, rfl, fun column wanted => ?_⟩
  rw [locate?, Shortcut.find?_renames shortened wanted, Option.map_some]

end Route

namespace Blueprint

variable {view : View} {route : Route} {previous : Option Nat} {position node : Nat}

/-! ## No part of a blueprint breaks -/

/-- A source stands along a chain of joins: it carries nothing but joins and guards on itself. -/
theorem stands_along {first last place : Nat} (along : Chain view.Joined first last route.sources)
    (named : route.sources[place]? = some node) :
    (view.cutting route).Stands (before? none route.sources place) node where
  joined := by
    intro path before _ follows
    cases place with
    | zero => cases follows
    | succ place =>
        obtain ⟨edge, found⟩ := (along.joined_next follows named).exists_edgeBetween?
        exact Option.ne_none_iff_exists'.2 ⟨edge, found⟩
  guarded := by
    intro guard given owned ref mentioned
    have held : guard.condition ∈ view.guardsOn node := by
      rw [← guardConditions_eq (List.mem_of_getElem? named)]
      exact mem_guardConditions.2 ⟨guard, given, owned, rfl⟩
    have carried : guard.condition ∈ view.carried none node := List.mem_append_right _ held
    obtain own | earlier := View.source_of_mem_carried carried mentioned
    · rw [own]
      exact List.mem_of_getElem? named
    · cases earlier

/-- A projection that the route serves is shown. -/
theorem exists_shows {stored : String → String} {request : Request}
    (serves : route.Serves stored request.needed) {projection : Projection}
    (requested : projection ∈ request.projections) :
    ∃ column, (view.cutting route).Shows projection column := by
  obtain ⟨node, last, locates⟩ := serves
  cases projection with
  | copied column => exact ⟨column, .copied column⟩
  | column name wanted =>
      have located := locates wanted (Request.mem_needed.2 ⟨name, requested⟩)
      exact ⟨_, .column located (List.getLast?_eq_getElem? ▸ last)⟩

/-- It is read from the last source. -/
theorem Shows.eq_output {stored : String → String} {request : Request}
    (distinct : route.sources.Nodup) (serves : route.Serves stored request.needed)
    {projection : Projection} {column : OutputColumn Nat Literal}
    (requested : projection ∈ request.projections)
    (shows : (view.cutting route).Shows projection column) :
    column = projection.output (route.sources.length - 1) stored := by
  obtain ⟨node, last, locates⟩ := serves
  cases shows with
  | copied => rfl
  | @column name wanted _ position _ located kept =>
      have served := locates wanted (Request.mem_needed.2 ⟨name, requested⟩)
      obtain ⟨rfl, rfl⟩ := Prod.mk.inj (Option.some.inj (served.symm.trans located))
      rw [List.getLast?_eq_getElem?] at last
      have within := (List.getElem?_eq_some_iff.1 kept).1
      obtain rfl := (List.getElem?_inj within distinct).1 (kept.trans last.symm)
      rfl

end Blueprint

/-! ## What is laid out -/

namespace View

variable {view : View} {options : Options} {start : Nat} {path : List Nat} {request : Request}

/-- The slice is cut along an order and reads the target's columns from its last source. -/
structure LaidOut (view : View) (order : List Nat) (stored : String → String) (request : Request)
    (slice : View) : Prop where
  name : slice.name = view.name
  cut : view.CutAlong order request slice
  columns : slice.columns = request.projections.map (Projection.output (order.length - 1) stored)

attribute [ext] View

/-- Cuts are equal when their names, sources and output columns are. -/
theorem CutAlong.eq_of_sources {other slice copy : View} {order places : List Nat}
    {asked : Request} (cut : view.CutAlong order request slice)
    (again : other.CutAlong places asked copy) (name : slice.name = copy.name)
    (sources : slice.sources = copy.sources) (columns : slice.columns = copy.columns) :
    slice = copy := by
  apply View.ext name sources columns
  · rw [cut.filter, again.filter]
  · rw [cut.literals, again.literals, sources, columns]
  · rw [cut.keyOverride, again.keyOverride]

/-- Cuts along an order have the same sources if those stand and carry the same in both views. -/
theorem CutAlong.sources_eq_of_agree {other slice copy : View} {order : List Nat} {asked : Request}
    (cut : view.CutAlong order request slice) (again : other.CutAlong order asked copy)
    (agree : ∀ position node, order[position]? = some node →
      view.source? node = other.source? node ∧
        view.carried (before? none order position) node =
          other.carried (before? none order position) node) : slice.sources = copy.sources := by
  refine List.ext_getElem (cut.length.trans again.length.symm) fun position within copied => ?_
  have known : position < order.length := cut.length ▸ within
  have named : order[position]? = some order[position] := List.getElem?_eq_getElem known
  obtain ⟨entry, found, moved⟩ := cut.source position _ named
  obtain ⟨same, foundAgain, copied⟩ := again.source position _ named
  obtain ⟨standing, carrying⟩ := agree position _ named
  obtain rfl : same = entry :=
    Option.some.inj ((foundAgain.symm.trans standing.symm).trans found)
  rw [movedSource, ← carrying] at copied
  exact Option.some.inj (((List.getElem?_eq_getElem within).symm.trans moved).trans
    (copied.symm.trans (List.getElem?_eq_getElem _)))

/-- Two views have one slice along an order whose sources stand and carry the same in both. -/
theorem LaidOut.eq_of_agree {order : List Nat} {stored : String → String}
    {other slice copy : View} (laid : view.LaidOut order stored request slice)
    (again : other.LaidOut order stored request copy) (name : view.name = other.name)
    (agree : ∀ position node, order[position]? = some node →
      view.source? node = other.source? node ∧
        view.carried (before? none order position) node =
          other.carried (before? none order position) node) : slice = copy := by
  apply laid.cut.eq_of_sources again.cut ((laid.name.trans name).trans again.name.symm)
  · exact laid.cut.sources_eq_of_agree again.cut agree
  · rw [laid.columns, again.columns]

/-- There is one slice along an order. -/
theorem LaidOut.unique {order : List Nat} {stored : String → String} {slice other : View}
    (laid : view.LaidOut order stored request slice)
    (again : view.LaidOut order stored request other) : slice = other :=
  laid.eq_of_agree again rfl fun _ _ _ => ⟨rfl, rfl⟩

/-- The shortcut that planning takes from a source to the target of a request, if any. -/
def shortcut? (view : View) (options : Options) (start : Nat) (request : Request) :
    Option Shortcut :=
  if options.shortcuts then
    Shortcut.find? view (JoinGraph.ofView view) start request.target request.needed
  else none

theorem shortcut?_eq_some_iff {found : Shortcut} :
    view.shortcut? options start request = some found ↔ options.shortcuts = true ∧
      Shortcut.find? view (JoinGraph.ofView view) start request.target request.needed =
        some found := by
  unfold shortcut?
  split
  · next allowed => exact (and_iff_right allowed).symm
  · next refused => simp [refused]

/-- A blueprint for a route that serves the request along a chain of its sources is built. -/
theorem build_laidOut {allow : Bool} {route : Route} {last : Nat} {stored : String → String}
    (wellFormed : view.WellFormed)
    (planned : Route.Planned view allow start request.target path route)
    (shortest : Shortest view.Joined start request.target path)
    (known : ∃ entry, view.source? last = some entry)
    (along : Chain view.Joined start last route.sources)
    (serves : route.Serves stored request.needed) :
    ∃ slice, (view.cutting route).build request = .ok slice ∧
      view.LaidOut route.sources stored request slice := by
  have reads : ∀ node next, view.Joined node next → ∃ entry, view.source? node = some entry :=
    fun _ _ joined => exists_source?_iff.2 (wellFormed.lt_of_joined joined)
  have distinct : route.sources.Nodup := by
    rcases planned.sources with same | ⟨_, _, same⟩
    · rw [same]
      exact shortest.nodup
    · simp [same]
  have fits : ∀ fault, ¬ (view.cutting route).Breaks request fault := by
    refine Blueprint.not_breaks (fun place node named => ?_)
      fun _ requested => Blueprint.exists_shows serves requested
    exact ⟨Blueprint.stands_along along named,
      along.forall_mem reads known node (List.mem_of_getElem? named)⟩
  cases built : (view.cutting route).build request with
  | error error =>
      obtain ⟨fault, -, broken⟩ := Blueprint.breaks_of_build rfl built
      exact absurd broken (fits fault)
  | ok slice =>
      obtain ⟨assembles, -⟩ := Blueprint.assembles_of_build rfl built
      refine ⟨slice, rfl, assembles.name, Blueprint.build_cutAlong planned shortest built, ?_⟩
      refine eq_map_of_forall₂ ?_
      refine ((List.forall₂_and_left _ _).2 ⟨fun _ => id, assembles.columns⟩).imp ?_
      exact fun _ _ ⟨requested, shows⟩ => shows.eq_output distinct serves requested

/-- A path becomes the shortcut that is taken, or else the chain of its sources. -/
theorem ofPath_cases (options : Options) (chain : Chain view.Joined start request.target path) :
    (∃ found, view.shortcut? options start request = some found ∧
      Route.ofPath view (JoinGraph.ofView view) options.shortcuts request.needed path =
        .shortcut found) ∨
    view.shortcut? options start request = none ∧
      (Route.ofPath view (JoinGraph.ofView view) options.shortcuts request.needed path =
          .chain path ∨
        path = [start] ∧ Route.ofPath view (JoinGraph.ofView view) options.shortcuts
          request.needed path = .single start) := by
  have head := chain.head?
  have final := chain.getLast?
  rcases path with _ | ⟨first, _ | ⟨next, rest⟩⟩
  · cases head
  · obtain rfl : first = start := by simpa using head
    obtain rfl : first = request.target := by simpa using final
    refine .inr ⟨?_, .inr ⟨rfl, rfl⟩⟩
    simp [shortcut?, Shortcut.find?]
  · obtain rfl : first = start := by simpa using head
    have last : rest.getLastD next = request.target := by
      simpa [List.getLast?_cons, List.getLastD_eq_getLast?] using final
    have same : Route.ofPath view (JoinGraph.ofView view) options.shortcuts request.needed
        (first :: next :: rest) = ((view.shortcut? options first request).map Route.shortcut).getD
          (.chain (first :: next :: rest)) := by
      rw [Route.ofPath, last, ← shortcut?]
      cases view.shortcut? options first request <;> rfl
    rw [same]
    cases view.shortcut? options first request with
    | some found => exact .inl ⟨found, rfl, rfl⟩
    | none => exact .inr ⟨rfl, .inl rfl⟩

/--
Once a request is made and a path is found there is a slice: along the path, or
on the anchor alone where a shortcut is taken.
-/
theorem plan_laidOut (wellFormed : view.WellFormed) (options : Options) {anchor : String}
    {goal : Goal} (anchored : view.indexOf? anchor = some start)
    (made : goal.request view = .ok request)
    (found : (JoinGraph.ofView view).shortestPath? start request.target = some path) :
    ∃ slice, view.plan options anchor goal = .ok (some slice) ∧
      ((∃ shortcut, view.shortcut? options start request = some shortcut ∧
          view.LaidOut [start] shortcut.stored request slice) ∨
        view.shortcut? options start request = none ∧
          view.LaidOut path id request slice) := by
  have shortest : Shortest view.Joined start request.target path := by
    rw [← wellFormed.linked_eq_joined]
    exact JoinGraph.shortestPath?_shortest found
  have planned : Route.Planned view options.shortcuts start request.target path _ :=
    Route.ofPath_planned shortest.chain request.needed
  have returns {slice : View}
      (built : (view.cutting (Route.ofPath view (JoinGraph.ofView view) options.shortcuts
        request.needed path)).build request = .ok slice) :
      view.plan options anchor goal = .ok (some slice) := by
    unfold plan
    simp only [anchored]
    refine bind_eq_ok_iff.2 ⟨request, made, ?_⟩
    simp only [found]
    exact bind_eq_ok_iff.2 ⟨slice, built, rfl⟩
  obtain ⟨source, anchorFound, _⟩ := wellFormed.indexOf?_eq_some_iff.1 anchored
  rcases ofPath_cases options shortest.chain with
    ⟨shortcut, shortened, route⟩ | ⟨free, route | ⟨alone, route⟩⟩
  · rw [route] at planned returns
    have at_anchor : shortcut.anchor = start := by
      cases planned with
      | shortcut _ sound => exact sound.anchor
    have serves : (Route.shortcut shortcut).Serves shortcut.stored request.needed :=
      Route.serves_shortcut (shortcut?_eq_some_iff.1 shortened).2
    have sources : (Route.shortcut shortcut).sources = [start] := by rw [Route.sources, at_anchor]
    obtain ⟨slice, built, laid⟩ := build_laidOut wellFormed planned shortest
      ⟨source, anchorFound⟩ (sources ▸ .single start) serves
    rw [sources] at laid
    exact ⟨slice, returns built, .inl ⟨shortcut, shortened, laid⟩⟩
  · rw [route] at planned returns
    have known := (goal.request_fits wellFormed made).target
    obtain ⟨slice, built, laid⟩ := build_laidOut wellFormed planned shortest known
      shortest.chain (Route.serves_chain shortest.chain request.needed)
    exact ⟨slice, returns built, .inr ⟨free, laid⟩⟩
  · rw [route] at planned returns
    subst alone
    obtain ⟨slice, built, laid⟩ := build_laidOut wellFormed planned shortest
      ⟨source, anchorFound⟩ (.single start) ⟨start, rfl, fun _ _ => rfl⟩
    exact ⟨slice, returns built, .inr ⟨free, laid⟩⟩

/-- Planning that does not fail has found an anchor and a request, and a path if it has a slice. -/
theorem path_of_plan {anchor : String} {goal : Goal} {outcome : Option View}
    (planned : view.plan options anchor goal = .ok outcome) :
    ∃ start request, view.indexOf? anchor = some start ∧ goal.request view = .ok request ∧
      ((JoinGraph.ofView view).shortestPath? start request.target).isSome = outcome.isSome := by
  unfold plan at planned
  split at planned
  · cases planned
  · next start anchored =>
      obtain ⟨request, made, searched⟩ := bind_eq_ok_iff.1 planned
      refine ⟨start, request, anchored, made, ?_⟩
      split at searched
      · next missing =>
          cases searched
          rw [missing]
          rfl
      · next path found =>
          obtain ⟨slice, _, returned⟩ := bind_eq_ok_iff.1 searched
          cases returned
          rw [found]
          rfl

/-- What a slice is: it is laid out along a shortest path or on the anchor alone. -/
theorem laidOut_of_plan (wellFormed : view.WellFormed) {anchor : String} {goal : Goal}
    {slice : View} (planned : view.plan options anchor goal = .ok (some slice)) :
    ∃ start request path, view.indexOf? anchor = some start ∧ goal.request view = .ok request ∧
      Shortest view.Joined start request.target path ∧
      ((∃ shortcut, view.shortcut? options start request = some shortcut ∧
          view.LaidOut [start] shortcut.stored request slice) ∨
        view.shortcut? options start request = none ∧ view.LaidOut path id request slice) := by
  obtain ⟨start, request, anchored, made, searched⟩ := path_of_plan planned
  obtain ⟨path, found⟩ := Option.isSome_iff_exists.1 searched
  have shortest := JoinGraph.shortestPath?_shortest found
  rw [wellFormed.linked_eq_joined] at shortest
  obtain ⟨same, again, laid⟩ := plan_laidOut wellFormed options anchored made found
  obtain rfl : same = slice := Option.some.inj (Except.ok.inj (again.symm.trans planned))
  exact ⟨start, request, path, anchored, made, shortest, laid⟩

end View

end Rejoin
