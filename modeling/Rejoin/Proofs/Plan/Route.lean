import Rejoin.Plan.Route
import Rejoin.Proofs.JoinGraph.Edges
import Rejoin.Proofs.Traversal

/-!
# What a route provides

A route along a chain keeps the chain, or its first source alone.  A column of
the target is then read from the target itself or from a column of the first
source that a declared condition equates with it.
-/

namespace Rejoin

/-- The condition equates the two columns, in either orientation. -/
def Condition.Equates {σ ℓ : Type} (one other : ColumnRef σ) (condition : Condition σ ℓ) : Prop :=
  condition = ⟨.reference one, .reference other⟩ ∨ condition = ⟨.reference other, .reference one⟩

/-- The column of a source that holds the values of a column of the target. -/
inductive View.Supplies (view : View) (wanted : ColumnRef Nat) : ColumnRef Nat → Prop where
  | own : Supplies view wanted wanted
  | equated {stored : ColumnRef Nat} {condition : Condition Nat Literal}
      (declared : condition ∈ view.conditions) (equates : condition.Equates stored wanted) :
      Supplies view wanted stored

/-- What supplies an existing column exists itself. -/
theorem View.Supplies.reads {view : View} {wanted stored : ColumnRef Nat}
    (supplies : view.Supplies wanted stored) (wellFormed : view.WellFormed)
    (existing : view.Reads wanted) : view.Reads stored := by
  cases supplies with
  | own => exact existing
  | equated declared equates =>
      rcases equates with rfl | rfl
      · exact wellFormed.reads declared List.mem_cons_self
      · exact wellFormed.reads declared (List.mem_cons_of_mem _ List.mem_cons_self)

/-- The columns of a pair on two sources are the two sides of its condition. -/
theorem ColumnPair.equates_of_columns? {pair : ColumnPair} {first second : Nat}
    (apart : first ≠ second) {own other : String}
    (found : pair.columns? first second = some (own, other)) :
    pair.condition.Equates ⟨first, own⟩ ⟨second, other⟩ := by
  obtain ⟨⟨leftSource, leftColumn⟩, ⟨rightSource, rightColumn⟩⟩ := pair
  simp only [columns?, columnOf?, Option.bind_eq_some_iff, Option.map_eq_some_iff,
    Prod.mk.injEq] at found
  obtain ⟨_, firstFound, _, secondFound, rfl, rfl⟩ := found
  simp only [Condition.Equates, condition, Condition.mk.injEq, Operand.reference.injEq,
    ColumnRef.mk.injEq]
  grind

/-- A rename reads the target's column from the column it is equated with. -/
theorem Edge.equates_of_mem_columnsBetween {view : View} {edge : Edge} {first second : Nat}
    (found : (JoinGraph.ofView view).edgeBetween? first second = some edge)
    {own other : String} (among : (own, other) ∈ edge.columnsBetween first second) :
    ∃ condition ∈ view.conditions, condition.Equates ⟨first, own⟩ ⟨second, other⟩ := by
  obtain ⟨pairs, joined⟩ := View.edgeBetween?_eq_some found
  obtain ⟨pair, held, columns⟩ := List.mem_filterMap.1 among
  have declared : pair.condition ∈ view.joinsBetween first second := by
    rw [← pairs]
    exact List.mem_map_of_mem held
  exact ⟨pair.condition, List.mem_of_mem_filter declared,
    ColumnPair.equates_of_columns? joined.ne columns⟩

/-- What a shortcut is: a join of its ends whose pairs its renames are taken from. -/
structure Shortcut.Sound (view : View) (start target : Nat) (shortcut : Shortcut) : Prop where
  anchor : shortcut.anchor = start
  joined : view.Joined start target
  renames : ∀ rename ∈ shortcut.renames,
    view.Supplies ⟨target, rename.targetColumn⟩ ⟨start, rename.anchorColumn⟩

theorem Shortcut.find?_sound {view : View} {anchor target : Nat} {needed : List String}
    {shortcut : Shortcut}
    (found : Shortcut.find? view (JoinGraph.ofView view) anchor target needed = some shortcut) :
    shortcut.Sound view anchor target := by
  unfold Shortcut.find? at found
  split at found
  · cases found
  · simp only [Option.bind_eq_bind, Option.bind_eq_some_iff] at found
    obtain ⟨edge, edgeFound, source, _, absorbed⟩ := found
    split at absorbed
    · obtain ⟨renames, traversed, made⟩ := Option.bind_eq_some_iff.1 absorbed
      cases made
      refine ⟨rfl, (View.edgeBetween?_eq_some edgeFound).2, fun rename among => ?_⟩
      obtain ⟨name, _, renamed⟩ := exists_of_mem_right (mapM_eq_some_iff.1 traversed) among
      obtain ⟨⟨own, other⟩, paired, rfl⟩ := Option.map_eq_some_iff.1 renamed
      obtain rfl : other = name := by simpa using List.find?_some paired
      obtain ⟨condition, declared, equates⟩ :=
        Edge.equates_of_mem_columnsBetween edgeFound (List.mem_of_find?_eq_some paired)
      exact .equated declared equates
    · cases absorbed

/-- How planning may have come to a route along a path. -/
inductive Route.Planned (view : View) (allow : Bool) (start target : Nat) (path : List Nat) :
    Route → Prop where
  | single (alone : path = [start]) (same : start = target) :
      Planned view allow start target path (.single start)
  | shortcut {found : Shortcut} (allowed : allow = true) (sound : found.Sound view start target) :
      Planned view allow start target path (.shortcut found)
  | chain : Planned view allow start target path (.chain path)

namespace Route

variable {view : View} {allow : Bool} {start target : Nat} {path : List Nat}

theorem ofPath_planned {Joined : Nat → Nat → Prop} (chain : Chain Joined start target path)
    (needed : List String) :
    Planned view allow start target path
      (ofPath view (JoinGraph.ofView view) allow needed path) := by
  match path, chain with
  | [_], .single node => exact .single rfl rfl
  | first :: next :: rest, chain =>
      obtain rfl : first = start := by simpa using chain.head?
      have last : rest.getLastD next = target := by
        simpa [List.getLast?_cons, List.getLastD_eq_getLast?] using chain.getLast?
      unfold ofPath
      simp only [last]
      split
      · next found shortened =>
          split at shortened
          · next allowed => exact .shortcut allowed (Shortcut.find?_sound shortened)
          · cases shortened
      · exact .chain

/-- The order in which the slice keeps sources: the path, or its first source alone. -/
theorem Planned.sources {route : Route} (planned : Planned view allow start target path route) :
    route.sources = path ∨
      allow = true ∧ view.Joined start target ∧ route.sources = [start] := by
  cases planned with
  | single alone same => exact .inl alone.symm
  | shortcut allowed sound =>
      exact .inr ⟨allowed, sound.joined, by rw [Route.sources, sound.anchor]⟩
  | chain => exact .inl rfl

/-- A located column of the target is supplied by a source that the route keeps. -/
theorem Planned.locate? {route : Route} (planned : Planned view allow start target path route)
    {Joined : Nat → Nat → Prop} (chain : Chain Joined start target path) {column : String}
    {node : Nat} {stored : String} (located : route.locate? column = some (node, stored)) :
    view.Supplies ⟨target, column⟩ ⟨node, stored⟩ := by
  cases planned with
  | single alone same =>
      cases located
      rw [same]
      exact .own
  | shortcut allowed sound =>
      obtain ⟨rename, found, same⟩ := Option.map_eq_some_iff.1 located
      cases same
      obtain rfl : rename.targetColumn = column := by simpa using List.find?_some found
      rw [sound.anchor]
      exact sound.renames rename (List.mem_of_find?_eq_some found)
  | chain =>
      simp only [Route.locate?, chain.getLast?, Option.map_some, Option.some.injEq] at located
      cases located
      exact .own

end Route

end Rejoin
