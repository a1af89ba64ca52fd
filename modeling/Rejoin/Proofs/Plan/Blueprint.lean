import Rejoin.Proofs.Definition.Resolution
import Rejoin.Proofs.Flaws
import Rejoin.Proofs.JoinGraph.Edges
import Rejoin.Proofs.Plan.Cut

/-!
# Blueprints that do not fit together

Route, survivors, guards and request of a blueprint are independent.  It is built
exactly if nothing in it breaks (`Blueprint.Breaks`), and then source by source in
the order of the survivors.
-/

namespace Rejoin

/-- What a slice is assembled from, with the join graph of the view itself. -/
def View.draft (view : View) (route : Route) (survivors : Survivors) (guards : List Guard) :
    Blueprint :=
  ⟨view, JoinGraph.ofView view, route, survivors, guards⟩

namespace Blueprint

/-- The joins with the source before; only along a chain is it joined. -/
def joinsInto (blueprint : Blueprint) (previous : Option Nat) (node : Nat) :
    List (Condition Nat Literal) :=
  match blueprint.route with
  | .chain _ => blueprint.view.joinsInto previous node
  | _ => []

/-- What a survivor carries, at the positions of the view. -/
def carried (blueprint : Blueprint) (previous : Option Nat) (node : Nat) :
    List (Condition Nat Literal) :=
  blueprint.joinsInto previous node ++ blueprint.guardConditions node

/-- A source of the view as it stands in the slice. -/
def placed (blueprint : Blueprint) (previous : Option Nat) (position node : Nat)
    (entry : View.Source) : View.Source where
  index := position
  table := entry.table
  name := entry.name
  mode := if position = 0 then .main else .inner
  schema := entry.schema
  conditions := (blueprint.carried previous node).map
    (Condition.mapSource (relocate blueprint.survivors.order))

/-- What does not fit together in a blueprint for a request. -/
inductive Breaks (blueprint : Blueprint) (request : Request) : RouteFault → Prop where
  | noSource {node : Nat} (kept : node ∈ blueprint.survivors.order)
      (unknown : blueprint.view.source? node = none) : Breaks blueprint request (.noSource node)
  | noJoin {path : List Nat} {place first second : Nat} (chained : blueprint.route = .chain path)
      (before : blueprint.survivors.order[place]? = some first)
      (after : blueprint.survivors.order[place + 1]? = some second)
      (apart : blueprint.graph.edgeBetween? first second = none) :
      Breaks blueprint request (.noJoin first second)
  | droppedReference {guard : Guard} {ref : ColumnRef Nat} (given : guard ∈ blueprint.guards)
      (owned : guard.owner ∈ blueprint.survivors.order) (named : ref ∈ guard.condition.references)
      (dropped : ref.source ∉ blueprint.survivors.order) :
      Breaks blueprint request (.droppedReference ref.source)
  | unrouted {name column : String} (asked : .column name column ∈ request.projections)
      (lost : blueprint.route.locate? column = none) : Breaks blueprint request (.unrouted column)
  | droppedColumn {name column stored : String} {node : Nat}
      (asked : .column name column ∈ request.projections)
      (located : blueprint.route.locate? column = some (node, stored))
      (dropped : node ∉ blueprint.survivors.order) :
      Breaks blueprint request (.droppedColumn column)

/-- How an output column answers to a projection: a copy, or a column read at a survivor. -/
inductive Shows (blueprint : Blueprint) : Projection → OutputColumn Nat Literal → Prop where
  | copied (column : OutputColumn Nat Literal) : Shows blueprint (.copied column) column
  | column {name column stored : String} {position node : Nat}
      (located : blueprint.route.locate? column = some (node, stored))
      (kept : blueprint.survivors.order[position]? = some node) :
      Shows blueprint (.column name column) ⟨name, .reference ⟨position, stored⟩⟩

/-- The slice that a blueprint makes: its survivors in order, all at positions of the slice. -/
structure Assembles (blueprint : Blueprint) (request : Request) (slice : View) : Prop where
  name : slice.name = blueprint.view.name
  length : slice.sources.length = blueprint.survivors.order.length
  source : ∀ position node, blueprint.survivors.order[position]? = some node → ∃ entry,
    blueprint.view.source? node = some entry ∧ slice.source? position = some
      (blueprint.placed (before? none blueprint.survivors.order position) position node entry)
  within : ∀ condition ∈ slice.conditions, ∀ ref ∈ condition.references,
    ref.source < slice.sources.length
  columns : List.Forall₂ blueprint.Shows request.projections slice.columns
  reads : ∀ column ∈ slice.columns, .copied column ∈ request.projections ∨
    ∃ ref, column.origin = .reference ref ∧ ref.source < slice.sources.length
  literals : slice.literals = usedLiterals slice.sources slice.columns
  filter : slice.filter = none
  keyOverride : slice.keyOverride = none

/-! ## One source -/

variable {blueprint : Blueprint} {previous : Option Nat} {position node : Nat}

/-- A condition is moved if all sources it names survive, and otherwise names a dropped one. -/
theorem move_cases (blueprint : Blueprint) (condition : Condition Nat Literal) :
    (∃ ref ∈ condition.references, ref.source ∉ blueprint.survivors.order ∧
      blueprint.move condition = .error (.brokenRoute (.droppedReference ref.source))) ∨
    (∀ ref ∈ condition.references, ref.source ∈ blueprint.survivors.order) ∧
      blueprint.move condition =
        .ok (condition.mapSource (relocate blueprint.survivors.order)) := by
  unfold move
  split
  · next missing found =>
      refine .inl ⟨missing, List.mem_of_find?_eq_some found, ?_, rfl⟩
      simpa [Survivors.contains] using List.find?_some found
  · next found =>
      refine .inr ⟨fun ref named => ?_, rfl⟩
      simpa [Survivors.contains] using List.find?_eq_none.1 found ref named

theorem move_eq_ok_iff {condition moved : Condition Nat Literal} :
    blueprint.move condition = .ok moved ↔
      (∀ ref ∈ condition.references, ref.source ∈ blueprint.survivors.order) ∧
        moved = condition.mapSource (relocate blueprint.survivors.order) := by
  rcases blueprint.move_cases condition with ⟨ref, named, dropped, failed⟩ | ⟨kept, succeeded⟩
  · rw [failed]
    exact iff_of_false nofun fun fits => dropped (fits.1 ref named)
  · rw [succeeded, Except.ok.injEq, eq_comm]
    exact (and_iff_right kept).symm

/-- The joins with the source before are found, or a chain has no edge there. -/
theorem joinConditions_cases (own : blueprint.graph = JoinGraph.ofView blueprint.view)
    (previous : Option Nat) (node : Nat) :
    (∃ path before, blueprint.route = .chain path ∧ previous = some before ∧
      blueprint.graph.edgeBetween? before node = none ∧
      blueprint.joinConditions previous node = .error (.brokenRoute (.noJoin before node))) ∨
    (∀ path before, blueprint.route = .chain path → previous = some before →
      blueprint.graph.edgeBetween? before node ≠ none) ∧
      blueprint.joinConditions previous node = .ok (blueprint.joinsInto previous node) := by
  simp only [joinConditions, joinsInto]
  cases previous with
  | none =>
      refine .inr ⟨fun _ _ _ follows => (by cases follows), ?_⟩
      cases blueprint.route <;> rfl
  | some before =>
      cases routed : blueprint.route with
      | chain path =>
          cases found : blueprint.graph.edgeBetween? before node with
          | none => exact .inl ⟨path, before, rfl, rfl, found, by simp only [found]⟩
          | some edge =>
              refine .inr ⟨fun _ _ _ same => ?_, ?_⟩
              · rw [← Option.some.inj same, found]
                exact Option.some_ne_none edge
              · rw [own] at found
                simp only [own, found, View.joinsInto, (View.edgeBetween?_eq_some found).1]
      | _ => exact .inr ⟨fun _ _ chained => (by cases chained), rfl⟩

/-- Every joined condition names the two sources it joins. -/
theorem mem_order_of_mem_joinsInto {condition : Condition Nat Literal}
    (joins : condition ∈ blueprint.joinsInto previous node) {ref : ColumnRef Nat}
    (named : ref ∈ condition.references) : ref.source = node ∨ previous = some ref.source := by
  unfold joinsInto at joins
  split at joins
  · obtain ⟨_, before, rfl, relates⟩ := View.mem_joinsInto.1 joins
    rcases Condition.source_of_relates relates named with earlier | own
    · exact .inr (congrArg some earlier.symm)
    · exact .inl own
  · cases joins

theorem mem_guardConditions {condition : Condition Nat Literal} :
    condition ∈ blueprint.guardConditions node ↔
      ∃ guard ∈ blueprint.guards, guard.owner = node ∧ guard.condition = condition := by
  simp [guardConditions, and_assoc]

/-- What a survivor needs: a join with the one before along a chain, and guards on survivors. -/
structure Stands (blueprint : Blueprint) (previous : Option Nat) (node : Nat) : Prop where
  joined : ∀ path before, blueprint.route = .chain path → previous = some before →
    blueprint.graph.edgeBetween? before node ≠ none
  guarded : ∀ guard ∈ blueprint.guards, guard.owner = node →
    ∀ ref ∈ guard.condition.references, ref.source ∈ blueprint.survivors.order

/-- Whatever a survivor carries names survivors. -/
theorem Stands.mem_order (stands : blueprint.Stands previous node)
    (kept : node ∈ blueprint.survivors.order)
    (follows : ∀ before, previous = some before → before ∈ blueprint.survivors.order)
    {condition : Condition Nat Literal} (carried : condition ∈ blueprint.carried previous node)
    {ref : ColumnRef Nat} (named : ref ∈ condition.references) :
    ref.source ∈ blueprint.survivors.order := by
  rcases List.mem_append.1 carried with joins | guards
  · rcases mem_order_of_mem_joinsInto joins named with own | before
    · rwa [own]
    · exact follows _ before
  · obtain ⟨guard, given, owned, rfl⟩ := mem_guardConditions.1 guards
    exact stands.guarded guard given owned ref named

theorem before?_mem {order : List Nat} {place before : Nat}
    (found : before? none order place = some before) : before ∈ order := by
  cases place with
  | zero => cases found
  | succ place => exact List.mem_of_getElem? found

/-- A survivor is placed as it stands, or something breaks at its place. -/
theorem source_cases (own : blueprint.graph = JoinGraph.ofView blueprint.view) (request : Request)
    (position : Nat) {place : Nat} (named : blueprint.survivors.order[place]? = some node) :
    (∃ fault, blueprint.Breaks request fault ∧
      blueprint.source (before? none blueprint.survivors.order place) position node =
        .error (.brokenRoute fault)) ∨
    blueprint.Stands (before? none blueprint.survivors.order place) node ∧
      ∃ entry, blueprint.view.source? node = some entry ∧
        blueprint.source (before? none blueprint.survivors.order place) position node =
          .ok (blueprint.placed (before? none blueprint.survivors.order place) position node
            entry) := by
  have kept := List.mem_of_getElem? named
  cases found : blueprint.view.source? node with
  | none =>
      refine .inl ⟨.noSource node, .noSource kept found, ?_⟩
      simp only [source, found]
  | some entry =>
      rcases blueprint.joinConditions_cases own (before? none blueprint.survivors.order place) node
        with ⟨path, before, chained, follows, apart, failed⟩ | ⟨joined, succeeded⟩
      · refine .inl ⟨.noJoin before node, ?_, ?_⟩
        · cases place with
          | zero => cases follows
          | succ place => exact .noJoin chained follows named apart
        · simp only [source, found, failed]
          rfl
      · cases moved : (blueprint.carried (before? none blueprint.survivors.order place) node).mapM
            blueprint.move with
        | error error =>
            obtain ⟨condition, carried, refused⟩ := exists_of_mapM_eq_error moved
            obtain ⟨ref, mentioned, dropped, failed⟩ | ⟨_, passed⟩ := blueprint.move_cases condition
            · refine .inl ⟨.droppedReference ref.source, ?_, ?_⟩
              · rcases List.mem_append.1 carried with joins | guards
                · rcases mem_order_of_mem_joinsInto joins mentioned with same | before
                  · exact absurd (same ▸ kept) dropped
                  · exact absurd (before?_mem before) dropped
                · obtain ⟨guard, given, rfl, rfl⟩ := mem_guardConditions.1 guards
                  exact .droppedReference given kept mentioned dropped
              · obtain rfl := Except.error.inj (refused.symm.trans failed)
                simp only [source, found, bind_eq_error_iff]
                exact .inr ⟨_, succeeded, .inl moved⟩
            · cases refused.symm.trans passed
        | ok conditions =>
            refine .inr ⟨⟨joined, fun guard given owned ref mentioned => ?_⟩, entry, rfl, ?_⟩
            · obtain ⟨condition, -, passed⟩ := exists_of_mem_right (mapM_eq_ok_iff.1 moved).flip
                (List.mem_append_right _ (mem_guardConditions.2 ⟨guard, given, owned, rfl⟩))
              exact (move_eq_ok_iff.1 passed).1 ref mentioned
            · simp only [source, found, bind_eq_ok_iff]
              refine ⟨_, succeeded, conditions, moved, ?_⟩
              rw [eq_map_of_mapM (fun _ _ passed => (move_eq_ok_iff.1 passed).2) moved]
              rfl

/-! ## All sources -/

/-- Sources are built one by one, each after the one before it. -/
theorem sources_eq_ok_iff {nodes : List Nat} {sources : List View.Source} :
    blueprint.sources previous position nodes = .ok sources ↔
      sources.length = nodes.length ∧ ∀ place node, nodes[place]? = some node → ∃ source,
        blueprint.source (before? previous nodes place) (position + place) node = .ok source ∧
          sources[place]? = some source := by
  induction nodes generalizing previous position sources with
  | nil => simp [Blueprint.sources, eq_comm]
  | cons first rest ih =>
      simp only [Blueprint.sources, bind_eq_ok_iff, ih]
      constructor
      · rintro ⟨source, built, others, ⟨lengths, placed⟩, made⟩
        cases made
        refine ⟨by rw [List.length_cons, lengths, List.length_cons], fun place node named => ?_⟩
        cases place with
        | zero =>
            obtain rfl : first = node := by simpa using named
            exact ⟨source, built, rfl⟩
        | succ place =>
            obtain ⟨next, nextBuilt, held⟩ := placed place node (by simpa using named)
            refine ⟨next, ?_, held⟩
            rw [Nat.add_assoc, Nat.add_comm 1] at nextBuilt
            cases place <;> exact nextBuilt
      · rintro ⟨lengths, placed⟩
        cases sources with
        | nil => cases lengths
        | cons source others =>
            obtain ⟨_, built, same⟩ := placed 0 first rfl
            obtain rfl := Option.some.inj same
            refine ⟨_, built, others, ⟨Nat.succ.inj lengths, fun place node named => ?_⟩, rfl⟩
            obtain ⟨next, nextBuilt, held⟩ := placed (place + 1) node (by simpa using named)
            refine ⟨next, ?_, held⟩
            rw [Nat.add_assoc, Nat.add_comm 1]
            cases place <;> exact nextBuilt

/-- If sources cannot be built, one of them cannot. -/
theorem exists_of_sources_eq_error {nodes : List Nat} {error : PlanError}
    (failed : blueprint.sources previous position nodes = .error error) :
    ∃ place node, nodes[place]? = some node ∧
      blueprint.source (before? previous nodes place) (position + place) node = .error error := by
  induction nodes generalizing previous position with
  | nil => cases failed
  | cons first rest ih =>
      simp only [Blueprint.sources, bind_eq_error_iff] at failed
      obtain failed | ⟨_, -, failed | ⟨_, -, made⟩⟩ := failed
      · exact ⟨0, first, rfl, failed⟩
      · obtain ⟨place, node, named, fails⟩ := ih failed
        refine ⟨place + 1, node, by simpa using named, ?_⟩
        rw [Nat.add_assoc, Nat.add_comm 1] at fails
        cases place <;> exact fails
      · cases made

/-! ## Output columns -/

theorem relocate_lt {order : List Nat} {source : Nat} (kept : source ∈ order) :
    relocate order source < order.length := by
  obtain ⟨place, located⟩ := Option.isSome_iff_exists.1 (lastPlace?_isSome_iff.2 kept)
  rw [relocate, located, Option.getD_some]
  exact (List.getElem?_eq_some_iff.1 (getElem?_lastPlace? located)).1

theorem shows_of_project {projection : Projection} {column : OutputColumn Nat Literal}
    (succeeded : blueprint.project projection = .ok column) :
    blueprint.Shows projection column := by
  cases projection with
  | copied copy =>
      cases succeeded
      exact .copied column
  | column name wanted =>
      simp only [project] at succeeded
      split at succeeded
      · cases succeeded
      · next node stored located =>
          split at succeeded
          · cases succeeded
          · next position placed =>
              cases succeeded
              exact .column located (getElem?_lastPlace? placed)

theorem Shows.exists_located {name wanted : String} {column : OutputColumn Nat Literal}
    (shows : blueprint.Shows (.column name wanted) column) :
    ∃ node stored, blueprint.route.locate? wanted = some (node, stored) ∧
      node ∈ blueprint.survivors.order := by
  cases shows with
  | column located kept => exact ⟨_, _, located, List.mem_of_getElem? kept⟩

theorem breaks_of_project {request : Request} {projection : Projection}
    (asked : projection ∈ request.projections) {error : PlanError}
    (failed : blueprint.project projection = .error error) :
    ∃ fault, error = .brokenRoute fault ∧ blueprint.Breaks request fault := by
  cases projection with
  | copied copy => cases failed
  | column name wanted =>
      simp only [project] at failed
      split at failed
      · next lost =>
          cases failed
          exact ⟨_, rfl, .unrouted asked lost⟩
      · next node stored located =>
          split at failed
          · next missing =>
              cases failed
              refine ⟨_, rfl, .droppedColumn asked located fun kept => ?_⟩
              have placed : (blueprint.survivors.position? node).isSome := lastPlace?_isSome_iff.2 kept
              rw [missing] at placed
              cases placed
          · cases failed

/-! ## The slice -/

/-- A failure of any part is something that breaks. -/
theorem breaks_of_build (own : blueprint.graph = JoinGraph.ofView blueprint.view)
    {request : Request} {error : PlanError} (failed : blueprint.build request = .error error) :
    ∃ fault, error = .brokenRoute fault ∧ blueprint.Breaks request fault := by
  simp only [build, bind_eq_error_iff] at failed
  obtain failed | ⟨_, -, failed | ⟨_, -, made⟩⟩ := failed
  · obtain ⟨place, node, named, fails⟩ := exists_of_sources_eq_error failed
    obtain ⟨fault, breaks, reported⟩ | ⟨-, entry, -, built⟩ := source_cases own request _ named
    · exact ⟨fault, Except.error.inj (fails.symm.trans reported), breaks⟩
    · cases fails.symm.trans built
  · obtain ⟨projection, asked, fails⟩ := exists_of_mapM_eq_error failed
    exact breaks_of_project asked fails
  · cases made

/-- Where every survivor stands and every projection is shown, nothing breaks. -/
theorem not_breaks {request : Request}
    (stands : ∀ place node, blueprint.survivors.order[place]? = some node →
      blueprint.Stands (before? none blueprint.survivors.order place) node ∧
        ∃ entry, blueprint.view.source? node = some entry)
    (shown : ∀ projection ∈ request.projections, ∃ column, blueprint.Shows projection column)
    (fault : RouteFault) : ¬ blueprint.Breaks request fault := by
  intro breaks
  cases breaks with
  | noSource kept unknown =>
      obtain ⟨place, named⟩ := List.mem_iff_getElem?.1 kept
      obtain ⟨-, entry, found⟩ := stands place _ named
      cases unknown.symm.trans found
  | noJoin chained before after apart =>
      exact (stands _ _ after).1.joined _ _ chained before apart
  | droppedReference given owned named dropped =>
      obtain ⟨place, owner⟩ := List.mem_iff_getElem?.1 owned
      exact dropped ((stands place _ owner).1.guarded _ given rfl _ named)
  | unrouted asked lost =>
      obtain ⟨_, shows⟩ := shown _ asked
      obtain ⟨node, stored, located, -⟩ := shows.exists_located
      cases lost.symm.trans located
  | droppedColumn asked located dropped =>
      obtain ⟨_, shows⟩ := shown _ asked
      obtain ⟨node, stored, again, kept⟩ := shows.exists_located
      obtain ⟨rfl, -⟩ := Prod.mk.inj (Option.some.inj (located.symm.trans again))
      exact dropped kept

/-- The survivors of a slice that is built stand in it. -/
theorem stands_of_sources (own : blueprint.graph = JoinGraph.ofView blueprint.view)
    (request : Request) {sources : List View.Source}
    (built : blueprint.sources none 0 blueprint.survivors.order = .ok sources) {place node : Nat}
    (named : blueprint.survivors.order[place]? = some node) :
    blueprint.Stands (before? none blueprint.survivors.order place) node ∧
      ∃ entry, blueprint.view.source? node = some entry ∧ sources[place]? = some
        (blueprint.placed (before? none blueprint.survivors.order place) place node entry) := by
  obtain ⟨source, succeeded, held⟩ := (sources_eq_ok_iff.1 built).2 place node named
  rw [Nat.zero_add] at succeeded
  obtain ⟨fault, -, failed⟩ | ⟨stands, entry, found, same⟩ := source_cases own request place named
  · cases succeeded.symm.trans failed
  · obtain rfl := Except.ok.inj (succeeded.symm.trans same)
    exact ⟨stands, entry, found, held⟩

/-- A condition of a source that stands names positions of the slice. -/
theorem Stands.lt_of_mem_placed (stands : blueprint.Stands previous node)
    (kept : node ∈ blueprint.survivors.order)
    (follows : ∀ before, previous = some before → before ∈ blueprint.survivors.order)
    {entry : View.Source} {condition : Condition Nat Literal}
    (held : condition ∈ (blueprint.placed previous position node entry).conditions)
    {ref : ColumnRef Nat} (named : ref ∈ condition.references) :
    ref.source < blueprint.survivors.order.length := by
  obtain ⟨original, carried, rfl⟩ := List.mem_map.1 held
  rw [Condition.references_mapSource] at named
  obtain ⟨origin, declared, rfl⟩ := List.mem_map.1 named
  exact relocate_lt (stands.mem_order kept follows carried declared)

/-- A slice that is built is made of all survivors, and nothing breaks. -/
theorem assembles_of_build (own : blueprint.graph = JoinGraph.ofView blueprint.view)
    {request : Request} {slice : View} (succeeded : blueprint.build request = .ok slice) :
    blueprint.Assembles request slice ∧ ∀ fault, ¬ blueprint.Breaks request fault := by
  simp only [build, bind_eq_ok_iff] at succeeded
  obtain ⟨sources, built, columns, projected, made⟩ := succeeded
  cases made
  have lengths := (sources_eq_ok_iff.1 built).1
  have stands {place node : Nat} (named : blueprint.survivors.order[place]? = some node) :=
    stands_of_sources own request built named
  have shown : List.Forall₂ blueprint.Shows request.projections columns :=
    (mapM_eq_ok_iff.1 projected).imp fun _ _ => shows_of_project
  refine ⟨{
    name := rfl
    length := lengths
    source := fun position node named => (stands named).2
    within := ?_
    columns := shown
    reads := ?_
    literals := rfl
    filter := rfl
    keyOverride := rfl }, not_breaks (fun place node named => ?_) fun projection asked => ?_⟩
  · intro condition held ref named
    obtain ⟨source, among, own⟩ := View.mem_conditions.1 held
    obtain ⟨place, found⟩ := List.mem_iff_getElem?.1 among
    have inside : place < blueprint.survivors.order.length :=
      lengths ▸ (List.getElem?_eq_some_iff.1 found).1
    obtain ⟨standing, entry, -, same⟩ := stands (List.getElem?_eq_getElem inside)
    obtain rfl := Option.some.inj (found.symm.trans same)
    exact lengths ▸ standing.lt_of_mem_placed (List.getElem_mem inside) (fun _ => before?_mem)
      own named
  · intro column among
    obtain ⟨projection, asked, shows⟩ := exists_of_mem_right shown among
    cases shows with
    | copied => exact .inl asked
    | column located kept =>
        exact .inr ⟨_, rfl, lengths ▸ (List.getElem?_eq_some_iff.1 kept).1⟩
  · obtain ⟨standing, entry, found, -⟩ := stands named
    exact ⟨standing, entry, found⟩
  · exact (exists_of_mem_right shown.flip asked).imp fun _ => And.right

/-! ## Guards of others -/

/-- The same blueprint with other guards. -/
def withGuards (blueprint : Blueprint) (guards : List Guard) : Blueprint :=
  { blueprint with guards := guards }

theorem source_withGuards {guards : List Guard}
    (same : (blueprint.withGuards guards).guardConditions node = blueprint.guardConditions node) :
    (blueprint.withGuards guards).source previous position node =
      blueprint.source previous position node := by
  simp only [source, same]
  rfl

theorem sources_withGuards {guards : List Guard} {nodes : List Nat}
    (same : ∀ node ∈ nodes,
      (blueprint.withGuards guards).guardConditions node = blueprint.guardConditions node) :
    (blueprint.withGuards guards).sources previous position nodes =
      blueprint.sources previous position nodes := by
  induction nodes generalizing previous position with
  | nil => rfl
  | cons first rest ih =>
      obtain ⟨own, others⟩ := List.forall_mem_cons.1 same
      rw [sources, sources, source_withGuards own, ih others]

/-- A survivor keeps its guards when those on dropped sources are left out. -/
theorem filter_owner_retained {survivors : Survivors} (kept : node ∈ survivors.order)
    (guards : List Guard) :
    (guards.filter (fun guard => survivors.contains guard.owner)).filter
        (fun guard => guard.owner == node) =
      guards.filter (fun guard => guard.owner == node) := by
  rw [List.filter_filter]
  refine List.filter_congr fun guard _ => ?_
  rw [Bool.and_eq_left_iff_imp]
  intro owned
  rw [eq_of_beq owned]
  exact List.contains_iff_mem.2 kept

/-- The blueprint without the guards on sources that are dropped. -/
def retained (blueprint : Blueprint) : Blueprint :=
  blueprint.withGuards
    (blueprint.guards.filter (fun guard => blueprint.survivors.contains guard.owner))

/-- Guards on sources that are dropped make no difference. -/
theorem build_retained (blueprint : Blueprint) (request : Request) :
    blueprint.retained.build request = blueprint.build request := by
  have sources : blueprint.retained.sources none 0 blueprint.survivors.order =
      blueprint.sources none 0 blueprint.survivors.order :=
    sources_withGuards fun node kept =>
      congrArg (List.map Guard.condition) (filter_owner_retained kept blueprint.guards)
  rw [build, build]
  exact congrArg (· >>= _) sources

end Blueprint

/-! ## Whatever is given -/

variable (view : View) (route : Route) (survivors : Survivors) (guards : List Guard)
  (request : Request)

/--
A slice is assembled or not at all.  It is not exactly if something breaks, and
what is reported is one of the things that break; otherwise every survivor has
its place, and all conditions and columns are read at places of the slice.
Guards on sources that are dropped make no difference.
-/
theorem build_outcome :
    ((∃ error, (view.draft route survivors guards).build request = .error error) ↔
      ∃ fault, (view.draft route survivors guards).Breaks request fault) ∧
    (∀ error, (view.draft route survivors guards).build request = .error error →
      ∃ fault, error = .brokenRoute fault ∧
        (view.draft route survivors guards).Breaks request fault) ∧
    ((∀ fault, ¬ (view.draft route survivors guards).Breaks request fault) →
      ∃ slice, (view.draft route survivors guards).build request = .ok slice ∧
        (view.draft route survivors guards).Assembles request slice) ∧
    (view.draft route survivors guards).retained.build request =
      (view.draft route survivors guards).build request := by
  have breaks {error : PlanError}
      (failed : (view.draft route survivors guards).build request = .error error) :=
    Blueprint.breaks_of_build rfl failed
  have retained := Blueprint.build_retained (view.draft route survivors guards) request
  cases built : (view.draft route survivors guards).build request with
  | error error =>
      obtain ⟨fault, same, broken⟩ := breaks built
      refine ⟨iff_of_true ⟨error, rfl⟩ ⟨fault, broken⟩, ?_, ?_, ?_⟩
      · rintro _ ⟨⟩
        exact ⟨fault, same, broken⟩
      · exact fun fits => absurd broken (fits fault)
      · exact retained.trans built
  | ok slice =>
      obtain ⟨assembled, fits⟩ := Blueprint.assembles_of_build rfl built
      refine ⟨iff_of_false nofun fun ⟨fault, broken⟩ => fits fault broken, nofun, ?_, ?_⟩
      · exact fun _ => ⟨slice, rfl, assembled⟩
      · exact retained.trans built

/-- A guard on the customer of a note and one on the order, which is no survivor. -/
def parcelsGuards : List Guard := [
  ⟨1, ⟨.reference ⟨1, "grade"⟩, .literal ⟨"high", "3"⟩⟩⟩,
  ⟨0, ⟨.reference ⟨0, "region"⟩, .literal ⟨"kind", "parcel"⟩⟩⟩]

/-- A note may stand twice, on both sides of its customer; an order is not joined with a note. -/
theorem build_outcome_parcels :
    (∃ slice, (View.parcels.draft (.chain [2, 1]) ⟨[2, 1, 2]⟩ parcelsGuards).build
        ⟨1, [.column "customer" "id"]⟩ = .ok slice ∧
      (View.parcels.draft (.chain [2, 1]) ⟨[2, 1, 2]⟩ parcelsGuards).Assembles
        ⟨1, [.column "customer" "id"]⟩ slice) ∧
    ∃ fault, PlanError.brokenRoute (.noJoin 2 0) = .brokenRoute fault ∧
      (View.parcels.draft (.chain [2, 0]) ⟨[2, 0]⟩ parcelsGuards).Breaks
        ⟨0, [.column "order" "id"]⟩ fault := by
  obtain ⟨fails, _, assembles, _⟩ := build_outcome View.parcels (.chain [2, 1]) ⟨[2, 1, 2]⟩
    parcelsGuards ⟨1, [.column "customer" "id"]⟩
  obtain ⟨_, reports, _, _⟩ := build_outcome View.parcels (.chain [2, 0]) ⟨[2, 0]⟩
    parcelsGuards ⟨0, [.column "order" "id"]⟩
  refine ⟨assembles fun fault breaks => ?_, reports _ rfl⟩
  obtain ⟨error, failed⟩ := fails.2 ⟨fault, breaks⟩
  cases failed

end Rejoin
