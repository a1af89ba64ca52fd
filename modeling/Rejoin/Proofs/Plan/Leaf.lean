import Rejoin.Proofs.JoinGraph.Leaf
import Rejoin.Proofs.Plan.Outcome

/-!
# Views with one more leaf

A leaf is a last source whose conditions are on itself or join it with one other
source.  Between the other sources it changes nothing that planning looks at:
neither the requests, nor the paths, nor the shortcuts, nor what a source of a
slice carries.  So planning there returns what it returns without the leaf.
-/

namespace Rejoin

/-- Key columns are found by the output columns alone, and refused by the name of the view. -/
theorem View.keyColumnsRequest_congr {view other : View} (name : other.name = view.name)
    (columns : other.columns = view.columns) (settled : Option Nat) (names : List String) :
    other.keyColumnsRequest settled names = view.keyColumnsRequest settled names := by
  induction names generalizing settled with
  | nil => rfl
  | cons first rest ih => simp only [keyColumnsRequest, column?, name, columns, ih]

namespace View

/--
The larger view has one more source, the last, and maybe more literals.  Its
conditions are on the leaf or compare literals, and name no other source than the
leaf and the hub.
-/
structure AddsLeaf (view larger : View) (leaf : Source) (hub : Nat) : Prop where
  name : larger.name = view.name
  sources : larger.sources = view.sources ++ [leaf]
  columns : larger.columns = view.columns
  filter : larger.filter = view.filter
  literals : view.literals ⊆ larger.literals
  keyOverride : larger.keyOverride = view.keyOverride
  own : ∀ condition ∈ leaf.conditions, condition.references = [] ∨
    ∃ ref ∈ condition.references, ref.source = view.sources.length
  attached : ∀ condition ∈ leaf.conditions, ∀ ref ∈ condition.references,
    ref.source = view.sources.length ∨ ref.source = hub

namespace AddsLeaf

variable {view larger : View} {leaf : Source} {hub : Nat}

theorem conditions_eq (adds : view.AddsLeaf larger leaf hub) :
    larger.conditions = view.conditions ++ leaf.conditions := by
  simp [conditions, adds.sources]

theorem source?_eq (adds : view.AddsLeaf larger leaf hub) {node : Nat}
    (below : node < view.sources.length) : larger.source? node = view.source? node := by
  rw [source?, source?, adds.sources, List.getElem?_append_left below]

theorem index_eq (adds : view.AddsLeaf larger leaf hub) (largerFormed : larger.WellFormed) :
    leaf.index = view.sources.length := by
  apply largerFormed.indexed
  rw [source?, adds.sources, List.getElem?_concat_length]

/-! ## The conditions of the leaf -/

section Conditions

variable {condition : Condition Nat Literal} {first second node : Nat}

/-- Every condition of the leaf is about the leaf. -/
theorem mem_subjects (adds : view.AddsLeaf larger leaf hub)
    (declared : condition ∈ leaf.conditions) :
    view.sources.length ∈ condition.subjects view.sources.length := by
  rcases adds.own condition declared with none | ⟨ref, among, same⟩
  · simp [Condition.subjects, none]
  · have subject : ref.source ∈ condition.subjects view.sources.length :=
      Condition.mem_subjects_of_mem_references among
    rwa [same] at subject

/-- A condition of the leaf joins no two other sources. -/
theorem not_relates (adds : view.AddsLeaf larger leaf hub) (declared : condition ∈ leaf.conditions)
    (firstApart : first ≠ view.sources.length) (secondApart : second ≠ view.sources.length) :
    ¬ condition.relates first second = true := by
  intro joins
  rcases Condition.subject_of_relates joins (adds.mem_subjects declared) with same | same
  · exact firstApart same.symm
  · exact secondApart same.symm

/-- A condition of the leaf is on no other source alone. -/
theorem not_constrains (adds : view.AddsLeaf larger leaf hub)
    (declared : condition ∈ leaf.conditions) (apart : node ≠ view.sources.length) :
    ¬ condition.constrains view.sources.length node = true := by
  intro about
  exact apart (Condition.subject_of_constrains about (adds.mem_subjects declared)).symm

theorem joinsBetween_eq (adds : view.AddsLeaf larger leaf hub)
    (firstApart : first ≠ view.sources.length) (secondApart : second ≠ view.sources.length) :
    larger.joinsBetween first second = view.joinsBetween first second := by
  have none : leaf.conditions.filter (fun condition => condition.relates first second) = [] :=
    List.filter_eq_nil_iff.2 fun _ declared => adds.not_relates declared firstApart secondApart
  rw [joinsBetween, adds.conditions_eq, List.filter_append, none, List.append_nil, joinsBetween]

theorem guardsOn_eq (adds : view.AddsLeaf larger leaf hub) (largerFormed : larger.WellFormed)
    (apart : node ≠ view.sources.length) : larger.guardsOn node = view.guardsOn node := by
  have none : leaf.conditions.filter
      (fun condition => condition.constrains leaf.index node) = [] := by
    rw [adds.index_eq largerFormed]
    exact List.filter_eq_nil_iff.2 fun _ declared => adds.not_constrains declared apart
  simp only [guardsOn, conditionsWhere, adds.sources, List.flatMap_append, List.flatMap_singleton,
    none, List.append_nil]

/-- What a source of a slice carries is not changed by the leaf. -/
theorem carried_eq (adds : view.AddsLeaf larger leaf hub) (largerFormed : larger.WellFormed)
    {previous : Option Nat}
    (earlier : ∀ before, previous = some before → before ≠ view.sources.length)
    (apart : node ≠ view.sources.length) :
    larger.carried previous node = view.carried previous node := by
  rw [carried, carried, adds.guardsOn_eq largerFormed apart]
  cases previous with
  | none => rfl
  | some before => rw [joinsInto, joinsInto, adds.joinsBetween_eq (earlier before rfl) apart]

theorem joined_iff (adds : view.AddsLeaf larger leaf hub)
    (firstApart : first ≠ view.sources.length) (secondApart : second ≠ view.sources.length) :
    larger.Joined first second ↔ view.Joined first second := by
  constructor
  · rintro ⟨condition, declared, joins⟩
    rw [adds.conditions_eq] at declared
    rcases List.mem_append.1 declared with old | new
    · exact ⟨condition, old, joins⟩
    · exact absurd joins (adds.not_relates new firstApart secondApart)
  · rintro ⟨condition, declared, joins⟩
    exact ⟨condition, adds.conditions_eq ▸ List.mem_append_left _ declared, joins⟩

/-- The leaf is joined with the hub at most. -/
theorem eq_hub_of_joined (adds : view.AddsLeaf larger leaf hub) (wellFormed : view.WellFormed)
    (joined : larger.Joined view.sources.length node) : node = hub := by
  have apart := joined.ne
  obtain ⟨condition, declared, joins⟩ := joined
  rw [adds.conditions_eq] at declared
  rcases List.mem_append.1 declared with old | new
  · exact absurd (wellFormed.lt_of_joined ⟨condition, old, joins⟩) (Nat.lt_irrefl _)
  · obtain ⟨ref, among, rfl⟩ := Condition.exists_reference_of_relates joins
    exact (adds.attached condition new ref among).resolve_left apart.symm

/-! ## Paths and shortcuts beside the leaf -/

/-- From any other source the search steps to the same sources, the leaf apart. -/
theorem filter_successors (adds : view.AddsLeaf larger leaf hub) (wellFormed : view.WellFormed)
    (apart : node ≠ view.sources.length) :
    ((JoinGraph.ofView larger).successors node).filter (fun next => next != view.sources.length) =
      (JoinGraph.ofView view).successors node := by
  have old : ∀ next ∈ view.conditions.filterMap (Condition.partner? node),
      next ≠ view.sources.length := by
    intro next among
    obtain ⟨condition, declared, joins⟩ := List.mem_filterMap.1 among
    have joined : view.Joined node next :=
      ⟨condition, declared, Condition.partner?_eq_some_iff.1 joins⟩
    exact Nat.ne_of_lt (wellFormed.lt_of_joined joined.symm)
  have new : ∀ next ∈ leaf.conditions.filterMap (Condition.partner? node),
      next = view.sources.length := by
    intro next among
    obtain ⟨condition, declared, joins⟩ := List.mem_filterMap.1 among
    by_contra other
    exact adds.not_relates declared apart other (Condition.partner?_eq_some_iff.1 joins)
  have partners : (larger.conditions.filterMap (Condition.partner? node)).filter
      (fun next => next != view.sources.length) =
        view.conditions.filterMap (Condition.partner? node) := by
    rw [adds.conditions_eq, List.filterMap_append, List.filter_append,
      List.filter_eq_self.2 (by simpa using old), List.filter_eq_nil_iff.2 (by simpa using new),
      List.append_nil]
  have size : larger.sources.length = view.sources.length + 1 := by
    rw [adds.sources, List.length_append, List.length_singleton]
  have range : node < view.sources.length + 1 ↔ node < view.sources.length := by omega
  simp only [successors_ofView, size, range]
  split
  · rw [← partners]
    exact filter_eraseDupsBy id (fun next => next != view.sources.length) _
  · rfl

/-- The join graph of the larger view has one more leaf. -/
theorem joinGraph (adds : view.AddsLeaf larger leaf hub) (wellFormed : view.WellFormed) :
    (JoinGraph.ofView view).AddsLeaf (JoinGraph.ofView larger) view.sources.length hub where
  size := by simp [JoinGraph.ofView, aliases]
  largeSize := by simp [JoinGraph.ofView, aliases, adds.sources]
  others := fun _ apart => adds.filter_successors wellFormed apart
  fromLeaf := fun _ link => adds.eq_hub_of_joined wellFormed (linked_iff.1 link).2
  toLeaf := fun _ link => adds.eq_hub_of_joined wellFormed (linked_iff.1 link).2.symm

theorem shortcut?_eq (adds : view.AddsLeaf larger leaf hub) {options : Options} {start : Nat}
    {request : Request} (anchored : start < view.sources.length)
    (aimed : request.target < view.sources.length) :
    larger.shortcut? options start request = view.shortcut? options start request := by
  have joins := adds.joined_iff (Nat.ne_of_lt anchored) (Nat.ne_of_lt aimed)
  ext found
  rw [shortcut?_eq_some_iff, shortcut?_eq_some_iff, Shortcut.find?_eq_some_iff,
    Shortcut.find?_eq_some_iff, joins, adds.source?_eq anchored]
  by_cases apart : start = request.target
  · simp [apart]
  · rw [joinColumns_eq_filterMap apart, joinColumns_eq_filterMap apart,
      adds.joinsBetween_eq (Nat.ne_of_lt anchored) (Nat.ne_of_lt aimed)]

end Conditions

/-! ## Requests -/

theorem request_eq (adds : view.AddsLeaf larger leaf hub) (nonempty : view.sources ≠ [])
    {goal : Goal} (aimed : ∀ target names, goal = .fields target names →
      target < view.sources.length) :
    goal.request larger = goal.request view := by
  cases goal with
  | keyPath =>
      have main : larger.main? = view.main? := by
        rw [main?, main?, adds.sources, List.head?_append_of_ne_nil _ nonempty]
      simp only [Goal.request, keyPathRequest, main, adds.name]
  | fields target names =>
      simp only [Goal.request, fieldsRequest, adds.source?_eq (aimed target names rfl)]
  | computedKey =>
      simp only [Goal.request, computedKeyRequest, adds.keyOverride, adds.name,
        keyColumnsRequest_congr adds.name adds.columns]

/-- The sources of the smaller view are found at their positions. -/
theorem indexOf?_eq (adds : view.AddsLeaf larger leaf hub) (wellFormed : view.WellFormed)
    (largerFormed : larger.WellFormed) {anchor : String} {start : Nat}
    (anchored : view.indexOf? anchor = some start) : larger.indexOf? anchor = some start := by
  rw [wellFormed.indexOf?_eq_some_iff] at anchored
  rw [largerFormed.indexOf?_eq_some_iff]
  obtain ⟨source, found, named⟩ := anchored
  exact ⟨source, (adds.source?_eq (exists_source?_iff.1 ⟨source, found⟩)).trans found, named⟩

/-! ## Slices -/

/-- Along an order without the leaf both views have the same slice. -/
theorem slice_eq (adds : view.AddsLeaf larger leaf hub) (largerFormed : larger.WellFormed)
    {order : List Nat} {stored : String → String} {request : Request} {slice copy : View}
    (within : ∀ node ∈ order, node < view.sources.length)
    (laid : larger.LaidOut order stored request slice)
    (again : view.LaidOut order stored request copy) : slice = copy := by
  refine laid.eq_of_agree again adds.name fun position node named => ?_
  have below := within node (List.mem_of_getElem? named)
  refine ⟨adds.source?_eq below, adds.carried_eq largerFormed (fun before earlier => ?_)
    (Nat.ne_of_lt below)⟩
  cases position with
  | zero => cases earlier
  | succ position => exact Nat.ne_of_lt (within before (List.mem_of_getElem? earlier))

end AddsLeaf

variable {view larger : View} {leaf : Source} {hub : Nat}

/-- Planning for a request that both views make returns the same. -/
theorem AddsLeaf.plan_eq_of_request (adds : view.AddsLeaf larger leaf hub)
    (wellFormed : view.WellFormed) (largerFormed : larger.WellFormed) {anchor : String}
    {goal : Goal} {start : Nat} {request : Request} (anchored : view.indexOf? anchor = some start)
    (made : goal.request view = .ok request) (largerMade : goal.request larger = .ok request)
    (options : Options) :
    larger.plan options anchor goal = view.plan options anchor goal := by
  have largerAnchored := adds.indexOf?_eq wellFormed largerFormed anchored
  obtain ⟨source, anchorFound, _⟩ := wellFormed.indexOf?_eq_some_iff.1 anchored
  have known := (goal.request_fits wellFormed made).target
  have startBelow := exists_source?_iff.1 ⟨source, anchorFound⟩
  have targetBelow := exists_source?_iff.1 known
  have paths := (adds.joinGraph wellFormed).shortestPath?_eq
    (contains_iff.2 ⟨source, anchorFound⟩) (contains_iff.2 known)
  cases found : (JoinGraph.ofView view).shortestPath? start request.target with
  | none =>
      rw [plan_eq_none anchored made found,
        plan_eq_none largerAnchored largerMade (paths.trans found)]
  | some path =>
      obtain ⟨slice, planned, laid⟩ := plan_laidOut wellFormed options anchored made found
      obtain ⟨copy, largerPlanned, largerLaid⟩ :=
        plan_laidOut largerFormed options largerAnchored largerMade (paths.trans found)
      rw [planned, largerPlanned]
      rw [adds.shortcut?_eq startBelow targetBelow] at largerLaid
      have chain := (JoinGraph.shortestPath?_shortest found).chain
      rw [wellFormed.linked_eq_joined] at chain
      have within := chain.forall_mem (fun _ _ joined => wellFormed.lt_of_joined joined) targetBelow
      rcases laid with ⟨shortcut, taken, laid⟩ | ⟨free, laid⟩
      · rcases largerLaid with ⟨other, again, largerLaid⟩ | ⟨free, _⟩
        · obtain rfl : other = shortcut := Option.some.inj (again.symm.trans taken)
          rw [adds.slice_eq largerFormed (by simpa using startBelow) largerLaid laid]
        · cases free.symm.trans taken
      · rcases largerLaid with ⟨other, taken, _⟩ | ⟨_, largerLaid⟩
        · cases free.symm.trans taken
        · rw [adds.slice_eq largerFormed within largerLaid laid]

/--
A leaf disturbs no plan between the other sources: from each of them, for a goal
whose target is one of them and with any options, planning returns the same
failure, no slice in both views or the same slice.
-/
theorem plan_beside_leaf {definition largerDefinition : Definition}
    (resolved : definition.resolve = .ok view)
    (largerResolved : largerDefinition.resolve = .ok larger)
    (adds : view.AddsLeaf larger leaf hub) {anchor : String} (known : anchor ∈ view.aliases)
    {goal : Goal} (aimed : ∀ target names, goal = .fields target names →
      target < view.sources.length) (options : Options) :
    larger.plan options anchor goal = view.plan options anchor goal := by
  have wellFormed := (Definition.wellFormed_of_resolve resolved).1
  have largerFormed := (Definition.wellFormed_of_resolve largerResolved).1
  obtain ⟨start, named⟩ := List.mem_iff_getElem?.1 known
  have anchored := wellFormed.indexOf?_eq_some_iff_alias.2 named
  have largerAnchored := adds.indexOf?_eq wellFormed largerFormed anchored
  have requests := adds.request_eq wellFormed.nonempty aimed
  cases made : goal.request view with
  | error fault =>
      simp only [plan, anchored, largerAnchored, requests, made]
      rfl
  | ok request =>
      exact adds.plan_eq_of_request wellFormed largerFormed anchored made (requests.trans made)
        options

/-- The first reply to a customer, which joins the parcels with the customers alone. -/
def replies : Source :=
  ⟨3, "notes", "reply", .left, .notes,
    [⟨.reference ⟨1, "id"⟩, .reference ⟨3, "customer"⟩⟩,
      ⟨.reference ⟨3, "id"⟩, .literal ⟨"first", "1"⟩⟩]⟩

def parcelsWithReplies : View :=
  { parcels with
    sources := parcels.sources ++ [replies]
    literals := parcels.literals ++ [⟨"first", "1"⟩] }

/-- The orders of a note are recovered as without the replies. -/
theorem plan_beside_leaf_parcels :
    parcelsWithReplies.plan {} "note" .keyPath = .ok (some parcelsOfNote) := by
  have adds : parcels.AddsLeaf parcelsWithReplies replies 1 := {
    name := rfl
    sources := rfl
    columns := rfl
    filter := rfl
    literals := List.subset_append_left _ _
    keyOverride := rfl
    own := by decide
    attached := by decide }
  have resolved : parcelsWithReplies.unresolve.resolve = .ok parcelsWithReplies := rfl
  have same : parcelsWithReplies.plan {} "note" .keyPath = parcels.plan {} "note" .keyPath :=
    plan_beside_leaf parcels_resolved resolved adds (by decide) (fun _ _ same => by cases same) {}
  exact same.trans parcels_keyPath

end View

end Rejoin
