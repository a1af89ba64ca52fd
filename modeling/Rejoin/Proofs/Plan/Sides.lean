import Rejoin.Proofs.Plan.Leaf
import Rejoin.Proofs.Plan.Literals
import Rejoin.Proofs.Plan.WellFormed
import Rejoin.Proofs.View.Sides

/-!
# Planning does not see the sides of conditions

Requests, paths and shortcuts are read off a view in ways that do not see which
operand of a condition stands left.  So a view with some sides exchanged has the
slices of the view itself, but for the sides of the conditions they carry over.
-/

namespace Rejoin

/-- The columns that a condition equates do not depend on its sides. -/
theorem Condition.columnsOn_swap {ℓ : Type} {first second : Nat} (apart : first ≠ second)
    (condition : Condition Nat ℓ) :
    condition.swap.columnsOn first second = condition.columnsOn first second := by
  ext ⟨own, other⟩
  rw [columnsOn_eq_some_iff apart, columnsOn_eq_some_iff apart]
  obtain ⟨left, right⟩ := condition
  simp only [swap, Equates, Condition.mk.injEq]
  tauto

/-- What a request is made of lies in no condition. -/
theorem Goal.request_unconditioned (goal : Goal) (view : View) :
    goal.request view.unconditioned = goal.request view := by
  cases goal with
  | keyPath =>
      simp only [request, View.keyPathRequest, View.main?, View.unconditioned, List.head?_map]
      cases view.sources.head? <;> rfl
  | fields target names =>
      simp only [request, View.fieldsRequest, View.source?, View.unconditioned, List.getElem?_map]
      cases view.sources[target]? <;> rfl
  | computedKey =>
      have columns : ∀ settled names, view.unconditioned.keyColumnsRequest settled names =
          view.keyColumnsRequest settled names := View.keyColumnsRequest_congr rfl rfl
      simp only [request, View.computedKeyRequest, View.unconditioned] at columns ⊢
      simp only [columns]

namespace View

variable {view slice : View} {swaps : Place → Bool} {options : Options} {start : Nat}
  {request : Request}

theorem unconditioned_swapAt : (view.swapAt swaps).unconditioned = view.unconditioned := by
  have sources : (view.swapAt swaps).sources.map Source.unconditioned =
      view.sources.map Source.unconditioned := by
    refine List.ext_getElem? fun position => ?_
    simp only [swapAt, List.getElem?_map, List.getElem?_mapIdx, Option.map_map]
    rfl
  rw [unconditioned, sources]
  rfl

theorem indexOf?_unconditioned (view : View) (anchor : String) :
    view.unconditioned.indexOf? anchor = view.indexOf? anchor := by
  simp only [indexOf?, sourceByAlias?, unconditioned, List.find?_map, Option.map_map]
  rfl

theorem indexOf?_swapAt (anchor : String) :
    (view.swapAt swaps).indexOf? anchor = view.indexOf? anchor := by
  rw [← indexOf?_unconditioned, unconditioned_swapAt, indexOf?_unconditioned]

theorem request_swapAt (goal : Goal) : goal.request (view.swapAt swaps) = goal.request view := by
  rw [← goal.request_unconditioned, unconditioned_swapAt, goal.request_unconditioned]

theorem shortestPath?_swapAt (anchor target : Nat) :
    (JoinGraph.ofView (view.swapAt swaps)).shortestPath? anchor target =
      (JoinGraph.ofView view).shortestPath? anchor target := by
  apply JoinGraph.shortestPath?_congr
  · simp only [JoinGraph.ofView, aliases_swapAt]
  · intro node
    have size : (view.swapAt swaps).sources.length = view.sources.length := List.length_mapIdx
    rw [successors_ofView, successors_ofView, size,
      filterMap_conditions_swapAt (Condition.partner?_swap node)]

theorem joinColumns_swapAt {first second : Nat} (apart : first ≠ second) :
    (view.swapAt swaps).joinColumns first second = view.joinColumns first second :=
  filterMap_conditions_swapAt (Condition.columnsOn_swap apart)

theorem joined_swapAt_iff {first second : Nat} :
    (view.swapAt swaps).Joined first second ↔ view.Joined first second := by
  simp only [Joined, ← Condition.partner?_eq_some_iff, ← List.mem_filterMap]
  rw [filterMap_conditions_swapAt (Condition.partner?_swap first)]

/-- The same shortcuts exist, with the same renames. -/
theorem find?_swapAt (anchor target : Nat) (needed : List String) :
    Shortcut.find? (view.swapAt swaps) (.ofView (view.swapAt swaps)) anchor target needed =
      Shortcut.find? view (.ofView view) anchor target needed := by
  ext found
  rw [Shortcut.find?_eq_some_iff, Shortcut.find?_eq_some_iff, joined_swapAt_iff]
  by_cases apart : anchor = target
  · simp [apart]
  · rw [joinColumns_swapAt apart]
    simp [source?_swapAt, Source.swapAt]

theorem shortcut?_swapAt :
    (view.swapAt swaps).shortcut? options start request = view.shortcut? options start request := by
  simp only [shortcut?, find?_swapAt]

/-! ## Where the conditions of a slice come from -/

/--
Every condition of the slice is a declared one of the view, both read with their
sources named by alias, and none is carried over twice.
-/
structure Originates (slice view : View) (origin : Place → Place) : Prop where
  declared : ∀ place condition, slice.condition? place = some condition →
    ∃ original, view.condition? (origin place) = some original ∧
      condition.mapSource slice.aliasAt = original.mapSource view.aliasAt
  once : ∀ place other condition otherCondition, slice.condition? place = some condition →
    slice.condition? other = some otherCondition → origin place = origin other → place = other

/-- The entry of the view that stands at a place of a slice along an order. -/
def entryAlong? (view : View) (order : List Nat) (place : Place) : Option Declared :=
  (order[place.source]?).bind (fun node =>
    (view.carriedEntries (before? none order place.source) node)[place.number]?)

/-- The place of the view from which a place of the slice is filled. -/
def originAlong (view : View) (order : List Nat) (place : Place) : Place :=
  (view.entryAlong? order place).elim place Declared.place

variable {order : List Nat} {entry : Declared} {place : Place}

theorem originAlong_eq (found : view.entryAlong? order place = some entry) :
    view.originAlong order place = entry.place := by
  rw [originAlong, found, Option.elim_some]

theorem entryAlong?_swapAt (order : List Nat) (place : Place) :
    (view.swapAt swaps).entryAlong? order place =
      (view.entryAlong? order place).map (fun entry =>
        { entry with condition := entry.condition.swapIf (swaps entry.place) }) := by
  rw [entryAlong?, entryAlong?]
  cases order[place.source]? with
  | none => rfl
  | some node => simp only [Option.bind_some, carriedEntries_swapAt, List.getElem?_map]

theorem exists_of_entryAlong? (found : view.entryAlong? order place = some entry) :
    ∃ node, order[place.source]? = some node ∧
      (view.carriedEntries (before? none order place.source) node)[place.number]? = some entry :=
  Option.bind_eq_some_iff.1 found

/-- Along an order without repetition every entry is carried by one source only. -/
theorem carrier_unique (distinct : order.Nodup) {position other node next : Nat}
    (named : order[position]? = some node) (otherNamed : order[other]? = some next)
    (carried : entry ∈ view.carriedEntries (before? none order position) node)
    (again : entry ∈ view.carriedEntries (before? none order other) next) : position = other := by
  have unique {first second source : Nat} (here : order[first]? = some source)
      (there : order[second]? = some source) : first = second := by
    have within := (List.getElem?_eq_some_iff.1 here).1
    exact (List.getElem?_inj within distinct).1 (here.trans there.symm)
  obtain ⟨_, ⟨before, earlier, joins⟩ | about⟩ := mem_carriedEntries.1 carried
  all_goals obtain ⟨_, ⟨otherBefore, otherEarlier, otherJoins⟩ | otherAbout⟩ :=
    mem_carriedEntries.1 again
  · obtain ⟨position, rfl⟩ : ∃ earlierPosition, position = earlierPosition + 1 := by
      cases position with
      | zero => cases earlier
      | succ position => exact ⟨position, rfl⟩
    obtain ⟨other, rfl⟩ : ∃ earlierPosition, other = earlierPosition + 1 := by
      cases other with
      | zero => cases otherEarlier
      | succ other => exact ⟨other, rfl⟩
    rcases Condition.relates_unique joins otherJoins with ⟨_, rfl⟩ | ⟨rfl, rfl⟩
    · exact unique named otherNamed
    · -- The join would lead from its source back to the one before.
      have first := unique earlier otherNamed
      have second := unique named otherEarlier
      omega
  · rw [Condition.not_constrains_of_relates joins] at otherAbout
    cases otherAbout
  · rw [Condition.not_constrains_of_relates otherJoins] at about
    cases about
  · obtain rfl := Condition.constrains_unique about otherAbout
    exact unique named otherNamed

namespace CutAlong

theorem condition?_eq (cut : view.CutAlong order request slice) (place : Place) :
    slice.condition? place =
      (view.entryAlong? order place).map
        (fun entry => entry.condition.mapSource (relocate order)) := by
  rw [condition?, entryAlong?]
  cases named : order[place.source]? with
  | none =>
      have beyond : slice.source? place.source = none := by
        rw [source?, List.getElem?_eq_none_iff, cut.length]
        exact List.getElem?_eq_none_iff.1 named
      rw [beyond]
      rfl
  | some node =>
      obtain ⟨source, _, moved⟩ := cut.source _ node named
      rw [moved, Option.bind_some, Option.bind_some, movedSource, List.getElem?_map,
        ← map_condition_carriedEntries, List.getElem?_map, Option.map_map]
      rfl

theorem aliasAt_relocate (cut : view.CutAlong order request slice) {node : Nat}
    (kept : order[relocate order node]? = some node) :
    slice.aliasAt (relocate order node) = view.aliasAt node := by
  rw [aliasAt, cut.aliases, List.getElem?_map, kept, Option.map_some, Option.getD_some]

theorem originates (cut : view.CutAlong order request slice) :
    slice.Originates view (view.originAlong order) where
  declared := by
    intro place condition found
    rw [cut.condition?_eq, Option.map_eq_some_iff] at found
    obtain ⟨entry, stands, rfl⟩ := found
    obtain ⟨node, named, carried⟩ := exists_of_entryAlong? stands
    have among := List.mem_of_getElem? carried
    refine ⟨entry.condition, ?_, ?_⟩
    · rw [originAlong_eq stands]
      exact condition?_of_mem_declared (mem_carriedEntries.1 among).1
    · rw [Condition.mapSource_mapSource]
      refine Condition.mapSource_congr fun ref used => ?_
      refine cut.aliasAt_relocate (cut.relocate_of_mem_carried named ?_ used).2
      rw [← map_condition_carriedEntries]
      exact List.mem_map_of_mem among
  once := by
    intro place other condition otherCondition found otherFound same
    rw [cut.condition?_eq, Option.map_eq_some_iff] at found otherFound
    obtain ⟨entry, stands, _⟩ := found
    obtain ⟨again, otherStands, _⟩ := otherFound
    rw [originAlong_eq stands, originAlong_eq otherStands] at same
    obtain ⟨node, named, carried⟩ := exists_of_entryAlong? stands
    obtain ⟨next, otherNamed, otherCarried⟩ := exists_of_entryAlong? otherStands
    have among := List.mem_of_getElem? carried
    have otherAmong := List.mem_of_getElem? otherCarried
    obtain rfl : entry = again := declared_unique (mem_carriedEntries.1 among).1
      (mem_carriedEntries.1 otherAmong).1 same
    obtain ⟨position, number⟩ := place
    obtain ⟨otherPosition, otherNumber⟩ := other
    obtain rfl : position = otherPosition :=
      carrier_unique cut.distinct named otherNamed among otherAmong
    obtain rfl : node = next := Option.some.inj (named.symm.trans otherNamed)
    have within := (List.getElem?_eq_some_iff.1 carried).1
    obtain rfl : number = otherNumber :=
      (List.getElem?_inj within (nodup_carriedEntries _ _ _)).1 (carried.trans otherCarried.symm)
    rfl

end CutAlong

/-! ## Slices of a view with exchanged sides -/

/-- Sources that agree apart from their conditions, and on these place by place, are the same. -/
theorem sources_eq_of_conditions {view other : View}
    (frames : ∀ position, (view.source? position).map Source.unconditioned =
      (other.source? position).map Source.unconditioned)
    (conditions : ∀ place, view.condition? place = other.condition? place) :
    view.sources = other.sources := by
  refine List.ext_getElem? fun position => ?_
  have framed := frames position
  have held (number : Nat) := conditions ⟨position, number⟩
  simp only [condition?] at held
  change view.source? position = other.source? position
  cases found : view.source? position with
  | none =>
      rw [found, Option.map_none] at framed
      exact (Option.map_eq_none_iff.1 framed.symm).symm
  | some source =>
      rw [found, Option.map_some] at framed
      obtain ⟨copy, otherFound, same⟩ := Option.map_eq_some_iff.1 framed.symm
      simp only [found, otherFound, Option.bind_some] at held
      obtain ⟨index, table, name, mode, schema, own⟩ := source
      obtain ⟨_, _, _, _, _, copied⟩ := copy
      simp only [Source.unconditioned, Source.mk.injEq] at same
      obtain ⟨rfl, rfl, rfl, rfl, rfl, _⟩ := same
      obtain rfl : own = copied := List.ext_getElem? held
      exact otherFound.symm

namespace LaidOut

variable {stored : String → String} {swapped : View}

/-- What the slice carries over is exchanged where the view is. -/
theorem sources_swapAt (laid : view.LaidOut order stored request slice)
    (again : (view.swapAt swaps).LaidOut order stored request swapped) :
    swapped.sources = (slice.swapAt (swaps ∘ view.originAlong order)).sources := by
  apply sources_eq_of_conditions
  · intro position
    rw [source?_swapAt, Option.map_map]
    cases named : order[position]? with
    | none =>
        have beyond := List.getElem?_eq_none_iff.1 named
        rw [source?, List.getElem?_eq_none_iff.2 (again.cut.length ▸ beyond), source?,
          List.getElem?_eq_none_iff.2 (laid.cut.length ▸ beyond)]
        rfl
    | some node =>
        obtain ⟨entry, found, moved⟩ := laid.cut.source position node named
        obtain ⟨copy, foundAgain, movedAgain⟩ := again.cut.source position node named
        obtain ⟨original, held, rfl⟩ := exists_of_source?_swapAt foundAgain
        obtain rfl := Option.some.inj (found.symm.trans held)
        rw [moved, movedAgain]
        rfl
  · intro place
    rw [condition?_swapAt, again.cut.condition?_eq, laid.cut.condition?_eq, entryAlong?_swapAt]
    cases stands : view.entryAlong? order place with
    | none => rfl
    | some entry =>
        simp only [Option.map_some, Function.comp_apply, originAlong_eq stands,
          Condition.mapSource_swapIf]

theorem literals_swapAt (laid : view.LaidOut order stored request slice)
    (again : (view.swapAt swaps).LaidOut order stored request swapped)
    (wellFormed : view.WellFormed) (fits : request.Fits view)
    (fitsAgain : request.Fits (view.swapAt swaps)) : swapped.literals.Perm slice.literals := by
  apply laid.cut.literals_perm again.cut wellFormed (wellFormed.swapAt swaps) fits fitsAgain
  intro literal
  rw [writtenLiterals, writtenLiterals, List.mem_append, List.mem_append, again.columns,
    laid.columns, laid.sources_swapAt again]
  exact or_congr_left mem_literals_swapAt

end LaidOut

/-- What a plan for the exchanged view has to be when the view itself has the slice. -/
structure SwappedSlice (slice : View) (told : Place → Bool) (swapped : View) : Prop where
  literals : swapped.literals.Perm slice.literals
  rest : swapped = { slice.swapAt told with literals := swapped.literals }

theorem LaidOut.swappedSlice {stored : String → String} {swapped : View}
    (laid : view.LaidOut order stored request slice)
    (again : (view.swapAt swaps).LaidOut order stored request swapped)
    (wellFormed : view.WellFormed) (fits : request.Fits view)
    (fitsAgain : request.Fits (view.swapAt swaps)) :
    slice.SwappedSlice (swaps ∘ view.originAlong order) swapped where
  literals := laid.literals_swapAt again wellFormed fits fitsAgain
  rest := by
    apply View.ext
    · exact again.name.trans laid.name.symm
    · exact laid.sources_swapAt again
    · exact again.columns.trans laid.columns.symm
    · exact again.cut.filter.trans laid.cut.filter.symm
    · rfl
    · exact again.cut.keyOverride.trans laid.cut.keyOverride.symm

/-- A slice has one origin of its conditions, with which it follows every exchange of sides. -/
theorem exists_origin (wellFormed : view.WellFormed) {anchor : String} {goal : Goal}
    (planned : view.plan options anchor goal = .ok (some slice)) :
    ∃ origin, slice.Originates view origin ∧ ∀ swaps, ∃ swapped,
      (view.swapAt swaps).plan options anchor goal = .ok (some swapped) ∧
        slice.SwappedSlice (swaps ∘ origin) swapped := by
  obtain ⟨start, request, anchored, made, searched⟩ := path_of_plan planned
  obtain ⟨path, found⟩ := Option.isSome_iff_exists.1 searched
  obtain ⟨same, again, laid⟩ := plan_laidOut wellFormed options anchored made found
  obtain rfl : same = slice := Option.some.inj (Except.ok.inj (again.symm.trans planned))
  have fits := goal.request_fits wellFormed made
  have replanned (swaps : Place → Bool) := plan_laidOut (wellFormed.swapAt swaps) options
    ((indexOf?_swapAt anchor).trans anchored) ((request_swapAt goal).trans made)
    ((shortestPath?_swapAt start request.target).trans found)
  have fitsAgain (swaps : Place → Bool) :=
    goal.request_fits (wellFormed.swapAt swaps) ((request_swapAt goal).trans made)
  rcases laid with ⟨shortcut, taken, laid⟩ | ⟨free, laid⟩
  · refine ⟨view.originAlong [start], laid.cut.originates, fun swaps => ?_⟩
    obtain ⟨swapped, returned, ⟨other, otherTaken, laidAgain⟩ | ⟨otherFree, _⟩⟩ := replanned swaps
    · rw [shortcut?_swapAt, taken, Option.some.injEq] at otherTaken
      subst otherTaken
      exact ⟨swapped, returned, laid.swappedSlice laidAgain wellFormed fits (fitsAgain swaps)⟩
    · rw [shortcut?_swapAt, taken] at otherFree
      cases otherFree
  · refine ⟨view.originAlong path, laid.cut.originates, fun swaps => ?_⟩
    obtain ⟨swapped, returned, ⟨other, otherTaken, _⟩ | ⟨_, laidAgain⟩⟩ := replanned swaps
    · rw [shortcut?_swapAt, free] at otherTaken
      cases otherTaken
    · exact ⟨swapped, returned, laid.swappedSlice laidAgain wellFormed fits (fitsAgain swaps)⟩

/-- No slice is planned exactly when there are an anchor and a request without a path. -/
theorem plan_eq_none_iff {anchor : String} {goal : Goal} :
    view.plan options anchor goal = .ok none ↔
      ∃ start request, view.indexOf? anchor = some start ∧ goal.request view = .ok request ∧
        (JoinGraph.ofView view).shortestPath? start request.target = none := by
  constructor
  · intro planned
    obtain ⟨start, request, anchored, made, searched⟩ := path_of_plan planned
    exact ⟨start, request, anchored, made, Option.isNone_iff_eq_none.1 (by simpa using searched)⟩
  · rintro ⟨start, request, anchored, made, missing⟩
    exact plan_eq_none anchored made missing

/--
Exchanging the sides of any conditions of a resolved view keeps it well-formed
and keeps its shortcuts.  Planning fails alike and finds no path alike; a slice
has the sides exchanged of exactly those conditions that come from exchanged
ones, at the same places, the same literals in some order, and is otherwise the
same.
-/
theorem plan_swapAt {definition : Definition} (resolved : definition.resolve = .ok view) :
    (∀ swaps, (view.swapAt swaps).WellFormed ∧
      ∀ anchor target needed,
        Shortcut.find? (view.swapAt swaps) (.ofView (view.swapAt swaps)) anchor target needed =
          Shortcut.find? view (.ofView view) anchor target needed) ∧
    ∀ options anchor goal,
      (∀ swaps error, (view.swapAt swaps).plan options anchor goal = .error error ↔
        view.plan options anchor goal = .error error) ∧
      (∀ swaps, (view.swapAt swaps).plan options anchor goal = .ok none ↔
        view.plan options anchor goal = .ok none) ∧
      ∀ slice, view.plan options anchor goal = .ok (some slice) →
        ∃ origin, slice.Originates view origin ∧ ∀ swaps, ∃ swapped,
          (view.swapAt swaps).plan options anchor goal = .ok (some swapped) ∧
            slice.SwappedSlice (swaps ∘ origin) swapped := by
  have wellFormed := (Definition.wellFormed_of_resolve resolved).1
  refine ⟨fun swaps => ⟨wellFormed.swapAt swaps, find?_swapAt⟩, fun options anchor goal =>
    ⟨fun swaps error => ?_, fun swaps => ?_, fun slice => exists_origin wellFormed⟩⟩
  · rw [plan_eq_error_iff (wellFormed.swapAt swaps), plan_eq_error_iff wellFormed]
    exact ⟨.of_unconditioned unconditioned_swapAt, .of_unconditioned unconditioned_swapAt.symm⟩
  · rw [plan_eq_none_iff, plan_eq_none_iff]
    simp only [indexOf?_swapAt, request_swapAt, shortestPath?_swapAt]

/-- Written the other way round, the join of notes with customers is so in the slice of a note. -/
theorem plan_swapAt_parcels :
    ∃ origin, parcelsOfNote.Originates parcels origin ∧ ∃ swapped,
      (parcels.swapAt (fun place => place = ⟨2, 0⟩)).plan {} "note" .keyPath = .ok (some swapped) ∧
        parcelsOfNote.SwappedSlice ((fun place => place = ⟨2, 0⟩) ∘ origin) swapped ∧
          swapped.condition? ⟨1, 0⟩ =
            some ⟨.reference ⟨1, "id"⟩, .reference ⟨0, "customer"⟩⟩ := by
  obtain ⟨_, plans⟩ := plan_swapAt parcels_resolved
  obtain ⟨_, _, slices⟩ := plans {} "note" .keyPath
  obtain ⟨origin, originates, exchanged⟩ := slices parcelsOfNote parcels_keyPath
  obtain ⟨swapped, returned, alike⟩ := exchanged (fun place => place = ⟨2, 0⟩)
  refine ⟨origin, originates, swapped, returned, alike, ?_⟩
  have evaluated : (parcels.swapAt (fun place => place = ⟨2, 0⟩)).plan {} "note" .keyPath =
      .ok (some _) := rfl
  obtain rfl := Option.some.inj (Except.ok.inj (evaluated.symm.trans returned))
  rfl

end View

end Rejoin
