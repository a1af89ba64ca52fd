import Rejoin.Proofs.Plan.Layout

/-!
# The outcome of planning

Planning is refused for an unknown anchor or for a goal that does not fit the
view, which the conditions of the view have no part in.  Otherwise there is a
slice exactly if a chain of joins leads from the anchor to the goal's target.
-/

namespace Rejoin

/-- The columns that key names read; those of computed columns are passed over. -/
def View.keyReferences (view : View) (names : List String) : List (ColumnRef Nat) :=
  names.filterMap (fun name =>
    (view.column? name).bind (fun column => column.origin.reference?))

namespace Goal

/-- What is wrong with a goal for a view. -/
inductive Misfit (view : View) : Goal → PlanError → Prop where
  | noSource {target : Nat} {names : List String} (beyond : view.sources.length ≤ target) :
      Misfit view (.fields target names) (.invalidArgument (.noSource target))
  | unknownField {target : Nat} {source : View.Source} {before after : List String}
      {field : String} (found : view.source? target = some source)
      (existing : ∀ name ∈ before, name ∈ source.schema.columnNames)
      (missing : field ∉ source.schema.columnNames) :
      Misfit view (.fields target (before ++ field :: after)) (.unknownField source.name field)
  | noKey (absent : view.keyOverride = none) :
      Misfit view .computedKey (.invalidArgument (.noKeyOverride view.name))
  | emptyKey (empty : view.keyOverride = some []) :
      Misfit view .computedKey (.invalidArgument (.emptyKeyOverride view.name))
  | scatteredKey {names : List String} {first second : ColumnRef Nat}
      (key : view.keyOverride = some names) (firstRead : first ∈ view.keyReferences names)
      (secondRead : second ∈ view.keyReferences names) (apart : first.source ≠ second.source) :
      Misfit view .computedKey (.invalidArgument (.scatteredKey view.name))

/-- The source that a goal wants columns of; a key without references is that of MAIN. -/
inductive Targets (view : View) : Goal → Nat → Prop where
  | keyPath : Targets view .keyPath 0
  | fields {target : Nat} {names : List String} : Targets view (.fields target names) target
  | referencedKey {names : List String} {ref : ColumnRef Nat}
      (key : view.keyOverride = some names) (read : ref ∈ view.keyReferences names) :
      Targets view .computedKey ref.source
  | computedKey {names : List String} (key : view.keyOverride = some names)
      (free : view.keyReferences names = []) : Targets view .computedKey 0

end Goal

/-- Why planning is refused. -/
inductive View.Refused (view : View) (anchor : String) (goal : Goal) : PlanError → Prop where
  | unknownAnchor (unknown : anchor ∉ view.aliases) :
      Refused view anchor goal (.invalidArgument (.unknownAnchor anchor view.name))
  | misfit {error : PlanError} (known : anchor ∈ view.aliases) (misfit : goal.Misfit view error) :
      Refused view anchor goal error

/-! ## When a request is made -/

namespace View

variable {view : View}

/-- The first requested name that the source does not have is reported. -/
theorem fieldsRequest_eq_error_iff {target : Nat} {names : List String} {error : PlanError} :
    view.fieldsRequest target names = .error error ↔
      (Goal.fields target names).Misfit view error := by
  unfold fieldsRequest
  constructor
  · intro refused
    split at refused
    · next missing =>
        cases refused
        exact .noSource (List.getElem?_eq_none_iff.1 missing)
    · next source found =>
        split at refused
        · cases refused
        · split at refused
          · next unknown selected =>
              cases refused
              obtain ⟨missing, before, after, rfl, existing⟩ :=
                List.find?_eq_some_iff_append.1 selected
              refine .unknownField found (fun name among => ?_) ?_
              · simpa [Schema.hasColumn_iff] using existing name among
              · simpa [← Schema.hasColumn_iff] using missing
          · cases refused
  · intro misfit
    cases misfit with
    | noSource beyond =>
        have missing : view.source? target = none := List.getElem?_eq_none_iff.2 beyond
        rw [missing]
    | @unknownField _ source before after field found existing missing =>
        have selected : (before ++ field :: after).find?
            (fun name => !source.schema.hasColumn name) = some field := by
          refine List.find?_eq_some_iff_append.2
            ⟨by simpa [← Schema.hasColumn_iff] using missing, before, after, rfl, ?_⟩
          intro name among
          simpa [Schema.hasColumn_iff] using existing name among
        simp only [found, selected]
        simp

theorem keyColumnsRequest_computed {settled : Option Nat} {name : String} {rest : List String}
    {column : OutputColumn Nat Literal} (found : view.column? name = some column)
    (computed : column.origin.reference? = none) :
    view.keyColumnsRequest settled (name :: rest) =
      (view.keyColumnsRequest settled rest).map (Request.project (.copied column)) := by
  obtain ⟨columnName, ref | ⟨expression, literal⟩⟩ := column
  · cases computed
  · rw [keyColumnsRequest, found]

theorem keyColumnsRequest_referenced {settled : Option Nat} {name : String} {rest : List String}
    {column : OutputColumn Nat Literal} {ref : ColumnRef Nat}
    (found : view.column? name = some column) (read : column.origin.reference? = some ref) :
    view.keyColumnsRequest settled (name :: rest) =
      if settled.any (fun target => target != ref.source) then
        .error (.invalidArgument (.scatteredKey view.name))
      else
        (view.keyColumnsRequest (some ref.source) rest).map
          (Request.project (.column column.name ref.column)) := by
  obtain ⟨columnName, ref | ⟨expression, literal⟩⟩ := column
  · cases read
    rw [keyColumnsRequest, found]
  · cases read

/--
A key whose names are output columns makes a request of the one source that it
reads, or reads two sources; `settled` is the source read before.
-/
theorem keyColumnsRequest_cases {names : List String} (settled : Option Nat)
    (known : ∀ name ∈ names, ∃ column, view.column? name = some column) :
    (∃ request, view.keyColumnsRequest settled names = .ok request ∧
      (∀ ref ∈ view.keyReferences names, ref.source = request.target) ∧
      (∀ target, settled = some target → request.target = target) ∧
      (settled = none → view.keyReferences names = [] → request.target = 0)) ∨
    view.keyColumnsRequest settled names = .error (.invalidArgument (.scatteredKey view.name)) ∧
      ∃ ref ∈ view.keyReferences names, settled.any (fun target => target != ref.source) ∨
        ∃ other ∈ view.keyReferences names, ref.source ≠ other.source := by
  induction names generalizing settled with
  | nil =>
      refine .inl ⟨_, rfl, nofun, ?_, ?_⟩
      · rintro target rfl
        rfl
      · rintro rfl _
        rfl
  | cons name rest ih =>
      obtain ⟨column, found⟩ := known name List.mem_cons_self
      have knownRest : ∀ name ∈ rest, ∃ column, view.column? name = some column :=
        fun other among => known other (List.mem_cons_of_mem _ among)
      cases origin : column.origin.reference? with
      | none =>
          have reads : view.keyReferences (name :: rest) = view.keyReferences rest := by
            simp [keyReferences, found, origin]
          rw [reads, keyColumnsRequest_computed found origin]
          rcases ih settled knownRest with ⟨request, made, same⟩ | ⟨refused, scattered⟩
          · rw [made]
            exact .inl ⟨_, rfl, same⟩
          · rw [refused]
            exact .inr ⟨rfl, scattered⟩
      | some ref =>
          have reads : view.keyReferences (name :: rest) = ref :: view.keyReferences rest := by
            simp [keyReferences, found, origin]
          rw [reads, keyColumnsRequest_referenced found origin]
          split
          · next strays => exact .inr ⟨rfl, ref, List.mem_cons_self, .inl strays⟩
          · next stays =>
              rcases ih (some ref.source) knownRest with
                ⟨request, made, same, target, _⟩ | ⟨refused, other, among, apart⟩
              · have aims : request.target = ref.source := target ref.source rfl
                rw [made]
                refine .inl ⟨_, rfl, ?_, ?_, nofun⟩
                · intro other among
                  rcases List.mem_cons.1 among with rfl | later
                  · exact aims.symm
                  · exact same other later
                · rintro earlier rfl
                  exact aims.trans (by simpa using stays : earlier = ref.source).symm
              · rw [refused]
                refine .inr ⟨rfl, ?_⟩
                rcases apart with here | ⟨third, later, apart⟩
                · exact ⟨ref, List.mem_cons_self, .inr ⟨other, List.mem_cons_of_mem _ among,
                    by simpa using here⟩⟩
                · exact ⟨other, List.mem_cons_of_mem _ among,
                    .inr ⟨third, List.mem_cons_of_mem _ later, apart⟩⟩

/-- On a well-formed view every name of the key override is that of an output column. -/
theorem WellFormed.exists_column? (wellFormed : view.WellFormed) {names : List String}
    (key : view.keyOverride = some names) {name : String} (among : name ∈ names) :
    ∃ column, view.column? name = some column := by
  obtain ⟨column, held, same⟩ := List.mem_map.1 (wellFormed.keyNames names key name among)
  apply Option.isSome_iff_exists.1
  rw [column?, List.find?_isSome]
  exact ⟨column, held, by simpa using same⟩

/-- A goal either misfits the view in one way, or makes a request of the one source it targets. -/
def Answered (view : View) (goal : Goal) : Except PlanError Request → Prop
  | .error error => ∀ other, goal.Misfit view other ↔ other = error
  | .ok request => (∀ error, ¬ goal.Misfit view error) ∧
      ∀ target, goal.Targets view target ↔ target = request.target

theorem keyPathRequest_answered (wellFormed : view.WellFormed) :
    view.Answered .keyPath view.keyPathRequest := by
  obtain ⟨main, others, sources⟩ := List.exists_cons_of_ne_nil wellFormed.nonempty
  have led : view.main? = some main := by rw [main?, sources, List.head?_cons]
  rw [keyPathRequest, led]
  refine ⟨fun error misfit => ?_, fun target => ⟨?_, ?_⟩⟩
  · cases misfit
  · rintro ⟨⟩
    rfl
  · rintro rfl
    exact .keyPath

theorem fieldsRequest_answered {target : Nat} {names : List String} :
    view.Answered (.fields target names) (view.fieldsRequest target names) := by
  cases made : view.fieldsRequest target names with
  | error error =>
      intro other
      rw [← fieldsRequest_eq_error_iff, made, Except.error.injEq, eq_comm]
  | ok request =>
      refine ⟨fun error misfit => ?_, fun other => ?_⟩
      · rw [← fieldsRequest_eq_error_iff, made] at misfit
        cases misfit
      · obtain ⟨source, _, _, rfl⟩ := fieldsRequest_eq_ok_iff.1 made
        constructor
        · rintro ⟨⟩
          rfl
        · rintro rfl
          exact .fields

theorem computedKeyRequest_answered (wellFormed : view.WellFormed) :
    view.Answered .computedKey view.computedKeyRequest := by
  unfold computedKeyRequest
  split
  · next absent =>
      intro other
      constructor
      · intro misfit
        cases misfit <;> simp_all
      · rintro rfl
        exact .noKey absent
  · next empty =>
      intro other
      constructor
      · intro misfit
        cases misfit with
        | noKey absent => simp [empty] at absent
        | emptyKey _ => rfl
        | scatteredKey key firstRead =>
            obtain rfl := Option.some.inj (empty.symm.trans key)
            cases firstRead
      · rintro rfl
        exact .emptyKey empty
  · next names nonempty key =>
      rcases keyColumnsRequest_cases none
          (fun name among => wellFormed.exists_column? key among) with
        ⟨request, made, same, _, free⟩ | ⟨refused, first, firstRead, apart⟩
      · rw [made]
        refine ⟨fun error misfit => ?_, fun target => ⟨?_, ?_⟩⟩
        · cases misfit with
          | noKey absent => simp [key] at absent
          | emptyKey empty => exact nonempty (Option.some.inj (key.symm.trans empty))
          | scatteredKey again firstRead secondRead apart =>
              obtain rfl := Option.some.inj (key.symm.trans again)
              exact apart ((same _ firstRead).trans (same _ secondRead).symm)
        · rintro (_ | _ | ⟨again, read⟩ | ⟨again, none⟩)
          · obtain rfl := Option.some.inj (key.symm.trans again)
            exact same _ read
          · obtain rfl := Option.some.inj (key.symm.trans again)
            exact (free rfl none).symm
        · rintro rfl
          cases reads : view.keyReferences names with
          | nil =>
              rw [free rfl reads]
              exact .computedKey key reads
          | cons ref others =>
              have read : ref ∈ view.keyReferences names := by simp [reads]
              rw [← same ref read]
              exact .referencedKey key read
      · rw [refused]
        obtain ⟨second, secondRead, apart⟩ := apart.resolve_left (by simp)
        intro other
        constructor
        · intro misfit
          cases misfit with
          | noKey absent => simp [key] at absent
          | emptyKey empty => exact absurd (Option.some.inj (key.symm.trans empty)) nonempty
          | scatteredKey => rfl
        · rintro rfl
          exact .scatteredKey key firstRead secondRead apart

theorem request_answered (wellFormed : view.WellFormed) (goal : Goal) :
    view.Answered goal (goal.request view) := by
  cases goal with
  | keyPath => exact keyPathRequest_answered wellFormed
  | fields target names => exact fieldsRequest_answered
  | computedKey => exact computedKeyRequest_answered wellFormed

/-! ## When a slice exists -/

variable {options : Options} {anchor : String} {goal : Goal} {start : Nat} {request : Request}

/-- A request that no path is found for has no slice. -/
theorem plan_eq_none (anchored : view.indexOf? anchor = some start)
    (made : goal.request view = .ok request)
    (unreached : (JoinGraph.ofView view).shortestPath? start request.target = none) :
    view.plan options anchor goal = .ok none := by
  unfold plan
  simp only [anchored]
  refine bind_eq_ok_iff.2 ⟨request, made, ?_⟩
  simp only [unreached]
  rfl

theorem contains_iff {node : Nat} :
    (JoinGraph.ofView view).contains node = true ↔ ∃ source, view.source? node = some source := by
  rw [contains_ofView, exists_source?_iff]

/-- A path is found to every source of the view that joins lead to. -/
theorem WellFormed.exists_path (wellFormed : view.WellFormed) {target : Nat} {path : List Nat}
    (known : ∃ source, view.source? target = some source)
    (chain : Chain view.Joined start target path) :
    ∃ found, (JoinGraph.ofView view).shortestPath? start target = some found := by
  rw [← wellFormed.linked_eq_joined] at chain
  exact (JoinGraph.exists_shortestPath?_iff (contains_iff.2 known)).2 ⟨path, chain⟩

/-- A request with an anchor has a slice exactly if joins lead from there to its target. -/
theorem plan_of_request (wellFormed : view.WellFormed) (options : Options)
    (anchored : view.indexOf? anchor = some start) (made : goal.request view = .ok request) :
    view.plan options anchor goal = .ok none ∧
        (¬ ∃ path, Chain view.Joined start request.target path) ∨
      (∃ slice, view.plan options anchor goal = .ok (some slice)) ∧
        ∃ path, Chain view.Joined start request.target path := by
  cases found : (JoinGraph.ofView view).shortestPath? start request.target with
  | none =>
      refine .inl ⟨plan_eq_none anchored made found, ?_⟩
      rintro ⟨path, chain⟩
      obtain ⟨least, reached⟩ :=
        wellFormed.exists_path (goal.request_fits wellFormed made).target chain
      cases found.symm.trans reached
  | some path =>
      obtain ⟨slice, planned, _⟩ := plan_laidOut wellFormed options anchored made found
      refine .inr ⟨⟨slice, planned⟩, path, ?_⟩
      rw [← wellFormed.linked_eq_joined]
      exact (JoinGraph.shortestPath?_shortest found).chain

theorem WellFormed.indexOf?_eq_some_iff_alias (wellFormed : view.WellFormed) :
    view.indexOf? anchor = some start ↔ view.aliases[start]? = some anchor := by
  rw [wellFormed.indexOf?_eq_some_iff, aliases_getElem?, Option.map_eq_some_iff]

theorem WellFormed.exists_indexOf? (wellFormed : view.WellFormed) (known : anchor ∈ view.aliases) :
    ∃ start, view.indexOf? anchor = some start := by
  obtain ⟨start, named⟩ := List.mem_iff_getElem?.1 known
  exact ⟨start, wellFormed.indexOf?_eq_some_iff_alias.2 named⟩

/-- Planning fails for the reasons for which it is refused and for no others. -/
theorem plan_eq_error_iff (wellFormed : view.WellFormed) {error : PlanError} :
    view.plan options anchor goal = .error error ↔ view.Refused anchor goal error := by
  have answered := view.request_answered wellFormed goal
  cases anchored : view.indexOf? anchor with
  | none =>
      have unknown : anchor ∉ view.aliases := by
        intro among
        obtain ⟨start, found⟩ := wellFormed.exists_indexOf? among
        cases anchored.symm.trans found
      simp only [plan, anchored, Except.error.injEq]
      constructor
      · rintro rfl
        exact .unknownAnchor unknown
      · intro refused
        cases refused with
        | unknownAnchor => rfl
        | misfit known => exact absurd known unknown
  | some start =>
      have known : anchor ∈ view.aliases :=
        List.mem_of_getElem? (wellFormed.indexOf?_eq_some_iff_alias.1 anchored)
      have refused_iff : view.Refused anchor goal error ↔ goal.Misfit view error := by
        constructor
        · intro refused
          cases refused with
          | unknownAnchor unknown => exact absurd known unknown
          | misfit _ misfit => exact misfit
        · exact .misfit known
      rw [refused_iff]
      cases made : goal.request view with
      | error fault =>
          rw [made] at answered
          rw [answered error]
          simp only [plan, anchored, made]
          exact ⟨fun same => (Except.error.inj same).symm, fun same => by rw [same]; rfl⟩
      | ok request =>
          rw [made] at answered
          refine iff_of_false (fun failed => ?_) (answered.1 error)
          rcases plan_of_request wellFormed options anchored made with
            ⟨planned, _⟩ | ⟨⟨_, planned⟩, _⟩
          · cases failed.symm.trans planned
          · cases failed.symm.trans planned

/-- What is not refused has an anchor and makes a request of the one source it targets. -/
theorem exists_request (wellFormed : view.WellFormed)
    (accepted : ∀ error, ¬ view.Refused anchor goal error) :
    ∃ start request, view.indexOf? anchor = some start ∧ goal.request view = .ok request ∧
      ∀ target, goal.Targets view target ↔ target = request.target := by
  have known : anchor ∈ view.aliases := by
    by_contra unknown
    exact accepted _ (.unknownAnchor unknown)
  obtain ⟨start, anchored⟩ := wellFormed.exists_indexOf? known
  have answered := view.request_answered wellFormed goal
  cases made : goal.request view with
  | error fault =>
      rw [made] at answered
      exact absurd (.misfit known ((answered fault).2 rfl)) (accepted fault)
  | ok request =>
      rw [made] at answered
      exact ⟨start, request, anchored, rfl, answered.2⟩

/-! ## Conditions and failures -/

/-- A source without its conditions. -/
def Source.unconditioned (source : Source) : Source :=
  { source with conditions := [] }

/-- The view with every condition struck out. -/
def unconditioned (view : View) : View :=
  { view with sources := view.sources.map Source.unconditioned }

/-- Whatever planning is refused for does not lie in the conditions. -/
theorem Refused.of_unconditioned {other : View} (same : view.unconditioned = other.unconditioned)
    {error : PlanError} (refused : view.Refused anchor goal error) :
    other.Refused anchor goal error := by
  have name : view.name = other.name := by
    simpa [unconditioned] using congrArg View.name same
  have columns : view.columns = other.columns := by
    simpa [unconditioned] using congrArg View.columns same
  have key : view.keyOverride = other.keyOverride := by
    simpa [unconditioned] using congrArg View.keyOverride same
  have aliases : view.aliases = other.aliases := by
    simpa [unconditioned, View.aliases, Source.unconditioned, Function.comp_def] using
      congrArg View.aliases same
  have size : view.sources.length = other.sources.length := by
    simpa [unconditioned] using congrArg (fun view => view.sources.length) same
  have sources (target : Nat) : (view.source? target).map Source.unconditioned =
      (other.source? target).map Source.unconditioned := by
    simpa [unconditioned, source?] using congrArg (fun view => view.source? target) same
  have references (names : List String) : view.keyReferences names = other.keyReferences names := by
    simp only [keyReferences, column?, columns]
  cases refused with
  | unknownAnchor unknown =>
      rw [name]
      exact .unknownAnchor (aliases ▸ unknown)
  | misfit known misfit =>
      refine .misfit (aliases ▸ known) ?_
      cases misfit with
      | noSource beyond => exact .noSource (size ▸ beyond)
      | @unknownField target source _ _ _ found existing missing =>
          have held := sources target
          rw [found] at held
          obtain ⟨entry, otherFound, alike⟩ := Option.map_eq_some_iff.1 held.symm
          have called : entry.name = source.name := by
            simpa [Source.unconditioned] using congrArg Source.name alike
          have schema : entry.schema = source.schema := by
            simpa [Source.unconditioned] using congrArg Source.schema alike
          rw [← called]
          rw [← schema] at existing missing
          exact .unknownField otherFound existing missing
      | noKey absent =>
          rw [name]
          exact .noKey (key ▸ absent)
      | emptyKey empty =>
          rw [name]
          exact .emptyKey (key ▸ empty)
      | scatteredKey declared firstRead secondRead apart =>
          rw [name]
          exact .scatteredKey (key ▸ declared) (references _ ▸ firstRead)
            (references _ ▸ secondRead) apart

/--
Planning fails exactly when it is refused.  Otherwise the goal has one target,
and there is a slice or none according to whether joins lead there from the
anchor.  Views that differ in their conditions alone fail alike, with any options.
-/
theorem plan_outcome {definition : Definition} {view : View}
    (resolved : definition.resolve = .ok view) (options : Options) (anchor : String)
    (goal : Goal) :
    (∀ error, view.plan options anchor goal = .error error ↔ view.Refused anchor goal error) ∧
    ((∀ error, ¬ view.Refused anchor goal error) →
      ∃ start target, view.aliases[start]? = some anchor ∧
        (∀ other, goal.Targets view other ↔ other = target) ∧
        (view.plan options anchor goal = .ok none ↔
          ¬ ∃ path, Chain view.Joined start target path) ∧
        ((∃ slice, view.plan options anchor goal = .ok (some slice)) ↔
          ∃ path, Chain view.Joined start target path)) ∧
    ∀ (otherDefinition : Definition) (other : View), otherDefinition.resolve = .ok other →
      other.unconditioned = view.unconditioned → ∀ (otherOptions : Options) (error : PlanError),
        other.plan otherOptions anchor goal = .error error ↔
          view.plan options anchor goal = .error error := by
  have wellFormed := (Definition.wellFormed_of_resolve resolved).1
  refine ⟨fun error => plan_eq_error_iff wellFormed, fun accepted => ?_, ?_⟩
  · obtain ⟨start, request, anchored, made, targets⟩ := exists_request wellFormed accepted
    refine ⟨start, request.target, wellFormed.indexOf?_eq_some_iff_alias.1 anchored, targets, ?_⟩
    rcases plan_of_request wellFormed options anchored made with
      ⟨planned, unlinked⟩ | ⟨⟨slice, planned⟩, linked⟩
    · simp [planned, unlinked]
    · simp [planned, linked]
  · intro otherDefinition other otherResolved same otherOptions error
    have otherWellFormed := (Definition.wellFormed_of_resolve otherResolved).1
    rw [plan_eq_error_iff otherWellFormed, plan_eq_error_iff wellFormed]
    exact ⟨.of_unconditioned same, .of_unconditioned same.symm⟩

/-- Customers have no rank, which a note is told of; the key path is a chain of joins. -/
theorem plan_outcome_parcels :
    parcels.Refused "note" (.fields 1 ["id", "rank"]) (.unknownField "customer" "rank") ∧
      ∃ path, Chain parcels.Joined 2 0 path := by
  constructor
  · exact ((plan_outcome parcels_resolved {} "note" (.fields 1 ["id", "rank"])).1 _).1 rfl
  · obtain ⟨fails, linked, _⟩ := plan_outcome parcels_resolved {} "note" .keyPath
    have planned : parcels.plan {} "note" .keyPath = .ok (some parcelsOfNote) := parcels_keyPath
    have accepted (error : PlanError) : ¬ parcels.Refused "note" .keyPath error := by
      rw [← fails error, planned]
      nofun
    obtain ⟨start, target, named, targets, _, sliced⟩ := linked accepted
    obtain rfl : 0 = target := (targets 0).1 .keyPath
    obtain rfl : 2 = start := by
      have wellFormed := (Definition.wellFormed_of_resolve parcels_resolved).1
      exact Option.some.inj (wellFormed.indexOf?_eq_some_iff_alias.2 named)
    exact sliced.1 ⟨_, planned⟩

end View

end Rejoin
