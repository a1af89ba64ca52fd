import Rejoin.Proofs.Plan.Absorption
import Rejoin.Proofs.Plan.Literals

/-!
# The order of a request

A slice is cut by the set of columns that its goal asks for.  In which order they
are asked for, and how often, shows in the output columns alone and in the order
of the literals that these bring along.
-/

namespace Rejoin

/-- Planning fails alike, finds no slice in both cases, or gives related slices. -/
inductive PlannedAlike (related : View → View → Prop) :
    Except PlanError (Option View) → Except PlanError (Option View) → Prop where
  | refused (error : PlanError) : PlannedAlike related (.error error) (.error error)
  | unlinked : PlannedAlike related (.ok none) (.ok none)
  | sliced {slice copy : View} (alike : related slice copy) :
      PlannedAlike related (.ok (some slice)) (.ok (some copy))

theorem PlannedAlike.imp {related closer : View → View → Prop}
    {outcome other : Except PlanError (Option View)} (alike : PlannedAlike related outcome other)
    (implies : ∀ slice copy, outcome = .ok (some slice) → other = .ok (some copy) →
      related slice copy → closer slice copy) : PlannedAlike closer outcome other := by
  cases alike with
  | refused error => exact .refused error
  | unlinked => exact .unlinked
  | sliced alike => exact .sliced (implies _ _ rfl rfl alike)

namespace View

variable {view other slice copy : View} {options : Options} {anchor : String} {goal aim : Goal}
  {start target : Nat} {order : List Nat} {stored : String → String} {request : Request}
  {rule : String → Projection} {names others : List String}

/--
Two slices show the same output columns by name, each those of its list of names,
and are the same in all else but the order of the literals.
-/
structure Reordered (names others : List String) (slice copy : View) : Prop where
  columns : ∃ output : String → OutputColumn Nat Literal,
    (∀ name, (output name).name = name) ∧
      slice.columns = names.map output ∧ copy.columns = others.map output
  literals : copy.literals.Perm slice.literals
  rest : copy = { slice with columns := copy.columns, literals := copy.literals }

/-- Each of the slices has the output columns of its list of names. -/
theorem Reordered.names_eq (reordered : Reordered names others slice copy) :
    slice.columns.map OutputColumn.name = names ∧ copy.columns.map OutputColumn.name = others := by
  obtain ⟨output, called, shown, shownAgain⟩ := reordered.columns
  have plain (names : List String) : (names.map output).map OutputColumn.name = names := by
    simp only [List.map_map, Function.comp_def, called, List.map_id']
  rw [shown, shownAgain]
  exact ⟨plain names, plain others⟩

/-- The view without its overriding key. -/
def unkeyed (view : View) : View :=
  { view with keyOverride := none }

/-- What does not look at the key is the same of views that differ in the key alone. -/
theorem read_eq {β : Type} (read : View → β)
    (ignores : ∀ view : View, read view.unkeyed = read view)
    (same : other.unkeyed = view.unkeyed) : read other = read view := by
  rw [← ignores other, same, ignores view]

/-! ## Two requests for the same names -/

theorem mem_needed_map_iff (target : Nat) (rule : String → Projection)
    (among : ∀ name, name ∈ others ↔ name ∈ names) (column : String) :
    column ∈ (⟨target, others.map rule⟩ : Request).needed ↔
      column ∈ (⟨target, names.map rule⟩ : Request).needed := by
  simp only [Request.mem_needed, List.mem_map, among]

/-- A shortcut for some names is one for the same names in another order. -/
theorem exists_shortcut?_map (among : ∀ name, name ∈ others ↔ name ∈ names) {found : Shortcut}
    (taken : view.shortcut? options start ⟨target, names.map rule⟩ = some found) :
    ∃ again, view.shortcut? options start ⟨target, others.map rule⟩ = some again ∧
      ∀ column ∈ (⟨target, others.map rule⟩ : Request).needed,
        again.stored column = found.stored column := by
  have needed := mem_needed_map_iff target rule among
  obtain ⟨allowed, shortened⟩ := shortcut?_eq_some_iff.1 taken
  obtain ⟨again, shortenedAgain⟩ :=
    exists_find?_iff.2 ((exists_find?_iff.1 ⟨found, shortened⟩).of_mem_iff needed)
  refine ⟨again, shortcut?_eq_some_iff.2 ⟨allowed, shortenedAgain⟩, fun column wanted => ?_⟩
  exact Shortcut.stored_eq shortened shortenedAgain ((needed column).1 wanted) wanted

/-- Of where columns are stored only the needed ones count. -/
theorem LaidOut.restored {kept : String → String} (laid : view.LaidOut order stored request slice)
    (same : ∀ column ∈ request.needed, stored column = kept column) :
    view.LaidOut order kept request slice where
  name := laid.name
  cut := laid.cut
  columns := by
    rw [laid.columns]
    refine List.map_congr_left fun projection requested => ?_
    cases projection with
    | copied copied => rfl
    | column name wanted =>
        rw [Projection.output, Projection.output,
          same wanted (Request.mem_needed.2 ⟨name, requested⟩)]

/-- Requests for the same names are answered along one order, or by no slice. -/
theorem plan_laidOut_alike (options : Options) (wellFormed : view.WellFormed)
    (otherFormed : other.WellFormed) (same : other.unkeyed = view.unkeyed)
    (among : ∀ name, name ∈ others ↔ name ∈ names)
    (anchored : view.indexOf? anchor = some start)
    (made : goal.request view = .ok ⟨target, names.map rule⟩)
    (madeAgain : aim.request other = .ok ⟨target, others.map rule⟩) :
    PlannedAlike (fun slice copy => ∃ order stored,
        view.LaidOut order stored ⟨target, names.map rule⟩ slice ∧
          other.LaidOut order stored ⟨target, others.map rule⟩ copy)
      (view.plan options anchor goal) (other.plan options anchor aim) := by
  have anchoredAgain : other.indexOf? anchor = some start :=
    (read_eq (fun view => view.indexOf? anchor) (fun _ => rfl) same).trans anchored
  have graph := read_eq JoinGraph.ofView (fun _ => rfl) same
  have shortcuts (request : Request) :=
    read_eq (fun view => view.shortcut? options start request) (fun _ => rfl) same
  cases found : (JoinGraph.ofView view).shortestPath? start target with
  | none =>
      rw [plan_eq_none anchored made found, plan_eq_none anchoredAgain madeAgain (graph ▸ found)]
      exact .unlinked
  | some path =>
      obtain ⟨slice, planned, laid⟩ := plan_laidOut wellFormed options anchored made found
      obtain ⟨copy, copied, laidAgain⟩ :=
        plan_laidOut otherFormed options anchoredAgain madeAgain (graph ▸ found)
      rw [shortcuts] at laidAgain
      rw [planned, copied]
      apply PlannedAlike.sliced
      -- what is needed is the same set, so both take the shortcut or neither does
      rcases laid with ⟨shortcut, taken, laid⟩ | ⟨free, laid⟩
      · obtain ⟨again, takenAgain, agree⟩ := exists_shortcut?_map among taken
        rcases laidAgain with ⟨held, takenHeld, laidAgain⟩ | ⟨freeAgain, _⟩
        · obtain rfl : held = again := Option.some.inj (takenHeld.symm.trans takenAgain)
          exact ⟨[start], shortcut.stored, laid, laidAgain.restored agree⟩
        · cases freeAgain.symm.trans takenAgain
      · rcases laidAgain with ⟨again, takenAgain, _⟩ | ⟨_, laidAgain⟩
        · obtain ⟨shortcut, taken, _⟩ :=
            exists_shortcut?_map (fun name => (among name).symm) takenAgain
          cases free.symm.trans taken
        · exact ⟨path, id, laid, laidAgain⟩

/-- What is written in a slice does not depend on the order of its columns. -/
theorem mem_writtenLiterals_iff {literal : Literal} (sources : copy.sources = slice.sources)
    (columns : ∀ column, column ∈ copy.columns ↔ column ∈ slice.columns) :
    literal ∈ writtenLiterals copy.sources copy.columns ↔
      literal ∈ writtenLiterals slice.sources slice.columns := by
  simp only [writtenLiterals, List.mem_append, List.mem_filterMap, sources, columns]

/-- Slices for the same names along one order differ in the order of the columns. -/
theorem LaidOut.reordered (laid : view.LaidOut order stored ⟨target, names.map rule⟩ slice)
    (again : other.LaidOut order stored ⟨target, others.map rule⟩ copy)
    (wellFormed : view.WellFormed) (otherFormed : other.WellFormed)
    (fits : (⟨target, names.map rule⟩ : Request).Fits view)
    (fitsAgain : (⟨target, others.map rule⟩ : Request).Fits other)
    (same : other.unkeyed = view.unkeyed) (among : ∀ name, name ∈ others ↔ name ∈ names)
    (called : ∀ name position, ((rule name).output position stored).name = name) :
    Reordered names others slice copy := by
  have sources : copy.sources = slice.sources := by
    refine again.cut.sources_eq_of_agree laid.cut fun position node _ => ⟨?_, ?_⟩
    · exact read_eq (fun view => view.source? node) (fun _ => rfl) same
    · exact read_eq (fun view => view.carried (before? none order position) node)
        (fun _ => rfl) same
  have shown := laid.columns
  have shownAgain := again.columns
  rw [List.map_map] at shown shownAgain
  constructor
  case columns => exact ⟨_, fun name => called name _, shown, shownAgain⟩
  case literals =>
    refine laid.cut.literals_perm again.cut wellFormed otherFormed fits fitsAgain fun literal =>
      mem_writtenLiterals_iff sources fun column => ?_
    simp only [shown, shownAgain, List.mem_map, among]
  case rest =>
    apply View.ext
    · exact again.name.trans ((read_eq View.name (fun _ => rfl) same).trans laid.name.symm)
    · exact sources
    · rfl
    · exact again.cut.filter.trans laid.cut.filter.symm
    · rfl
    · exact again.cut.keyOverride.trans laid.cut.keyOverride.symm

/--
Planning goes alike for two goals that are refused alike or ask one target for
what the same names stand for.
-/
theorem plan_reordered (wellFormed : view.WellFormed) (otherFormed : other.WellFormed)
    (same : other.unkeyed = view.unkeyed) (among : ∀ name, name ∈ others ↔ name ∈ names)
    (called : ∀ name position stored, ((rule name).output position stored).name = name)
    (requested : (∃ error, goal.request view = .error error ∧ aim.request other = .error error) ∨
      ∃ target, goal.request view = .ok ⟨target, names.map rule⟩ ∧
        aim.request other = .ok ⟨target, others.map rule⟩) :
    PlannedAlike (Reordered names others)
      (view.plan options anchor goal) (other.plan options anchor aim) := by
  have name := read_eq View.name (fun _ => rfl) same
  have index := read_eq (fun view => view.indexOf? anchor) (fun _ => rfl) same
  cases anchored : view.indexOf? anchor with
  | none =>
      rw [anchored] at index
      simp only [plan, anchored, index, name]
      exact .refused _
  | some start =>
      rcases requested with ⟨error, made, madeAgain⟩ | ⟨target, made, madeAgain⟩
      · rw [anchored] at index
        simp only [plan, anchored, index, made, madeAgain]
        exact .refused error
      · have alike := plan_laidOut_alike options wellFormed otherFormed same among anchored
          made madeAgain
        refine alike.imp fun slice copy _ _ => ?_
        rintro ⟨order, stored, laid, again⟩
        exact laid.reordered again wellFormed otherFormed (goal.request_fits wellFormed made)
          (aim.request_fits otherFormed madeAgain) same among
          fun name position => called name position stored

/-! ## Fields -/

/-- Fields bring no literals along; a slice of them has those of its conditions. -/
theorem literals_of_fields (wellFormed : view.WellFormed)
    (planned : view.plan options anchor (.fields target names) = .ok (some slice)) :
    slice.literals = usedLiterals slice.sources [] := by
  obtain ⟨_, request, _, _, _, made, _, _, cut⟩ := plan_cases wellFormed planned
  have unbound : slice.columns.filterMap (fun column => column.origin.literal?) = [] := by
    rw [List.eq_nil_iff_forall_not_mem]
    intro literal bound
    obtain ⟨_, copies, _⟩ := (cut.binds_iff made).1 bound
    cases copies
  rw [cut.literals, usedLiterals, unbound, usedLiterals, List.filterMap_nil]

/-- Lists of fields that come to the same names are planned alike, with the same literals. -/
theorem fields_reordered {first second : List String} (options : Options) (anchor : String)
    (wellFormed : view.WellFormed) (among : ∀ name, name ∈ others ↔ name ∈ names)
    (made : view.fieldsRequest target first = .ok ⟨target, names.map Projection.ofName⟩)
    (madeAgain : view.fieldsRequest target second = .ok ⟨target, others.map Projection.ofName⟩) :
    PlannedAlike (fun slice copy => Reordered names others slice copy ∧
        copy.literals = slice.literals)
      (view.plan options anchor (.fields target first))
      (view.plan options anchor (.fields target second)) := by
  have alike : PlannedAlike (Reordered names others)
      (view.plan options anchor (.fields target first))
      (view.plan options anchor (.fields target second)) :=
    plan_reordered wellFormed wellFormed rfl among (fun _ _ _ => rfl)
      (.inr ⟨target, made, madeAgain⟩)
  refine alike.imp fun slice copy planned copied reordered => ⟨reordered, ?_⟩
  have sources : copy.sources = slice.sources := by rw [reordered.rest]
  rw [literals_of_fields wellFormed planned, literals_of_fields wellFormed copied, sources]

theorem fieldsRequest_named {source : Source} (found : view.source? target = some source)
    (named : names ≠ []) (existing : ∀ name ∈ names, name ∈ source.schema.columnNames) :
    view.fieldsRequest target names = .ok ⟨target, names.eraseDups.map Projection.ofName⟩ := by
  refine fieldsRequest_eq_ok_iff.2 ⟨source, found, existing, ?_⟩
  simp [named]

/-- Existing fields of an existing source are planned from every known anchor. -/
theorem fieldsFrom_succeeds (wellFormed : view.WellFormed) {source : Source} {index : Nat}
    (located : view.indexOf? source.name = some index) (found : view.source? index = some source)
    (existing : ∀ name ∈ names, name ∈ source.schema.columnNames)
    (known : anchor ∈ view.aliases) (error : PlanError) :
    view.fieldsFrom options anchor source.name names ≠ .error error := by
  obtain ⟨start, anchored⟩ := wellFormed.exists_indexOf? known
  have made : (Goal.fields index names).request view = .ok _ :=
    fieldsRequest_eq_ok_iff.2 ⟨source, found, existing, rfl⟩
  simp only [fieldsFrom, located]
  rcases plan_of_request wellFormed options anchored made with
    ⟨planned, _⟩ | ⟨⟨slice, planned⟩, _⟩
  · simp [planned]
  · simp [planned]

/-! ## Keys -/

/-- The views have the same key in another order and are otherwise the same. -/
structure KeysPermuted (view other : View) (names others : List String) : Prop where
  rest : other.unkeyed = view.unkeyed
  key : view.keyOverride = some names
  otherKey : other.keyOverride = some others
  permuted : others.Perm names

/-- What a key name stands for; one without an output column stands for itself. -/
def keyProjection (view : View) (name : String) : Projection :=
  match view.column? name with
  | none => .ofName name
  | some column =>
      match column.origin.reference? with
      | some ref => .column name ref.column
      | none => .copied column

theorem AsksByName.eq_keyProjection {name : String} {projection : Projection}
    (asks : view.AsksByName name projection) : projection = view.keyProjection name := by
  cases asks with
  | @computed column found computed =>
      have plain : column.origin.reference? = none := by
        simpa [OutputColumn.isComputed] using computed
      simp only [keyProjection, found, plain]
  | referenced found read => simp only [keyProjection, found, read]

theorem output_keyProjection (view : View) (name : String) (position : Nat)
    (stored : String → String) :
    ((view.keyProjection name).output position stored).name = name := by
  unfold keyProjection
  split
  · rfl
  · next column found =>
      split
      · rfl
      · change column.name = name
        simpa using List.find?_some found

/-- The overriding key requests what its names stand for. -/
theorem projections_computedKey (key : view.keyOverride = some names)
    (made : Goal.computedKey.request view = .ok request) :
    request.projections = names.map view.keyProjection := by
  have asks := request_asks made
  generalize request.projections = projections at asks ⊢
  cases asks with
  | computedKey again asked =>
      obtain rfl := Option.some.inj (key.symm.trans again)
      exact eq_map_of_forall₂ (asked.imp fun _ _ => AsksByName.eq_keyProjection)

namespace KeysPermuted

variable {error : PlanError}

theorem symm (permuted : view.KeysPermuted other names others) :
    other.KeysPermuted view others names :=
  ⟨permuted.rest.symm, permuted.otherKey, permuted.key, permuted.permuted.symm⟩

theorem mem_keyReferences (permuted : view.KeysPermuted other names others) {ref : ColumnRef Nat} :
    ref ∈ other.keyReferences others ↔ ref ∈ view.keyReferences names := by
  rw [read_eq (fun view => view.keyReferences others) (fun _ => rfl) permuted.rest]
  exact (permuted.permuted.filterMap _).mem_iff

/-- A permuted key is refused for the same reason. -/
theorem misfit (permuted : view.KeysPermuted other names others)
    (refused : Goal.computedKey.Misfit view error) : Goal.computedKey.Misfit other error := by
  have name : view.name = other.name := read_eq View.name (fun _ => rfl) permuted.rest.symm
  cases refused with
  | noKey absent => cases permuted.key.symm.trans absent
  | emptyKey empty =>
      obtain rfl := Option.some.inj (permuted.key.symm.trans empty)
      rw [name]
      exact .emptyKey (permuted.permuted.eq_nil ▸ permuted.otherKey)
  | scatteredKey key firstRead secondRead apart =>
      obtain rfl := Option.some.inj (permuted.key.symm.trans key)
      rw [name]
      exact .scatteredKey permuted.otherKey (permuted.mem_keyReferences.2 firstRead)
        (permuted.mem_keyReferences.2 secondRead) apart

/-- A permuted key reads the same target. -/
theorem targets (permuted : view.KeysPermuted other names others)
    (aimed : Goal.computedKey.Targets view target) : Goal.computedKey.Targets other target := by
  cases aimed with
  | referencedKey key read =>
      obtain rfl := Option.some.inj (permuted.key.symm.trans key)
      exact .referencedKey permuted.otherKey (permuted.mem_keyReferences.2 read)
  | computedKey key free =>
      obtain rfl := Option.some.inj (permuted.key.symm.trans key)
      refine .computedKey permuted.otherKey (List.eq_nil_iff_forall_not_mem.2 fun ref read => ?_)
      rw [permuted.mem_keyReferences, free] at read
      cases read

/-- Both keys make no request, for one reason, or ask one target for what their names stand for. -/
theorem requested (permuted : view.KeysPermuted other names others)
    (wellFormed : view.WellFormed) (otherFormed : other.WellFormed) :
    (∃ error, Goal.computedKey.request view = .error error ∧
        Goal.computedKey.request other = .error error) ∨
      ∃ target, Goal.computedKey.request view = .ok ⟨target, names.map view.keyProjection⟩ ∧
        Goal.computedKey.request other = .ok ⟨target, others.map view.keyProjection⟩ := by
  have answered := view.request_answered wellFormed .computedKey
  have answeredAgain := other.request_answered otherFormed .computedKey
  cases made : Goal.computedKey.request view with
  | error error =>
      rw [made] at answered
      have misfit := permuted.misfit ((answered error).2 rfl)
      cases madeAgain : Goal.computedKey.request other with
      | error fault =>
          rw [madeAgain] at answeredAgain
          obtain rfl := (answeredAgain error).1 misfit
          exact .inl ⟨_, rfl, rfl⟩
      | ok asked =>
          rw [madeAgain] at answeredAgain
          exact absurd misfit (answeredAgain.1 error)
  | ok request =>
      rw [made] at answered
      cases madeAgain : Goal.computedKey.request other with
      | error fault =>
          rw [madeAgain] at answeredAgain
          exact absurd (permuted.symm.misfit ((answeredAgain fault).2 rfl)) (answered.1 fault)
      | ok asked =>
          rw [madeAgain] at answeredAgain
          have target := (answeredAgain.2 _).1 (permuted.targets ((answered.2 _).2 rfl))
          have shown := projections_computedKey permuted.key made
          have shownAgain := projections_computedKey permuted.otherKey madeAgain
          rw [read_eq keyProjection (fun _ => rfl) permuted.rest] at shownAgain
          refine .inr ⟨request.target, ?_, ?_⟩
          · rw [← shown]
          · rw [← shownAgain, target]

end KeysPermuted

/--
Fields that are named in another order or more than once show in another order,
that of their first use, and nothing else in a slice changes.  A permuted key
permutes the output columns and maybe the literals.
-/
theorem order_of_request {definition : Definition} (resolved : definition.resolve = .ok view)
    (options : Options) (anchor : String) :
    (∀ (target : String) (names others : List String), names ≠ [] → others ≠ [] →
      (∀ name, name ∈ others ↔ name ∈ names) →
      (∀ source ∈ view.sources, source.name = target →
        ∀ name ∈ names, name ∈ source.schema.columnNames) →
      (anchor ∈ view.aliases → target ∈ view.aliases →
        ∀ error, view.fieldsFrom options anchor target names ≠ .error error) ∧
      ∃ fields order, FirstUses names fields ∧ FirstUses others order ∧
        PlannedAlike (fun slice copy => Reordered fields order slice copy ∧
            copy.literals = slice.literals)
          (view.fieldsFrom options anchor target names)
          (view.fieldsFrom options anchor target others)) ∧
    ∀ (otherDefinition : Definition) (other : View) (names others : List String),
      otherDefinition.resolve = .ok other → view.KeysPermuted other names others →
        PlannedAlike (Reordered names others)
          (view.computedKey options anchor) (other.computedKey options anchor) := by
  have wellFormed := (Definition.wellFormed_of_resolve resolved).1
  constructor
  · intro target names others named namedAgain among existing
    have distinctAmong (name : String) : name ∈ others.eraseDups ↔ name ∈ names.eraseDups := by
      rw [List.mem_eraseDups, List.mem_eraseDups, among]
    cases located : view.indexOf? target with
    | none =>
        refine ⟨fun _ known => ?_, _, _, firstUses_eraseDups names, firstUses_eraseDups others, ?_⟩
        · obtain ⟨index, found⟩ := wellFormed.exists_indexOf? known
          cases located.symm.trans found
        · simp only [fieldsFrom, located]
          exact .refused _
    | some index =>
        obtain ⟨source, found, rfl⟩ := wellFormed.indexOf?_eq_some_iff.1 located
        have columns := existing source (source?_mem found) rfl
        have made := fieldsRequest_named found named columns
        have madeAgain := fieldsRequest_named found namedAgain
          fun name asked => columns name ((among name).1 asked)
        refine ⟨fun known _ => fieldsFrom_succeeds wellFormed located found columns known, _, _,
          firstUses_eraseDups names, firstUses_eraseDups others, ?_⟩
        simp only [fieldsFrom, located]
        exact fields_reordered options anchor wellFormed distinctAmong made madeAgain
  · intro otherDefinition other names others otherResolved permuted
    have otherFormed := (Definition.wellFormed_of_resolve otherResolved).1
    exact plan_reordered wellFormed otherFormed permuted.rest
      (fun name => permuted.permuted.mem_iff)
      view.output_keyProjection
      (permuted.requested wellFormed otherFormed)

/-- The customer of an order is shown with the region first or last; so is the kind of a parcel. -/
theorem order_of_request_parcels :
    (∃ slice copy fields, FirstUses ["region", "id", "region"] fields ∧
      parcels.fieldsFrom {} "order" "customer" ["region", "id", "region"] = .ok (some slice) ∧
      parcels.fieldsFrom {} "order" "customer" ["id", "region"] = .ok (some copy) ∧
      slice.columns.map OutputColumn.name = fields ∧
      copy = { slice with columns := copy.columns, literals := copy.literals }) ∧
    PlannedAlike (Reordered ["order", "kind"] ["kind", "order"]) (parcels.computedKey {} "note")
      ({ parcels with keyOverride := some ["kind", "order"] }.computedKey {} "note") := by
  obtain ⟨fieldsAlike, keysAlike⟩ := order_of_request parcels_resolved {} "order"
  obtain ⟨_, fields, _, first, _, alike⟩ := fieldsAlike "customer" ["region", "id", "region"]
    ["id", "region"] (by decide) (by decide) (by simp [or_comm]) (by decide)
  constructor
  · have planned : parcels.fieldsFrom {} "order" "customer" ["region", "id", "region"] =
        .ok (some _) := rfl
    have copied : parcels.fieldsFrom {} "order" "customer" ["id", "region"] = .ok (some _) := rfl
    rw [planned, copied] at alike
    cases alike with
    | sliced alike =>
        exact ⟨_, _, fields, first, planned, copied, alike.1.names_eq.1, alike.1.rest⟩
  · obtain ⟨_, keys⟩ := order_of_request parcels_resolved {} "note"
    refine keys { parcels with keyOverride := some ["kind", "order"] }.unresolve _ _ _ rfl ?_
    exact ⟨rfl, rfl, rfl, .swap _ _ _⟩

end View

end Rejoin
