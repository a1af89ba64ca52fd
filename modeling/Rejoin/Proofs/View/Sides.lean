import Mathlib.Data.List.Nodup
import Rejoin.Proofs.View.Conditions

/-!
# The sides of conditions

An equality says the same whichever operand stands left.  Exchanging the sides
of some declared conditions keeps a view well-formed, and a test that does not
see the sides selects the conditions of the same places.
-/

namespace Rejoin

namespace Condition

variable {σ τ ℓ : Type}

/-- The same equality with its sides exchanged. -/
def swap (condition : Condition σ ℓ) : Condition σ ℓ :=
  ⟨condition.right, condition.left⟩

/-- The condition, with its sides exchanged if so told. -/
def swapIf (told : Bool) (condition : Condition σ ℓ) : Condition σ ℓ :=
  if told then condition.swap else condition

/-- What does not see the sides does not see an exchange. -/
theorem apply_swapIf {α : Type} (read : Condition σ ℓ → α)
    (same : ∀ condition, read condition.swap = read condition) (told : Bool)
    (condition : Condition σ ℓ) : read (condition.swapIf told) = read condition := by
  cases told with
  | false => rfl
  | true => exact same condition

theorem references_swap (condition : Condition σ ℓ) :
    condition.swap.references = condition.references.reverse := by
  rcases condition with ⟨_ | _, _ | _⟩ <;> rfl

theorem literals_swap (condition : Condition σ ℓ) :
    condition.swap.literals = condition.literals.reverse := by
  rcases condition with ⟨_ | _, _ | _⟩ <;> rfl

theorem mem_references_swapIf {told : Bool} {condition : Condition σ ℓ} {ref : ColumnRef σ} :
    ref ∈ (condition.swapIf told).references ↔ ref ∈ condition.references := by
  refine (apply_swapIf (fun condition => ref ∈ condition.references) ?_ _ _).to_iff
  intro condition
  simp only [references_swap, List.mem_reverse]

theorem mem_literals_swapIf {told : Bool} {condition : Condition σ ℓ} {literal : ℓ} :
    literal ∈ (condition.swapIf told).literals ↔ literal ∈ condition.literals := by
  refine (apply_swapIf (fun condition => literal ∈ condition.literals) ?_ _ _).to_iff
  intro condition
  simp only [literals_swap, List.mem_reverse]

theorem mapSource_swapIf (rename : σ → τ) (told : Bool) (condition : Condition σ ℓ) :
    (condition.swapIf told).mapSource rename = (condition.mapSource rename).swapIf told := by
  cases told <;> rfl

theorem relates_swap (first second : Nat) (condition : Condition Nat ℓ) :
    condition.swap.relates first second = condition.relates first second := by
  obtain ⟨left | left, right | right⟩ := condition
  case reference.reference =>
    rw [Bool.eq_iff_iff]
    simp only [swap, relates, Bool.and_eq_true, Bool.or_eq_true, bne_iff_ne, beq_iff_eq]
    grind
  all_goals rfl

theorem constrains_swap (declarer node : Nat) (condition : Condition Nat ℓ) :
    condition.swap.constrains declarer node = condition.constrains declarer node := by
  obtain ⟨left | left, right | right⟩ := condition
  case reference.reference =>
    change (right.source == node && (left.source == node && true)) =
      (left.source == node && (right.source == node && true))
    rw [Bool.and_true, Bool.and_true, Bool.and_comm]
  all_goals rfl

theorem partner?_swap (node : Nat) (condition : Condition Nat ℓ) :
    condition.swap.partner? node = condition.partner? node := by
  ext next
  rw [partner?_eq_some_iff, partner?_eq_some_iff, relates_swap]

end Condition

/-- Where a condition is declared: the position of its source, and its own on that source. -/
structure Place where
  source : Nat
  number : Nat
  deriving DecidableEq, Repr

/-- A condition with the source that declares it and its place. -/
structure Declared where
  declarer : Nat
  place : Place
  condition : Condition Nat Literal

namespace View

/-- The condition declared at a place. -/
def condition? (view : View) (place : Place) : Option (Condition Nat Literal) :=
  (view.source? place.source).bind (fun source => source.conditions[place.number]?)

/-- The source with the sides of the chosen conditions exchanged. -/
def Source.swapAt (swaps : Nat → Bool) (source : Source) : Source :=
  { source with
    conditions := source.conditions.mapIdx
      (fun number condition => condition.swapIf (swaps number)) }

/-- The view with the sides of the conditions at the chosen places exchanged. -/
def swapAt (swaps : Place → Bool) (view : View) : View :=
  { view with
    sources := view.sources.mapIdx
      (fun position source => source.swapAt (fun number => swaps ⟨position, number⟩)) }

/-- The conditions of a view with their places, in declaration order. -/
def declared (view : View) : List Declared :=
  view.sources.zipIdx.flatMap (fun placed =>
    placed.1.conditions.zipIdx.map (fun numbered =>
      ⟨placed.1.index, ⟨placed.2, numbered.2⟩, numbered.1⟩))

/-- The declared conditions that pass a test of their declarer and themselves. -/
def declaredWhere (view : View) (test : Nat → Condition Nat Literal → Bool) : List Declared :=
  view.declared.filter (fun entry => test entry.declarer entry.condition)

variable {view : View} {swaps : Place → Bool}

theorem mem_declared {entry : Declared} :
    entry ∈ view.declared ↔ ∃ source, view.source? entry.place.source = some source ∧
      source.index = entry.declarer ∧
      source.conditions[entry.place.number]? = some entry.condition := by
  obtain ⟨declarer, ⟨position, number⟩, condition⟩ := entry
  simp only [declared, List.mem_flatMap, List.mem_map, Prod.exists, List.mem_zipIdx_iff_getElem?,
    Declared.mk.injEq, Place.mk.injEq, source?]
  constructor
  · rintro ⟨source, _, found, _, _, held, rfl, ⟨rfl, rfl⟩, rfl⟩
    exact ⟨source, found, rfl, held⟩
  · rintro ⟨source, found, rfl, held⟩
    exact ⟨source, position, found, condition, number, held, rfl, ⟨rfl, rfl⟩, rfl⟩

/-- A place is that of one declared condition at most. -/
theorem declared_unique {entry other : Declared} (among : entry ∈ view.declared)
    (otherAmong : other ∈ view.declared) (same : entry.place = other.place) : entry = other := by
  obtain ⟨source, found, declares, held⟩ := mem_declared.1 among
  obtain ⟨again, foundAgain, declaresAgain, heldAgain⟩ := mem_declared.1 otherAmong
  rw [← same] at foundAgain heldAgain
  obtain rfl := Option.some.inj (found.symm.trans foundAgain)
  obtain ⟨declarer, place, condition⟩ := entry
  obtain ⟨_, _, _⟩ := other
  cases same
  cases declares.symm.trans declaresAgain
  cases held.symm.trans heldAgain
  rfl

theorem condition?_of_mem_declared {entry : Declared} (among : entry ∈ view.declared) :
    view.condition? entry.place = some entry.condition := by
  obtain ⟨source, found, _, held⟩ := mem_declared.1 among
  rw [condition?, found, Option.bind_some, held]

theorem nodup_declared (view : View) : view.declared.Nodup := by
  have sources : (view.sources.zipIdx.map Prod.snd).Nodup := by
    rw [List.zipIdx_map_snd]
    exact List.nodup_range'
  rw [declared, List.nodup_flatMap]
  constructor
  · intro placed _
    have numbers : (placed.1.conditions.zipIdx.map Prod.snd).Nodup := by
      rw [List.zipIdx_map_snd]
      exact List.nodup_range'
    refine (List.Nodup.of_map _ numbers).map_on fun first among second otherAmong same => ?_
    simp only [Declared.mk.injEq, Place.mk.injEq, true_and] at same
    exact List.inj_on_of_nodup_map numbers among otherAmong same.1
  · refine (List.pairwise_map.1 sources).imp fun {placed other} apart => ?_
    refine List.disjoint_left.2 ?_
    intro entry among otherAmong
    obtain ⟨_, _, rfl⟩ := List.mem_map.1 among
    obtain ⟨_, _, same⟩ := List.mem_map.1 otherAmong
    simp only [Declared.mk.injEq, Place.mk.injEq] at same
    exact apart same.2.1.1.symm

/-- The conditions that pass a test are those of the entries that do. -/
theorem map_condition_declaredWhere (view : View) (test : Nat → Condition Nat Literal → Bool) :
    (view.declaredWhere test).map Declared.condition = view.conditionsWhere test := by
  have each (placed : Source × Nat) :
      ((placed.1.conditions.zipIdx.map (fun numbered => (⟨placed.1.index,
          ⟨placed.2, numbered.2⟩, numbered.1⟩ : Declared))).filter
            (fun entry => test entry.declarer entry.condition)).map Declared.condition =
        placed.1.conditions.filter (test placed.1.index) := by
    rw [List.filter_map, List.map_map, ← List.zipIdx_map_fst 0 placed.1.conditions,
      List.filter_map, List.zipIdx_map_fst]
    rfl
  rw [declaredWhere, declared, List.filter_flatMap, List.map_flatMap]
  simp only [each]
  rw [conditionsWhere, ← List.flatMap_map (f := Prod.fst)
    (g := fun source : Source => source.conditions.filter (test source.index)),
    List.zipIdx_map_fst]

/-! ## Exchanged sides -/

theorem source?_swapAt (position : Nat) :
    (view.swapAt swaps).source? position =
      (view.source? position).map (Source.swapAt (fun number => swaps ⟨position, number⟩)) := by
  simp only [source?, swapAt, List.getElem?_mapIdx]

theorem condition?_swapAt (place : Place) :
    (view.swapAt swaps).condition? place =
      (view.condition? place).map (Condition.swapIf (swaps place)) := by
  rw [condition?, condition?, source?_swapAt]
  cases view.source? place.source with
  | none => rfl
  | some source =>
      simp only [Option.map_some, Option.bind_some, Source.swapAt, List.getElem?_mapIdx]

theorem aliases_swapAt : (view.swapAt swaps).aliases = view.aliases := by
  refine List.ext_getElem? fun position => ?_
  rw [aliases_getElem?, aliases_getElem?, source?_swapAt, Option.map_map]
  rfl

/-- Entries can be numbered before or after they are changed. -/
theorem zipIdx_mapIdx {α β : Type} (change : Nat → α → β) (entries : List α) :
    (entries.mapIdx change).zipIdx =
      entries.zipIdx.map (fun numbered => (change numbered.2 numbered.1, numbered.2)) := by
  refine List.ext_getElem? fun position => ?_
  rw [List.getElem?_zipIdx, List.getElem?_mapIdx, List.getElem?_map, List.getElem?_zipIdx]
  simp only [Option.map_map, Function.comp_def, Nat.zero_add]

/-- The same places are declared, each with its condition exchanged or not. -/
theorem declared_swapAt :
    (view.swapAt swaps).declared = view.declared.map (fun entry =>
      { entry with condition := entry.condition.swapIf (swaps entry.place) }) := by
  simp only [declared, swapAt, Source.swapAt, zipIdx_mapIdx, List.map_flatMap, List.flatMap_map,
    List.map_map]
  rfl

/-- A test that does not see the sides selects the same places. -/
theorem declaredWhere_swapAt {test : Nat → Condition Nat Literal → Bool}
    (same : ∀ declarer condition, test declarer condition.swap = test declarer condition) :
    (view.swapAt swaps).declaredWhere test = (view.declaredWhere test).map (fun entry =>
      { entry with condition := entry.condition.swapIf (swaps entry.place) }) := by
  rw [declaredWhere, declared_swapAt, List.filter_map, declaredWhere]
  congr 1
  refine List.filter_congr fun entry _ => ?_
  exact Condition.apply_swapIf (test entry.declarer) (same entry.declarer) _ _

theorem conditions_eq_declared (view : View) :
    view.conditions = view.declared.map Declared.condition := by
  have every := view.map_condition_declaredWhere (fun _ _ => true)
  simp only [declaredWhere, conditionsWhere, List.filter_true] at every
  exact every.symm

/-- What is read off conditions without seeing the sides is read off in the same order. -/
theorem filterMap_conditions_swapAt {α : Type} {read : Condition Nat Literal → Option α}
    (same : ∀ condition, read condition.swap = read condition) :
    (view.swapAt swaps).conditions.filterMap read = view.conditions.filterMap read := by
  rw [conditions_eq_declared, conditions_eq_declared, declared_swapAt, List.map_map,
    List.filterMap_map, List.filterMap_map]
  refine List.filterMap_congr fun entry _ => ?_
  exact Condition.apply_swapIf read same _ _

theorem mem_literals_swapAt {literal : Literal} :
    literal ∈ (view.swapAt swaps).conditions.flatMap Condition.literals ↔
      literal ∈ view.conditions.flatMap Condition.literals := by
  simp only [conditions_eq_declared, declared_swapAt, List.flatMap_map, List.mem_flatMap,
    Condition.mem_literals_swapIf]

theorem exists_of_source?_swapAt {position : Nat} {source : Source}
    (found : (view.swapAt swaps).source? position = some source) :
    ∃ original, view.source? position = some original ∧
      source = original.swapAt (fun number => swaps ⟨position, number⟩) := by
  rw [source?_swapAt, Option.map_eq_some_iff] at found
  obtain ⟨original, held, made⟩ := found
  exact ⟨original, held, made.symm⟩

theorem exists_of_mem_conditions_swapAt {told : Nat → Bool} {source : Source}
    {condition : Condition Nat Literal} (own : condition ∈ (source.swapAt told).conditions) :
    ∃ original ∈ source.conditions, ∃ swapped, condition = original.swapIf swapped := by
  obtain ⟨number, within, rfl⟩ := List.mem_mapIdx.1 own
  exact ⟨_, List.getElem_mem within, _, rfl⟩

theorem reads_swapAt {ref : ColumnRef Nat} : (view.swapAt swaps).Reads ref ↔ view.Reads ref := by
  simp [Reads, source?_swapAt, Source.swapAt]

/-- Exchanging sides keeps a view well-formed. -/
theorem WellFormed.swapAt (wellFormed : view.WellFormed) (swaps : Place → Bool) :
    (view.swapAt swaps).WellFormed where
  nonempty := by
    intro empty
    exact wellFormed.nonempty (List.mapIdx_eq_nil_iff.1 empty)
  indexed := by
    intro position source found
    obtain ⟨original, held, rfl⟩ := exists_of_source?_swapAt found
    exact wellFormed.indexed position original held
  modes := by
    intro position source found
    obtain ⟨original, held, rfl⟩ := exists_of_source?_swapAt found
    exact wellFormed.modes position original held
  distinct := by
    rw [aliases_swapAt]
    exact wellFormed.distinct
  keyed := by
    intro source among
    obtain ⟨position, found⟩ := exists_source?_of_mem among
    obtain ⟨original, held, rfl⟩ := exists_of_source?_swapAt found
    exact wellFormed.keyed original (source?_mem held)
  backward := by
    intro position source found condition own ref named
    obtain ⟨original, held, rfl⟩ := exists_of_source?_swapAt found
    obtain ⟨declared, among, _, rfl⟩ := exists_of_mem_conditions_swapAt own
    rw [reads_swapAt]
    exact wellFormed.backward position original held declared among ref
      (Condition.mem_references_swapIf.1 named)
  outputs := by
    intro column among ref reads
    rw [reads_swapAt]
    exact wellFormed.outputs column among ref reads
  identified := wellFormed.identified
  compared := by
    intro condition among literal compared
    obtain ⟨original, held, used⟩ := List.mem_flatMap.1
      (mem_literals_swapAt.1 (List.mem_flatMap.2 ⟨condition, among, compared⟩))
    exact wellFormed.compared original held literal used
  computed := wellFormed.computed
  keyNames := wellFormed.keyNames

/-! ## The conditions that a source carries -/

/-- The entries that a source of a chain carries: the joins that lead to it, then its guards. -/
def carriedEntries (view : View) (previous : Option Nat) (node : Nat) : List Declared :=
  (match previous with
    | none => []
    | some before => view.declaredWhere (fun _ condition => condition.relates before node)) ++
    view.declaredWhere (fun declarer condition => condition.constrains declarer node)

variable {previous : Option Nat} {node : Nat}

theorem map_condition_carriedEntries (view : View) (previous : Option Nat) (node : Nat) :
    (view.carriedEntries previous node).map Declared.condition = view.carried previous node := by
  cases previous with
  | none =>
      rw [carriedEntries, List.nil_append, map_condition_declaredWhere]
      rfl
  | some before =>
      rw [carriedEntries, List.map_append, map_condition_declaredWhere,
        map_condition_declaredWhere, carried, joinsInto, joinsBetween_eq_where]
      rfl

/-- A source carries the conditions of the same places, each exchanged or not. -/
theorem carriedEntries_swapAt :
    (view.swapAt swaps).carriedEntries previous node =
      (view.carriedEntries previous node).map (fun entry =>
        { entry with condition := entry.condition.swapIf (swaps entry.place) }) := by
  have guards : (view.swapAt swaps).declaredWhere (fun declarer condition =>
      condition.constrains declarer node) = _ :=
    declaredWhere_swapAt fun declarer => Condition.constrains_swap declarer node
  cases previous with
  | none => rw [carriedEntries, carriedEntries, List.nil_append, List.nil_append, guards]
  | some before =>
      simp only [carriedEntries, List.map_append, guards,
        declaredWhere_swapAt fun _ => Condition.relates_swap before node]

theorem mem_carriedEntries {entry : Declared} :
    entry ∈ view.carriedEntries previous node ↔ entry ∈ view.declared ∧
      ((∃ before, previous = some before ∧ entry.condition.relates before node = true) ∨
        entry.condition.constrains entry.declarer node = true) := by
  cases previous with
  | none => simp [carriedEntries, declaredWhere]
  | some before => simp [carriedEntries, declaredWhere, and_or_left]

theorem nodup_carriedEntries (view : View) (previous : Option Nat) (node : Nat) :
    (view.carriedEntries previous node).Nodup := by
  have guards := view.nodup_declared.filter
    (fun entry => entry.condition.constrains entry.declarer node)
  cases previous with
  | none => exact guards
  | some before =>
      refine List.nodup_append'.2 ⟨view.nodup_declared.filter _, guards, ?_⟩
      rw [List.disjoint_left]
      intro entry join guard
      have about : entry.condition.constrains entry.declarer node = true :=
        (List.mem_filter.1 guard).2
      rw [Condition.not_constrains_of_relates (List.mem_filter.1 join).2] at about
      cases about

end View

end Rejoin
