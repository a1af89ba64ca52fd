import Rejoin.Proofs.Plan.Route

/-!
# When a shortcut exists and what it reads

A shortcut replaces the join of two sources.  It exists when the target columns
that the join compares are exactly the needed ones, and it reads each of them
from the first column of the anchor that the join equates with it.
-/

namespace Rejoin

/-- The columns that a condition equates on two sources, that of the first source first. -/
def Condition.columnsOn {ℓ : Type} (first second : Nat) : Condition Nat ℓ → Option (String × String)
  | ⟨.reference left, .reference right⟩ =>
      if left.source = first ∧ right.source = second then some (left.column, right.column)
      else if left.source = second ∧ right.source = first then some (right.column, left.column)
      else none
  | _ => none

theorem Condition.columnsOn_eq_some_iff {ℓ : Type} {first second : Nat} (apart : first ≠ second)
    {condition : Condition Nat ℓ} {own other : String} :
    condition.columnsOn first second = some (own, other) ↔
      condition.Equates ⟨first, own⟩ ⟨second, other⟩ := by
  obtain ⟨⟨leftSource, leftColumn⟩ | left, ⟨rightSource, rightColumn⟩ | right⟩ := condition
  case reference.reference =>
    simp only [columnsOn, Equates, Condition.mk.injEq, Operand.reference.injEq,
      ColumnRef.mk.injEq]
    grind
  all_goals simp [columnsOn, Equates]

/-- Only conditions that join the two sources equate columns of theirs. -/
theorem Condition.columnsOn_isSome {ℓ : Type} {first second : Nat} (apart : first ≠ second)
    (condition : Condition Nat ℓ) :
    (condition.columnsOn first second).isSome = condition.relates first second := by
  obtain ⟨left | left, right | right⟩ := condition
  case reference.reference =>
    rw [Bool.eq_iff_iff]
    simp only [columnsOn, relates, Bool.and_eq_true, Bool.or_eq_true, bne_iff_ne, beq_iff_eq]
    grind
  all_goals rfl

/-- A join equates the same columns at its new positions. -/
theorem Condition.columnsOn_mapSource {ℓ : Type} {first second : Nat} (rename : Nat → Nat)
    (apart : rename first ≠ rename second) {condition : Condition Nat ℓ}
    (joins : condition.relates first second = true) :
    (condition.mapSource rename).columnsOn (rename first) (rename second) =
      condition.columnsOn first second := by
  obtain ⟨left | left, right | right⟩ := condition <;> simp [relates] at joins
  obtain ⟨distinct, ⟨rfl, rfl⟩ | ⟨rfl, rfl⟩⟩ := joins
  · simp [columnsOn, mapSource, Operand.mapSource, ColumnRef.mapSource]
  · simp [columnsOn, mapSource, Operand.mapSource, ColumnRef.mapSource, distinct, apart.symm]

/-- The columns that the joins of two sources equate, in declaration order. -/
def View.joinColumns (view : View) (first second : Nat) : List (String × String) :=
  view.conditions.filterMap (Condition.columnsOn first second)

variable {view : View} {first second : Nat}

theorem View.mem_joinColumns (apart : first ≠ second) {own other : String} :
    (own, other) ∈ view.joinColumns first second ↔
      ∃ condition ∈ view.conditions, condition.Equates ⟨first, own⟩ ⟨second, other⟩ := by
  simp only [joinColumns, List.mem_filterMap, Condition.columnsOn_eq_some_iff apart]

theorem View.joinColumns_eq_filterMap (apart : first ≠ second) :
    view.joinColumns first second =
      (view.joinsBetween first second).filterMap (Condition.columnsOn first second) := by
  rw [joinsBetween, List.filterMap_filter, joinColumns]
  refine List.filterMap_congr fun condition _ => ?_
  rw [← Condition.columnsOn_isSome apart]
  cases condition.columnsOn first second <;> rfl

/-- The edge of two sources compares the columns of their joins. -/
theorem Edge.columnsBetween_eq {edge : Edge}
    (found : (JoinGraph.ofView view).edgeBetween? first second = some edge) :
    edge.columnsBetween first second = view.joinColumns first second := by
  obtain ⟨declared, joined⟩ := View.edgeBetween?_eq_some found
  have apart := joined.ne
  have sides (pair : ColumnPair) :
      pair.columns? first second = pair.condition.columnsOn first second := by
    obtain ⟨⟨leftSource, leftColumn⟩, ⟨rightSource, rightColumn⟩⟩ := pair
    simp only [ColumnPair.columns?, ColumnPair.columnOf?, ColumnPair.condition,
      Condition.columnsOn]
    grind
  rw [View.joinColumns_eq_filterMap apart, ← declared, List.filterMap_map, Edge.columnsBetween]
  exact List.filterMap_congr fun pair _ => sides pair

namespace Shortcut

/-- The rename of a needed column: the first column that is equated with it. -/
def rename? (columns : List (String × String)) (name : String) : Option Rename :=
  (columns.find? (fun pair => pair.2 == name)).map (fun pair => ⟨name, pair.1⟩)

variable {anchor target : Nat} {needed : List String} {found : Shortcut}

/--
A shortcut exists when the join equates columns of the anchor with needed ones
only, and with every needed one.
-/
theorem find?_eq_some_iff :
    find? view (JoinGraph.ofView view) anchor target needed = some found ↔
      anchor ≠ target ∧ needed ≠ [] ∧ view.Joined anchor target ∧
        (∃ source, view.source? anchor = some source ∧
          ∀ pair ∈ view.joinColumns anchor target,
            pair.2 ∈ needed ∧ source.schema.hasColumn pair.1 = true) ∧
        found.anchor = anchor ∧ found.target = target ∧
        List.Forall₂ (fun name rename =>
          rename? (view.joinColumns anchor target) name = some rename) needed found.renames := by
  unfold find?
  constructor
  · intro shortened
    split at shortened
    · cases shortened
    · next candidates =>
        simp only [Option.bind_eq_bind, Option.bind_eq_some_iff] at shortened
        obtain ⟨edge, edgeFound, source, sourceFound, absorbed⟩ := shortened
        rw [Edge.columnsBetween_eq edgeFound] at absorbed
        split at absorbed
        · next reads =>
            obtain ⟨renames, traversed, made⟩ := Option.bind_eq_some_iff.1 absorbed
            cases made
            refine ⟨fun same => candidates (.inl same), fun empty => candidates (.inr empty),
              (View.edgeBetween?_eq_some edgeFound).2, ⟨source, sourceFound, ?_⟩, rfl, rfl,
              mapM_eq_some_iff.1 traversed⟩
            simpa using reads
        · cases absorbed
  · rintro ⟨apart, nonempty, joined, ⟨source, sourceFound, reads⟩, rfl, rfl, pointwise⟩
    obtain ⟨edge, edgeFound⟩ := joined.exists_edgeBetween?
    rw [if_neg (by simp [apart, nonempty]), edgeFound, sourceFound]
    simp only [Option.bind_eq_bind, Option.bind_some, Edge.columnsBetween_eq edgeFound]
    rw [if_pos (by simpa using reads)]
    exact Option.bind_eq_some_iff.2 ⟨found.renames, mapM_eq_some_iff.2 pointwise, rfl⟩

theorem rename?_eq_some_iff {columns : List (String × String)} {name : String} {rename : Rename} :
    rename? columns name = some rename ↔ rename.targetColumn = name ∧
      columns.find? (fun pair => pair.2 == name) = some (rename.anchorColumn, name) := by
  simp only [rename?, Option.map_eq_some_iff, Prod.exists]
  constructor
  · rintro ⟨own, other, first, rfl⟩
    obtain rfl : other = name := by simpa using List.find?_some first
    exact ⟨rfl, first⟩
  · rintro ⟨rfl, first⟩
    exact ⟨_, _, first, rfl⟩

/-- The renames are those of the needed columns. -/
theorem mem_renames
    (shortened : find? view (JoinGraph.ofView view) anchor target needed = some found)
    {rename : Rename} :
    rename ∈ found.renames ↔ rename.targetColumn ∈ needed ∧
      rename? (view.joinColumns anchor target) rename.targetColumn = some rename := by
  obtain ⟨_, _, _, _, _, _, pointwise⟩ := find?_eq_some_iff.1 shortened
  constructor
  · intro among
    obtain ⟨name, wanted, renamed⟩ := exists_of_mem_right pointwise among
    obtain ⟨rfl, _⟩ := rename?_eq_some_iff.1 renamed
    exact ⟨wanted, renamed⟩
  · rintro ⟨wanted, renamed⟩
    obtain ⟨other, among, otherRenamed⟩ := exists_of_mem_right pointwise.flip wanted
    rwa [← Option.some.inj (otherRenamed.symm.trans renamed)]

/-- The column of the anchor that a column of the target is read from. -/
def stored (found : Shortcut) (name : String) : String :=
  ((found.renames.find? (fun rename => rename.targetColumn == name)).map
    Rename.anchorColumn).getD name

/-- A needed column has a rename, which is the one that is read. -/
theorem find?_renames
    (shortened : find? view (JoinGraph.ofView view) anchor target needed = some found)
    {name : String} (wanted : name ∈ needed) :
    found.renames.find? (fun rename => rename.targetColumn == name) =
      some ⟨name, found.stored name⟩ := by
  obtain ⟨_, _, _, _, _, _, pointwise⟩ := find?_eq_some_iff.1 shortened
  obtain ⟨rename, among, renamed⟩ := exists_of_mem_right pointwise.flip wanted
  have present : (found.renames.find? (fun rename => rename.targetColumn == name)).isSome := by
    rw [List.find?_isSome]
    exact ⟨rename, among, by simpa using (rename?_eq_some_iff.1 renamed).1⟩
  obtain ⟨⟨other, column⟩, first⟩ := Option.isSome_iff_exists.1 present
  obtain rfl : other = name := by simpa using List.find?_some first
  rw [stored, first, Option.map_some, Option.getD_some]

theorem rename?_stored
    (shortened : find? view (JoinGraph.ofView view) anchor target needed = some found)
    {name : String} (wanted : name ∈ needed) :
    rename? (view.joinColumns anchor target) name = some ⟨name, found.stored name⟩ :=
  ((mem_renames shortened).1 (List.mem_of_find?_eq_some (find?_renames shortened wanted))).2

/-- What a needed column is read from is equated with it by the join. -/
theorem stored_mem
    (shortened : find? view (JoinGraph.ofView view) anchor target needed = some found)
    {name : String} (wanted : name ∈ needed) :
    (found.stored name, name) ∈ view.joinColumns anchor target :=
  List.mem_of_find?_eq_some (rename?_eq_some_iff.1 (rename?_stored shortened wanted)).2

/-- Where a column is read from does not depend on what else is needed. -/
theorem stored_eq {others : List String} {other : Shortcut}
    (shortened : find? view (JoinGraph.ofView view) anchor target needed = some found)
    (again : find? view (JoinGraph.ofView view) anchor target others = some other)
    {name : String} (wanted : name ∈ needed) (wantedAgain : name ∈ others) :
    other.stored name = found.stored name := by
  have same := (rename?_stored again wantedAgain).symm.trans (rename?_stored shortened wanted)
  exact congrArg Rename.anchorColumn (Option.some.inj same)

/--
The renames read every pair of the join just when the join equates no column of
the target with two columns of the anchor.
-/
theorem reads_join_iff
    (shortened : find? view (JoinGraph.ofView view) anchor target needed = some found) :
    (∀ pair ∈ view.joinColumns anchor target, ⟨pair.2, pair.1⟩ ∈ found.renames) ↔
      ∀ pair ∈ view.joinColumns anchor target, ∀ other ∈ view.joinColumns anchor target,
        pair.2 = other.2 → pair.1 = other.1 := by
  obtain ⟨_, _, _, ⟨_, _, reads⟩, _⟩ := find?_eq_some_iff.1 shortened
  simp only [mem_renames shortened, rename?_eq_some_iff, true_and]
  constructor
  · intro read pair among other otherAmong same
    have first := (read pair among).2
    rw [same, (read other otherAmong).2] at first
    exact (Prod.mk.inj (Option.some.inj first)).1.symm
  · intro single pair among
    refine ⟨(reads pair among).1, ?_⟩
    have present : ((view.joinColumns anchor target).find?
        (fun other => other.2 == pair.2)).isSome := by
      rw [List.find?_isSome]
      exact ⟨pair, among, beq_self_eq_true _⟩
    obtain ⟨⟨own, name⟩, first⟩ := Option.isSome_iff_exists.1 present
    obtain rfl : name = pair.2 := by simpa using List.find?_some first
    rw [first, single pair among _ (List.mem_of_find?_eq_some first) rfl]

end Shortcut

end Rejoin
