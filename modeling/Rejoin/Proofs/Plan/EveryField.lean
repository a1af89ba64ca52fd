import Rejoin.Proofs.Plan.Reordering

/-!
# Every field

A goal that names no field asks for every column of the schema, in the order of
the schema.  Naming them all asks for each of them once, which is the same unless
the schema itself names a column twice.
-/

namespace Rejoin

namespace View

variable {view every named : View} {names : List String}

/-- Of two slices that show the same names, once with repetitions, one is the other without. -/
theorem Reordered.eq_of_eraseDups (reordered : Reordered names names.eraseDups every named)
    (literals : named.literals = every.literals) :
    named = { every with columns := every.columns.eraseDups } := by
  obtain ⟨output, called, shown, shownAgain⟩ := reordered.columns
  have distinct : ∀ name ∈ names, ∀ other ∈ names, ∀ column,
      some (output name) = some column → some (output other) = some column → name = other := by
    rintro name _ other _ _ ⟨rfl⟩ same
    rw [← called name, ← Option.some.inj same, called]
  have columns : named.columns = every.columns.eraseDups := by
    rw [shown, shownAgain]
    simpa using filterMap_eraseDups distinct
  rw [reordered.rest, columns, literals]

/--
Naming no field gives the same outcome as naming all columns of the schema, but
for columns that the schema repeats: the slice repeats them, and shows them once
when they are named.
-/
theorem every_field {definition : Definition} (resolved : definition.resolve = .ok view)
    (options : Options) (anchor : String) {source : Source} (among : source ∈ view.sources) :
    PlannedAlike (fun every named =>
        every.columns.map OutputColumn.name = source.schema.columnNames ∧
          named = { every with columns := every.columns.eraseDups } ∧
          (named.columns.map OutputColumn.name).Nodup ∧
          (every = named ↔ source.schema.columnNames.Nodup))
      (view.fieldsFrom options anchor source.name [])
      (view.fieldsFrom options anchor source.name source.schema.columnNames) := by
  have wellFormed := (Definition.wellFormed_of_resolve resolved).1
  obtain ⟨index, found⟩ := exists_source?_of_mem among
  have located := wellFormed.indexOf?_eq_some_iff.2 ⟨source, found, rfl⟩
  have keyed := wellFormed.keyed source among
  obtain ⟨key, primary⟩ := List.exists_mem_of_ne_nil _ keyed.nonempty
  have made : view.fieldsRequest index [] =
      .ok ⟨index, source.schema.columnNames.map Projection.ofName⟩ :=
    fieldsRequest_eq_ok_iff.2 ⟨source, found, nofun, rfl⟩
  have madeAgain := fieldsRequest_named found
    (List.ne_nil_of_mem (keyed.contained key primary)) fun _ named => named
  simp only [fieldsFrom, located]
  have alike := fields_reordered options anchor wellFormed (fun _ => List.mem_eraseDups) made
    madeAgain
  refine alike.imp fun every named _ _ => ?_
  rintro ⟨reordered, literals⟩
  obtain ⟨shown, shownAgain⟩ := reordered.names_eq
  have once := reordered.eq_of_eraseDups literals
  refine ⟨shown, once, ?_, ?_⟩
  · rw [shownAgain]
    exact nodup_eraseDups _
  · rw [← eraseDups_eq_self_iff]
    constructor
    · intro same
      rw [← shownAgain, ← same, shown]
    · intro kept
      obtain ⟨output, _, columns, columnsAgain⟩ := reordered.columns
      rw [kept, ← columns] at columnsAgain
      rw [reordered.rest, columnsAgain, literals]

/-- The customer of a note has three columns, named or not. -/
theorem every_field_parcels :
    ∃ slice, parcels.fieldsFrom {} "note" "customer" [] = .ok (some slice) ∧
      parcels.fieldsFrom {} "note" "customer" ["id", "region", "grade"] = .ok (some slice) := by
  have customer : parcels.source? 1 = some _ := rfl
  have alike := every_field parcels_resolved {} "note" (source?_mem customer)
  have planned : parcels.fieldsFrom {} "note" "customer" [] = .ok (some _) := rfl
  have named : parcels.fieldsFrom {} "note" "customer" ["id", "region", "grade"] =
      .ok (some _) := rfl
  refine ⟨_, planned, ?_⟩
  change PlannedAlike _ (parcels.fieldsFrom {} "note" "customer" [])
    (parcels.fieldsFrom {} "note" "customer" ["id", "region", "grade"]) at alike
  rw [planned, named] at alike
  cases alike with
  | sliced alike => rw [named, alike.2.2.2.2 (by decide)]

/-- Entries whose table lists its only column twice. -/
def ledger : View where
  name := "ledger"
  sources := [⟨0, "entries", "entry", .main,
    ⟨"entries", ["id"], [⟨"id", "bigint"⟩, ⟨"id", "bigint"⟩]⟩, []⟩]
  columns := [⟨"id", .reference ⟨0, "id"⟩⟩]
  filter := none
  literals := []
  keyOverride := none

/-- The ledger resolves, and a slice of its entries repeats their column unless that is named. -/
theorem ledger_repeats_column :
    ledger.unresolve.resolve = .ok ledger ∧
      ledger.fieldsFrom {} "entry" "entry" [] ≠
        ledger.fieldsFrom {} "entry" "entry" ["id", "id"] ∧
      ∃ every, ledger.fieldsFrom {} "entry" "entry" [] = .ok (some every) ∧
        ¬ (every.columns.map OutputColumn.name).Nodup := by
  have planned : ledger.fieldsFrom {} "entry" "entry" [] = .ok (some _) := rfl
  have named : ledger.fieldsFrom {} "entry" "entry" ["id", "id"] = .ok (some _) := rfl
  refine ⟨rfl, ?_, _, planned, by decide⟩
  rw [planned, named]
  intro same
  cases same

end View

end Rejoin
