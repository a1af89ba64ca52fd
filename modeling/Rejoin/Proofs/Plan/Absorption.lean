import Rejoin.Proofs.Definition.Resolution
import Rejoin.Proofs.JoinGraph.Paths
import Rejoin.Proofs.Plan.Shortcut

/-!
# Which joins a shortcut absorbs

The anchor absorbs its join with a target when it stores every column that the
join compares and the columns compared with these are just the needed ones.
Then, and only then, a shortcut exists; it reads each needed column from the
first declared condition on it, and the join is the whole path to the target.
-/

namespace Rejoin

namespace View

/-- Everything that the join of the anchor with the target compares can be read from the anchor. -/
structure Absorbs (view : View) (anchor target : Nat) (needed : List String) : Prop where
  apart : anchor ≠ target
  asked : needed ≠ []
  joined : view.Joined anchor target
  stored : ∀ condition ∈ view.conditions, ∀ own other,
    condition.Equates ⟨anchor, own⟩ ⟨target, other⟩ → view.Reads ⟨anchor, own⟩
  covers : ∀ name, name ∈ needed ↔
    ∃ condition ∈ view.conditions, ∃ own, condition.Equates ⟨anchor, own⟩ ⟨target, name⟩

/-- The rename reads a needed column as the first declared condition on it says. -/
def RenamedFirst (view : View) (anchor target : Nat) (name : String) (rename : Rename) : Prop :=
  rename.targetColumn = name ∧ ∃ before condition after,
    view.conditions = before ++ condition :: after ∧
      condition.Equates ⟨anchor, rename.anchorColumn⟩ ⟨target, name⟩ ∧
      ∀ earlier ∈ before, ∀ own, ¬ earlier.Equates ⟨anchor, own⟩ ⟨target, name⟩

variable {view : View} {anchor target : Nat} {needed : List String}

/-- The first pair of a target column comes from the first declared condition on it. -/
theorem find?_joinColumns_eq_some_iff (apart : anchor ≠ target) {own name : String} :
    (view.joinColumns anchor target).find? (fun pair => pair.2 == name) = some (own, name) ↔
      ∃ before condition after, view.conditions = before ++ condition :: after ∧
        condition.Equates ⟨anchor, own⟩ ⟨target, name⟩ ∧
        ∀ earlier ∈ before, ∀ other, ¬ earlier.Equates ⟨anchor, other⟩ ⟨target, name⟩ := by
  have compares (condition : Condition Nat Literal) :
      (condition.columnsOn anchor target).any (fun pair => pair.2 == name) = true ↔
        ∃ other, condition.Equates ⟨anchor, other⟩ ⟨target, name⟩ := by
    simp only [← Condition.columnsOn_eq_some_iff apart]
    cases condition.columnsOn anchor target with
    | none => simp
    | some pair => simp [Prod.ext_iff]
  rw [joinColumns, List.find?_filterMap, Option.bind_eq_some_iff]
  constructor
  · rintro ⟨condition, first, columns⟩
    obtain ⟨_, before, after, split, passed⟩ := List.find?_eq_some_iff_append.1 first
    refine ⟨before, condition, after, split,
      (Condition.columnsOn_eq_some_iff apart).1 columns, fun earlier among other equates => ?_⟩
    have refused := passed earlier among
    rw [(compares earlier).2 ⟨other, equates⟩] at refused
    cases refused
  · rintro ⟨before, condition, after, split, equates, passed⟩
    refine ⟨condition, List.find?_eq_some_iff_append.2
      ⟨(compares condition).2 ⟨own, equates⟩, before, after, split, fun earlier among => ?_⟩,
      (Condition.columnsOn_eq_some_iff apart).2 equates⟩
    rw [Bool.not_eq_true', ← Bool.not_eq_true, compares]
    rintro ⟨other, equates⟩
    exact passed earlier among other equates

theorem rename?_eq_some_iff_first (apart : anchor ≠ target) {name : String} {rename : Rename} :
    Shortcut.rename? (view.joinColumns anchor target) name = some rename ↔
      view.RenamedFirst anchor target name rename := by
  rw [Shortcut.rename?_eq_some_iff, find?_joinColumns_eq_some_iff apart, RenamedFirst]

/-- A shortcut exists exactly for the needed columns with which the anchor absorbs its join. -/
theorem exists_find?_iff :
    (∃ found, Shortcut.find? view (JoinGraph.ofView view) anchor target needed = some found) ↔
      view.Absorbs anchor target needed := by
  constructor
  · rintro ⟨found, shortened⟩
    obtain ⟨apart, asked, joined, ⟨source, standing, reads⟩, _⟩ :=
      Shortcut.find?_eq_some_iff.1 shortened
    constructor
    case apart => exact apart
    case asked => exact asked
    case joined => exact joined
    case stored =>
      intro condition declared own other equates
      have paired := (mem_joinColumns apart).2 ⟨condition, declared, equates⟩
      exact ⟨source, standing, (reads _ paired).2⟩
    case covers =>
      intro name
      constructor
      · intro wanted
        obtain ⟨condition, declared, equates⟩ :=
          (mem_joinColumns apart).1 (Shortcut.stored_mem shortened wanted)
        exact ⟨condition, declared, _, equates⟩
      · rintro ⟨condition, declared, own, equates⟩
        exact (reads _ ((mem_joinColumns apart).2 ⟨condition, declared, equates⟩)).1
  · intro absorbs
    have renamed : ∀ name ∈ needed, ∃ rename,
        Shortcut.rename? (view.joinColumns anchor target) name = some rename := by
      intro name wanted
      obtain ⟨condition, declared, own, equates⟩ := (absorbs.covers name).1 wanted
      apply Option.isSome_iff_exists.1
      rw [Shortcut.rename?, Option.isSome_map, List.find?_isSome]
      exact ⟨(own, name), (mem_joinColumns absorbs.apart).2 ⟨condition, declared, equates⟩,
        beq_self_eq_true name⟩
    obtain ⟨renames, pointwise⟩ := exists_forall₂ renamed
    obtain ⟨name, wanted⟩ := List.exists_mem_of_ne_nil needed absorbs.asked
    obtain ⟨condition, declared, own, equates⟩ := (absorbs.covers name).1 wanted
    obtain ⟨source, standing, _⟩ := absorbs.stored condition declared own name equates
    refine ⟨⟨anchor, target, renames⟩, Shortcut.find?_eq_some_iff.2
      ⟨absorbs.apart, absorbs.asked, absorbs.joined, ⟨source, standing, ?_⟩, rfl, rfl, pointwise⟩⟩
    rintro ⟨own, other⟩ paired
    obtain ⟨condition, declared, equates⟩ := (mem_joinColumns absorbs.apart).1 paired
    obtain ⟨again, standingAgain, column⟩ := absorbs.stored condition declared own other equates
    obtain rfl : source = again := Option.some.inj (standing.symm.trans standingAgain)
    exact ⟨(absorbs.covers other).2 ⟨condition, declared, own, equates⟩, column⟩

/-- Only the set of the needed columns counts. -/
theorem Absorbs.of_mem_iff {others : List String} (absorbs : view.Absorbs anchor target needed)
    (same : ∀ name, name ∈ others ↔ name ∈ needed) : view.Absorbs anchor target others where
  apart := absorbs.apart
  asked := by
    rintro rfl
    obtain ⟨name, wanted⟩ := List.exists_mem_of_ne_nil needed absorbs.asked
    cases (same name).2 wanted
  joined := absorbs.joined
  stored := absorbs.stored
  covers name := (same name).trans (absorbs.covers name)

/--
Where joins name no other positions than those of the view, a shortcut exists
exactly if the anchor absorbs its join with the target for the needed columns.
Its renames are those of the needed columns, one by one, each by the first
declared condition on it, and the path that it replaces has one join.
-/
theorem shortcut_absorbs (inRange : view.JoinsInRange) (anchored : anchor < view.sources.length)
    (known : target < view.sources.length) (needed : List String) :
    ((∃ found, Shortcut.find? view (JoinGraph.ofView view) anchor target needed = some found) ↔
      view.Absorbs anchor target needed) ∧
    ∀ found, Shortcut.find? view (JoinGraph.ofView view) anchor target needed = some found →
      found.anchor = anchor ∧ found.target = target ∧
        List.Forall₂ (view.RenamedFirst anchor target) needed found.renames ∧
        (JoinGraph.ofView view).shortestPath? anchor target = some [anchor, target] := by
  refine ⟨exists_find?_iff, fun found shortened => ?_⟩
  obtain ⟨apart, _, joined, _, starts, ends, renamed⟩ := Shortcut.find?_eq_some_iff.1 shortened
  obtain ⟨path, searched⟩ := inRange.exists_path_iff.2
    ⟨anchored, known, [anchor, target], .cons joined (.single target)⟩
  have direct : path = [anchor, target] := (inRange.shortest searched).eq_pair apart joined
  rw [direct] at searched
  refine ⟨starts, ends, renamed.imp fun name rename => ?_, searched⟩
  exact (rename?_eq_some_iff_first apart).1

/-- An order absorbs its join with the customer for both columns, in any order, and not for one. -/
theorem shortcut_absorbs_parcels :
    parcels.Absorbs 0 1 ["region", "id", "region"] ∧ ¬ parcels.Absorbs 0 1 ["id"] ∧
      List.Forall₂ (parcels.RenamedFirst 0 1) ["region", "id", "region"]
        [⟨"region", "region"⟩, ⟨"id", "customer"⟩, ⟨"region", "region"⟩] ∧
      (JoinGraph.ofView parcels).shortestPath? 0 1 = some [0, 1] := by
  have inRange := (Definition.wellFormed_of_resolve parcels_resolved).1.joinsInRange
  have anchored : 0 < parcels.sources.length := by decide
  have known : 1 < parcels.sources.length := by decide
  have decides := shortcut_absorbs inRange anchored known
  have both : Shortcut.find? parcels (.ofView parcels) 0 1 ["region", "id", "region"] =
      some ⟨0, 1, [⟨"region", "region"⟩, ⟨"id", "customer"⟩, ⟨"region", "region"⟩]⟩ := rfl
  obtain ⟨exactly, renames⟩ := decides ["region", "id", "region"]
  obtain ⟨_, _, renamed, direct⟩ := renames _ both
  refine ⟨exactly.1 ⟨_, both⟩, fun absorbs => ?_, renamed, direct⟩
  obtain ⟨found, shortened⟩ := (decides ["id"]).1.2 absorbs
  cases shortened

end View

end Rejoin
