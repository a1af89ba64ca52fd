import Rejoin.Proofs.Plan.Outcome
import Rejoin.Proofs.Plan.Tuples
import Rejoin.Proofs.Plan.WellFormed

/-!
# What shortcuts change

Planning with shortcuts and planning without differ only where a shortcut is
taken.  There the joined slice is the anchor with the target after it, and the
shortened one is the anchor alone: it answers with every tuple of the joined
one, and with no other as long as it reads all that the join compares.
-/

namespace Rejoin

/-- The two columns have one name and are the same if one of them is computed. -/
def OutputColumn.Alike {σ ℓ : Type} (column other : OutputColumn σ ℓ) : Prop :=
  column.name = other.name ∧
    (column.isComputed = true ∨ other.isComputed = true → column = other)

/-- A projection gives alike columns wherever the target's columns are read. -/
theorem Projection.output_alike (projection : Projection) (position place : Nat)
    (stored kept : String → String) :
    (projection.output position stored).Alike (projection.output place kept) := by
  cases projection with
  | copied copy => exact ⟨rfl, fun _ => rfl⟩
  | column name wanted => exact ⟨rfl, fun computed => by cases computed <;> contradiction⟩

namespace View

variable {view : View} {start : Nat} {anchor : String} {goal : Goal} {request : Request}
  {path : List Nat} {short long : View} {found : Shortcut}

/-- One source stands alone where the other slice joins the target to it. -/
structure Shortens (view : View) (anchor : String) (target : Nat) (short long : View) : Prop where
  sources : ∃ first second, short.sources = [first] ∧ long.sources = [first, second] ∧
    first.name = anchor ∧ view.aliases[target]? = some second.name
  literals : short.literals ⊆ long.literals

/-- The slices of one request on its anchor alone, by a shortcut, and with the target joined. -/
structure TakenShortcut (view : View) (start : Nat) (request : Request) (found : Shortcut)
    (short long : View) : Prop where
  taken : Shortcut.find? view (JoinGraph.ofView view) start request.target request.needed =
    some found
  alone : view.LaidOut [start] found.stored request short
  joined : view.LaidOut [start, request.target] id request long

/--
In these tables every guarded row of a shortcut's anchor has a guarded partner of
the target that agrees with it on the renamed columns.
-/
def Partnered {α : Type} (view : View) (valuation : Literal → α) (shortcut : Shortcut)
    (tables : String → Set (String → α)) : Prop :=
  ∀ first ∈ tables (view.aliasAt shortcut.anchor), view.Guarded valuation shortcut.anchor first →
    ∃ second ∈ tables (view.aliasAt shortcut.target),
      view.Guarded valuation shortcut.target second ∧
        ∀ rename ∈ shortcut.renames, first rename.anchorColumn = second rename.targetColumn

/-- The slices with shortcuts and without are the same along a path, unless one is taken. -/
theorem plans_of_path (wellFormed : view.WellFormed) (anchored : view.indexOf? anchor = some start)
    (made : goal.request view = .ok request)
    (reached : (JoinGraph.ofView view).shortestPath? start request.target = some path) :
    ∃ short long, view.plan ⟨true⟩ anchor goal = .ok (some short) ∧
      view.plan ⟨false⟩ anchor goal = .ok (some long) ∧
      (Shortcut.find? view (JoinGraph.ofView view) start request.target request.needed = none ∧
          short = long ∨
        ∃ found, view.TakenShortcut start request found short long) := by
  obtain ⟨short, shortPlanned, shortened⟩ :=
    plan_laidOut wellFormed ⟨true⟩ anchored made reached
  obtain ⟨long, longPlanned, joined⟩ :=
    plan_laidOut wellFormed ⟨false⟩ anchored made reached
  have longLaid : view.LaidOut path id request long := by
    rcases joined with ⟨_, taken, _⟩ | ⟨_, laid⟩
    · cases taken
    · exact laid
  refine ⟨short, long, shortPlanned, longPlanned, ?_⟩
  rcases shortened with ⟨found, taken, laid⟩ | ⟨free, laid⟩
  · have taken := (shortcut?_eq_some_iff.1 taken).2
    obtain ⟨apart, _, link, _⟩ := Shortcut.find?_eq_some_iff.1 taken
    have shortest : Shortest view.Joined start request.target path := by
      rw [← wellFormed.linked_eq_joined]
      exact JoinGraph.shortestPath?_shortest reached
    -- a shortcut stands for a direct join, which no shortest path goes around
    obtain rfl := shortest.eq_pair apart link
    exact .inr ⟨found, taken, laid, longLaid⟩
  · exact .inl ⟨free, laid.unique longLaid⟩

/-- The first source of a slice has its guards and nothing else, whatever follows. -/
theorem CutAlong.exists_first {order : List Nat} {slice : View}
    (cut : view.CutAlong (start :: order) request slice) :
    ∃ entry rest, view.source? start = some entry ∧
      slice.sources = view.movedSource [start] none 0 start entry :: rest ∧
      rest.length = order.length := by
  obtain ⟨entry, found, moved⟩ := cut.source 0 start rfl
  have guards : (view.carried none start).map (Condition.mapSource (relocate (start :: order))) =
      (view.carried none start).map (Condition.mapSource (relocate [start])) := by
    refine List.map_congr_left fun condition carried =>
      Condition.mapSource_congr fun ref among => ?_
    obtain same : ref.source = start :=
      (source_of_mem_carried carried among).resolve_right nofun
    have first : (start :: order)[0]? = some start := rfl
    have alone : [start][0]? = some start := rfl
    rw [same, relocate_eq cut.distinct first, relocate_eq (List.nodup_singleton start) alone]
  have length := cut.length
  cases sources : slice.sources with
  | nil => simp [sources] at length
  | cons first rest =>
      rw [source?, sources] at moved
      refine ⟨entry, rest, found, ?_, by simpa [sources] using length⟩
      obtain rfl : first = _ := Option.some.inj moved
      rw [movedSource, before?, guards]
      rfl

namespace TakenShortcut

/-! ## The shape of a shortened slice -/

theorem exists_sources (both : view.TakenShortcut start request found short long) :
    ∃ first second entry target, short.sources = [first] ∧ long.sources = [first, second] ∧
      view.source? start = some entry ∧ view.source? request.target = some target ∧
      first.name = entry.name ∧ second.name = target.name := by
  obtain ⟨entry, rest, existing, shortSources, single⟩ := both.alone.cut.exists_first
  obtain ⟨again, others, existingAgain, longSources, double⟩ := both.joined.cut.exists_first
  obtain rfl : entry = again := Option.some.inj (existing.symm.trans existingAgain)
  obtain rfl := List.eq_nil_of_length_eq_zero single
  obtain ⟨second, rfl⟩ := List.length_eq_one_iff.1 double
  obtain ⟨target, held, moved⟩ := both.joined.cut.source 1 request.target rfl
  rw [source?, longSources] at moved
  obtain rfl : second = _ := Option.some.inj moved
  exact ⟨_, _, entry, target, shortSources, longSources, existing, held, rfl, rfl⟩

/-- Whatever the anchor alone writes, the joined slice writes too. -/
theorem written_subset (both : view.TakenShortcut start request found short long) :
    writtenLiterals short.sources short.columns ⊆ writtenLiterals long.sources long.columns := by
  obtain ⟨first, second, _, _, shortSources, longSources, _⟩ := both.exists_sources
  intro literal written
  rcases List.mem_append.1 written with compared | computed
  · refine List.mem_append_left _ ?_
    rw [shortSources] at compared
    rw [longSources, List.flatMap_cons, List.flatMap_append]
    exact List.mem_append_left _ (by simpa using compared)
  · refine List.mem_append_right _ ?_
    obtain ⟨column, held, bound⟩ := List.mem_filterMap.1 computed
    rw [both.alone.columns] at held
    obtain ⟨projection, requested, rfl⟩ := List.mem_map.1 held
    cases projection with
    | column name wanted => cases bound
    | copied copy =>
        refine List.mem_filterMap.2 ⟨copy, ?_, bound⟩
        rw [both.joined.columns]
        exact List.mem_map.2 ⟨_, requested, rfl⟩

theorem shortens (both : view.TakenShortcut start request found short long)
    (wellFormed : view.WellFormed) (anchored : view.indexOf? anchor = some start)
    (fits : request.Fits view) : view.Shortens anchor request.target short long := by
  obtain ⟨first, second, entry, target, shortSources, longSources, existing, held, named, aimed⟩ :=
    both.exists_sources
  obtain ⟨source, found, same⟩ := wellFormed.indexOf?_eq_some_iff.1 anchored
  obtain rfl : entry = source := Option.some.inj (existing.symm.trans found)
  refine ⟨⟨first, second, shortSources, longSources, named.trans same, ?_⟩, fun literal used => ?_⟩
  · rw [aliases_getElem?, held, Option.map_some, aimed]
  · rw [both.alone.cut.literals] at used
    exact both.joined.cut.mem_literals_of_written wellFormed fits
      (both.written_subset (mem_of_mem_eraseDupsBy used))

/-- Column by column the two slices agree but for where the target is read. -/
theorem columns_alike (both : view.TakenShortcut start request found short long) :
    List.Forall₂ OutputColumn.Alike short.columns long.columns := by
  rw [both.alone.columns, both.joined.columns, List.forall₂_map_left_iff,
    List.forall₂_map_right_iff, List.forall₂_same]
  exact fun projection _ => projection.output_alike _ _ _ _

/-! ## The tuples of a shortened slice -/

variable {α : Type} {valuation : Literal → α} {tables : String → Set (String → α)}
  {first second : String → α} {tuple : List α}

/-- In rows that agree on the join, the anchor stores what the target has. -/
theorem tuple_stored (both : view.TakenShortcut start request found short long)
    (agree : ∀ pair ∈ view.joinColumns start request.target, first pair.1 = second pair.2) :
    request.tuple (fun column => first (found.stored column)) = request.tuple second :=
  Request.tuple_congr fun _ wanted => agree _ (Shortcut.stored_mem both.taken wanted)

/-- The joined slice yields no tuple that the shortened one does not yield from the same row. -/
theorem yields_of_joined (both : view.TakenShortcut start request found short long)
    (fits : request.Fits view) (yields : long.Yields valuation tables first tuple) :
    short.Yields valuation tables first tuple := by
  obtain ⟨drawn, guarded, second, _, _, agree, rfl⟩ := (both.joined.yields_pair_iff fits).1 yields
  exact (both.alone.yields_single_iff fits).2 ⟨drawn, guarded, both.tuple_stored agree⟩

/-- When the renames read all of the join, partnered tables yield nothing more by the shortcut. -/
theorem joined_yields (both : view.TakenShortcut start request found short long)
    (fits : request.Fits view)
    (reads : ∀ pair ∈ view.joinColumns start request.target, ⟨pair.2, pair.1⟩ ∈ found.renames)
    (partnered : view.Partnered valuation found tables)
    (yields : short.Yields valuation tables first tuple) :
    long.Yields valuation tables first tuple := by
  obtain ⟨_, _, _, _, anchor, target, _⟩ := Shortcut.find?_eq_some_iff.1 both.taken
  rw [Partnered, anchor, target] at partnered
  obtain ⟨drawn, guarded, rfl⟩ := (both.alone.yields_single_iff fits).1 yields
  obtain ⟨second, secondDrawn, secondGuarded, renamed⟩ := partnered first drawn guarded
  have agree : ∀ pair ∈ view.joinColumns start request.target, first pair.1 = second pair.2 :=
    fun pair among => renamed _ (reads pair among)
  exact (both.joined.yields_pair_iff fits).2 ⟨drawn, guarded, second, secondDrawn, secondGuarded,
    agree, (both.tuple_stored agree).symm⟩

end TakenShortcut

/-! ## Planning with shortcuts and without -/

/--
Shortcuts on or off, planning fails alike, finds no path alike, or gives slices
of one name with alike columns.  They are one slice, or the anchor alone stands
for its join with the target; every tuple of the joined slice stays.
-/
theorem shortcuts_keep_answers {definition : Definition} (resolved : definition.resolve = .ok view)
    (anchor : String) (goal : Goal) :
    (∃ error, view.plan ⟨true⟩ anchor goal = .error error ∧
      view.plan ⟨false⟩ anchor goal = .error error) ∨
    (view.plan ⟨true⟩ anchor goal = .ok none ∧ view.plan ⟨false⟩ anchor goal = .ok none) ∨
    ∃ short long, view.plan ⟨true⟩ anchor goal = .ok (some short) ∧
      view.plan ⟨false⟩ anchor goal = .ok (some long) ∧ short.name = long.name ∧
      List.Forall₂ OutputColumn.Alike short.columns long.columns ∧
      (short = long ∨
        ∃ target, goal.Targets view target ∧ view.Shortens anchor target short long) ∧
      ∀ (α : Type) (valuation : Literal → α) (tables : String → Set (String → α))
        (first : String → α) (tuple : List α),
        long.Yields valuation tables first tuple → short.Yields valuation tables first tuple := by
  have wellFormed := (Definition.wellFormed_of_resolve resolved).1
  by_cases refused : ∃ error, view.Refused anchor goal error
  · obtain ⟨error, refused⟩ := refused
    exact .inl ⟨error, (plan_eq_error_iff wellFormed).2 refused,
      (plan_eq_error_iff wellFormed).2 refused⟩
  obtain ⟨start, request, anchored, made, targets⟩ :=
    exists_request wellFormed (not_exists.1 refused)
  cases reached : (JoinGraph.ofView view).shortestPath? start request.target with
  | none =>
      exact .inr (.inl ⟨plan_eq_none anchored made reached, plan_eq_none anchored made reached⟩)
  | some path =>
      obtain ⟨short, long, shortPlanned, longPlanned, related⟩ :=
        plans_of_path wellFormed anchored made reached
      have fits := goal.request_fits wellFormed made
      refine .inr (.inr ⟨short, long, shortPlanned, longPlanned, ?_⟩)
      rcases related with ⟨_, rfl⟩ | ⟨found, both⟩
      · exact ⟨rfl, List.forall₂_same.2 fun _ _ => ⟨rfl, fun _ => rfl⟩, .inl rfl,
          fun _ _ _ _ _ yields => yields⟩
      · exact ⟨both.alone.name.trans both.joined.name.symm, both.columns_alike,
          .inr ⟨request.target, (targets _).2 rfl, both.shortens wellFormed anchored fits⟩,
          fun _ _ _ _ _ yields => both.yields_of_joined fits yields⟩

/-- The customer of a note is found in the note alone, whatever the grade of the customer. -/
theorem shortcuts_keep_answers_parcels :
    ∃ short long, parcels.plan ⟨true⟩ "note" (.fields 1 ["id"]) = .ok (some short) ∧
      parcels.plan ⟨false⟩ "note" (.fields 1 ["id"]) = .ok (some long) ∧ short ≠ long ∧
      parcels.Shortens "note" 1 short long := by
  rcases shortcuts_keep_answers parcels_resolved "note" (.fields 1 ["id"]) with
    ⟨_, failed, _⟩ | ⟨none, _⟩ | ⟨short, long, shortPlanned, longPlanned, _, _, related, _⟩
  · cases failed
  · cases none
  · have apart : short ≠ long := by
      rintro rfl
      cases shortPlanned
      cases longPlanned
    obtain ⟨target, aimed, shortens⟩ := related.resolve_left apart
    cases aimed
    exact ⟨short, long, shortPlanned, longPlanned, apart, shortens⟩

/--
The renames of a shortcut read all of its join just when no column of the target
is equated with two of the anchor.  Then the slices with and without it yield
the same tuples from partnered tables.
-/
theorem shortcut_reads_join {definition : Definition} (resolved : definition.resolve = .ok view)
    {start target : Nat} {needed : List String} {found : Shortcut}
    (taken : Shortcut.find? view (JoinGraph.ofView view) start target needed = some found) :
    ∃ edge, (JoinGraph.ofView view).edgeBetween? start target = some edge ∧
      ((∀ pair ∈ edge.columnsBetween start target, ⟨pair.2, pair.1⟩ ∈ found.renames) ↔
        ∀ pair ∈ edge.columnsBetween start target, ∀ other ∈ edge.columnsBetween start target,
          pair.2 = other.2 → pair.1 = other.1) ∧
      ((∀ pair ∈ edge.columnsBetween start target, ⟨pair.2, pair.1⟩ ∈ found.renames) →
        ∀ (anchor : String) (goal : Goal) (request : Request),
          view.aliases[start]? = some anchor → goal.request view = .ok request →
          request.target = target → request.needed = needed →
          ∃ short long, view.plan ⟨true⟩ anchor goal = .ok (some short) ∧
            view.plan ⟨false⟩ anchor goal = .ok (some long) ∧
            ∀ (α : Type) (valuation : Literal → α) (tables : String → Set (String → α)),
              view.Partnered valuation found tables → ∀ first tuple,
                short.Yields valuation tables first tuple ↔
                  long.Yields valuation tables first tuple) := by
  have wellFormed := (Definition.wellFormed_of_resolve resolved).1
  obtain ⟨_, _, link, _⟩ := Shortcut.find?_eq_some_iff.1 taken
  obtain ⟨edge, edgeFound⟩ := link.exists_edgeBetween?
  refine ⟨edge, edgeFound, ?_, ?_⟩
  · rw [Edge.columnsBetween_eq edgeFound]
    exact Shortcut.reads_join_iff taken
  · rw [Edge.columnsBetween_eq edgeFound]
    rintro reads anchor goal request named made rfl rfl
    have anchored := wellFormed.indexOf?_eq_some_iff_alias.2 named
    have fits := goal.request_fits wellFormed made
    obtain ⟨path, reached⟩ := wellFormed.exists_path fits.target (.cons link (.single _))
    obtain ⟨short, long, shortPlanned, longPlanned, related⟩ :=
      plans_of_path wellFormed anchored made reached
    refine ⟨short, long, shortPlanned, longPlanned, ?_⟩
    intro α valuation tables partnered first tuple
    rcases related with ⟨free, _⟩ | ⟨again, both⟩
    · cases free.symm.trans taken
    · obtain rfl : again = found := Option.some.inj (both.taken.symm.trans taken)
      exact ⟨both.joined_yields fits reads partnered, both.yields_of_joined fits⟩

/-- A note names its customer in one column, so nothing but the grade goes unread. -/
theorem shortcut_reads_join_parcels :
    ∃ short long, parcels.plan ⟨true⟩ "note" (.fields 1 ["id"]) = .ok (some short) ∧
      parcels.plan ⟨false⟩ "note" (.fields 1 ["id"]) = .ok (some long) ∧
      ∀ first tuple,
        short.Yields Literal.value (fun name => {parcelRows (parcels.aliases.idxOf name)}) first
            tuple ↔
          long.Yields Literal.value (fun name => {parcelRows (parcels.aliases.idxOf name)}) first
            tuple := by
  have taken : Shortcut.find? parcels (.ofView parcels) 2 1 ["id"] =
      some ⟨2, 1, [⟨"id", "customer"⟩]⟩ := rfl
  obtain ⟨edge, edgeFound, _, agree⟩ := shortcut_reads_join parcels_resolved taken
  cases edgeFound
  obtain ⟨short, long, shortPlanned, longPlanned, same⟩ :=
    agree (by decide) "note" (.fields 1 ["id"]) ⟨1, [.ofName "id"]⟩ rfl rfl rfl rfl
  refine ⟨short, long, shortPlanned, longPlanned, same String Literal.value _ ?_⟩
  rintro first rfl _
  exact ⟨parcelRows 1, rfl, by decide, by decide⟩

end View

/-! ## A shortcut that drops a pair -/

def Schema.people : Schema :=
  ⟨"people", ["id"], [⟨"id", "bigint"⟩]⟩

def Schema.letters : Schema :=
  ⟨"letters", ["id"], [⟨"id", "bigint"⟩, ⟨"sender", "bigint"⟩, ⟨"receiver", "bigint"⟩]⟩

/-- Letters that people send to themselves. -/
def View.keepsakes : View where
  name := "keepsakes"
  sources := [
    ⟨0, "people", "person", .main, .people, []⟩,
    ⟨1, "letters", "letter", .inner, .letters,
      [⟨.reference ⟨1, "sender"⟩, .reference ⟨0, "id"⟩⟩,
        ⟨.reference ⟨1, "receiver"⟩, .reference ⟨0, "id"⟩⟩]⟩]
  columns := [⟨"id", .reference ⟨0, "id"⟩⟩]
  filter := none
  literals := []
  keyOverride := none

/-- A letter to somebody else; the same row serves as its sender. -/
def letterRow : String → String
  | "receiver" => "8"
  | _ => "7"

/--
The shortcut reads the sender and drops the receiver.  It yields the sender of a
letter to somebody else, which the joined slice does not.
-/
theorem View.shortcut_drops_pair :
    keepsakes.unresolve.resolve = .ok keepsakes ∧
    ∃ found edge, Shortcut.find? keepsakes (.ofView keepsakes) 1 0 ["id"] = some found ∧
      (JoinGraph.ofView keepsakes).edgeBetween? 1 0 = some edge ∧
      ("receiver", "id") ∈ edge.columnsBetween 1 0 ∧ ⟨"id", "receiver"⟩ ∉ found.renames ∧
      ∃ short long, keepsakes.plan ⟨true⟩ "letter" .keyPath = .ok (some short) ∧
        keepsakes.plan ⟨false⟩ "letter" .keyPath = .ok (some long) ∧
        keepsakes.Partnered Literal.value found (fun _ => {letterRow}) ∧
        short.Yields Literal.value (fun _ => {letterRow}) letterRow ["7"] ∧
        ¬ long.Yields Literal.value (fun _ => {letterRow}) letterRow ["7"] := by
  refine ⟨rfl, _, _, rfl, rfl, by decide, by decide, _, _, rfl, rfl, ?_, ?_, ?_⟩
  · rintro first rfl _
    exact ⟨letterRow, rfl, by decide, by decide⟩
  · exact ⟨fun _ => letterRow, rfl, fun _ _ _ => rfl, by decide, rfl⟩
  · rintro ⟨rows, first, _, matched, _⟩
    have sent : rows 0 "sender" = rows 1 "id" := matched _ (List.mem_cons_self)
    have received : rows 0 "receiver" = rows 1 "id" :=
      matched _ (List.mem_cons_of_mem _ List.mem_cons_self)
    rw [first] at sent received
    exact absurd (sent.trans received.symm) (by decide)

end Rejoin
