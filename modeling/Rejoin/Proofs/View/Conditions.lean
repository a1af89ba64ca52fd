import Mathlib.Data.List.Perm.Basic
import Rejoin.Proofs.Condition
import Rejoin.Proofs.JoinGraph.Chain
import Rejoin.Proofs.View.WellFormed

/-!
# The conditions on some sources

A set of sources induces the conditions that stay within it.  Along a shortest
chain they are, source by source, the joins with the source before and then the
conditions on the source itself: a chain without chords leaves nothing else.
-/

namespace Rejoin.View

/-- The conditions that pass a test of their declarer and themselves, in declaration order. -/
def conditionsWhere (view : View) (test : Nat → Condition Nat Literal → Bool) :
    List (Condition Nat Literal) :=
  view.sources.flatMap (fun source => source.conditions.filter (test source.index))

/-- The conditions that join two sources. -/
def joinsBetween (view : View) (first second : Nat) : List (Condition Nat Literal) :=
  view.conditions.filter (fun condition => condition.relates first second)

/-- The conditions on one source alone. -/
def guardsOn (view : View) (node : Nat) : List (Condition Nat Literal) :=
  view.conditionsWhere (fun declarer condition => condition.constrains declarer node)

/-- The conditions that some sources keep. -/
def induced (view : View) (nodes : List Nat) : List (Condition Nat Literal) :=
  view.conditionsWhere (fun declarer condition => condition.staysWithin declarer nodes)

/-- A declared condition joins the two sources. -/
def Joined (view : View) (first second : Nat) : Prop :=
  ∃ condition ∈ view.conditions, condition.relates first second = true

/-- The joins of a source with the one before it in a chain, if there is one. -/
def joinsInto (view : View) : Option Nat → Nat → List (Condition Nat Literal)
  | none, _ => []
  | some previous, node => view.joinsBetween previous node

/-- What a source of a chain carries: the joins that lead to it, then the guards on it. -/
def carried (view : View) (previous : Option Nat) (node : Nat) : List (Condition Nat Literal) :=
  view.joinsInto previous node ++ view.guardsOn node

variable {view : View}

theorem Joined.symm {first second : Nat} (joined : view.Joined first second) :
    view.Joined second first := by
  obtain ⟨condition, declared, joins⟩ := joined
  exact ⟨condition, declared, by rwa [Condition.relates_comm]⟩

theorem mem_conditionsWhere {test : Nat → Condition Nat Literal → Bool}
    {condition : Condition Nat Literal} :
    condition ∈ view.conditionsWhere test ↔
      ∃ source ∈ view.sources, condition ∈ source.conditions ∧
        test source.index condition = true := by
  simp [conditionsWhere]

theorem joinsBetween_eq_where (view : View) (first second : Nat) :
    view.joinsBetween first second =
      view.conditionsWhere (fun _ condition => condition.relates first second) := by
  simp only [joinsBetween, conditionsWhere, conditions, List.filter_flatMap]

theorem mem_joinsInto {previous : Option Nat} {node : Nat} {condition : Condition Nat Literal} :
    condition ∈ view.joinsInto previous node ↔ condition ∈ view.conditions ∧
      ∃ before, previous = some before ∧ condition.relates before node = true := by
  cases previous <;> simp [joinsInto, joinsBetween]

theorem mem_conditions_of_mem_where {test : Nat → Condition Nat Literal → Bool}
    {condition : Condition Nat Literal} (among : condition ∈ view.conditionsWhere test) :
    condition ∈ view.conditions := by
  obtain ⟨source, held, own, _⟩ := mem_conditionsWhere.1 among
  exact mem_conditions.2 ⟨source, held, own⟩

theorem mem_conditions_of_mem_carried {previous : Option Nat} {node : Nat}
    {condition : Condition Nat Literal} (among : condition ∈ view.carried previous node) :
    condition ∈ view.conditions := by
  rcases List.mem_append.1 among with join | guard
  · exact (mem_joinsInto.1 join).1
  · exact mem_conditions_of_mem_where guard

/-- A carried condition names the source that carries it and the one before. -/
theorem source_of_mem_carried {previous : Option Nat} {node : Nat}
    {condition : Condition Nat Literal} (among : condition ∈ view.carried previous node)
    {ref : ColumnRef Nat} (named : ref ∈ condition.references) :
    ref.source = node ∨ previous = some ref.source := by
  rcases List.mem_append.1 among with join | guard
  · obtain ⟨_, before, rfl, relates⟩ := mem_joinsInto.1 join
    rcases Condition.source_of_relates relates named with earlier | own
    · exact .inr (by rw [earlier])
    · exact .inl own
  · obtain ⟨_, _, _, about⟩ := mem_conditionsWhere.1 guard
    exact .inl (Condition.source_of_constrains about named)

theorem conditionsWhere_congr {test other : Nat → Condition Nat Literal → Bool}
    (agree : ∀ declarer, ∀ condition ∈ view.conditions,
      test declarer condition = other declarer condition) :
    view.conditionsWhere test = view.conditionsWhere other := by
  refine List.flatMap_congr fun source among => List.filter_congr fun condition own => ?_
  exact agree source.index condition (mem_conditions.2 ⟨source, among, own⟩)

/-- Where all entries but one contribute nothing, that one contributes everything. -/
theorem flatMap_eq_of_getElem? {α β : Type} {contents : α → List β} {entries : List α}
    {place : Nat} {entry : α} (found : entries[place]? = some entry)
    (others : ∀ other next, entries[other]? = some next → other ≠ place → contents next = []) :
    entries.flatMap contents = contents entry := by
  induction entries generalizing place with
  | nil => simp at found
  | cons first rest ih =>
      rw [List.flatMap_cons]
      cases place with
      | zero =>
          obtain rfl : first = entry := by simpa using found
          have empty : rest.flatMap contents = [] := by
            rw [List.flatMap_eq_nil_iff]
            intro next among
            obtain ⟨later, held⟩ := List.mem_iff_getElem?.1 among
            exact others (later + 1) next (by simpa using held) (Nat.succ_ne_zero later)
          rw [empty, List.append_nil]
      | succ place =>
          have empty : contents first = [] := others 0 first rfl (Nat.succ_ne_zero place).symm
          rw [empty, List.nil_append]
          refine ih (by simpa using found) fun later next held apart => ?_
          exact others (later + 1) next (by simpa using held) (by simpa using apart)

/-- A test that conditions of one source alone can pass selects among these. -/
theorem conditionsWhere_eq_filter {test : Nat → Condition Nat Literal → Bool} {position : Nat}
    {source : Source} (found : view.source? position = some source)
    (others : ∀ other next, view.source? other = some next → other ≠ position →
      ∀ condition ∈ next.conditions, test next.index condition = false) :
    view.conditionsWhere test = source.conditions.filter (test source.index) := by
  refine flatMap_eq_of_getElem? found fun other next held apart => ?_
  rw [List.filter_eq_nil_iff]
  intro condition own
  rw [others other next held apart condition own]
  exact Bool.false_ne_true

/-- Entries that pass one of two exclusive tests are those of the one and of the other. -/
theorem filter_or_perm {α : Type} {test other : α → Bool} {entries : List α}
    (exclusive : ∀ entry ∈ entries, test entry = true → other entry = false) :
    (entries.filter test ++ entries.filter other).Perm
      (entries.filter (fun entry => test entry || other entry)) := by
  induction entries with
  | nil => exact List.Perm.refl _
  | cons entry rest ih =>
      have later := ih fun entry among => exclusive entry (List.mem_cons_of_mem _ among)
      cases tested : test entry with
      | true =>
          have excluded := exclusive entry List.mem_cons_self tested
          simpa [List.filter_cons, tested, excluded] using later
      | false =>
          cases otherwise : other entry with
          | true =>
              simpa [List.filter_cons, tested, otherwise] using
                List.perm_middle.trans (later.cons entry)
          | false => simpa [List.filter_cons, tested, otherwise] using later

theorem conditionsWhere_or_perm {test other : Nat → Condition Nat Literal → Bool}
    (exclusive : ∀ declarer, ∀ condition ∈ view.conditions,
      test declarer condition = true → other declarer condition = false) :
    (view.conditionsWhere test ++ view.conditionsWhere other).Perm
      (view.conditionsWhere
        (fun declarer condition => test declarer condition || other declarer condition)) := by
  refine (List.flatMap_append_perm _ _ _).trans (List.Perm.flatMap_left _ fun source among => ?_)
  apply filter_or_perm
  intro condition own
  exact exclusive source.index condition (mem_conditions.2 ⟨source, among, own⟩)

/-- The first of several sources of a chain without chords adds its guards and its one join. -/
theorem induced_cons_perm {first second last : Nat} {rest : List Nat}
    (shortest : Shortest view.Joined first last (first :: second :: rest)) :
    (view.guardsOn first ++ (view.joinsBetween first second ++ view.induced (second :: rest))).Perm
      (view.induced (first :: second :: rest)) := by
  have absent := shortest.not_mem
  have chordless (condition : Condition Nat Literal) (declared : condition ∈ view.conditions)
      (node : Nat) (among : node ∈ rest) : condition.relates first node = false := by
    rw [Bool.eq_false_iff]
    exact fun joins => shortest.no_chord among ⟨condition, declared, joins⟩
  rw [joinsBetween_eq_where]
  refine ((conditionsWhere_or_perm fun declarer condition _ joins => ?_).append_left _).trans
    ((conditionsWhere_or_perm fun declarer condition _ about => ?_).trans (List.Perm.of_eq ?_))
  · exact Condition.not_staysWithin_of_relates absent joins
  · rw [Bool.or_eq_false_iff]
    refine ⟨?_, Condition.not_staysWithin_of_constrains absent about⟩
    rw [Bool.eq_false_iff]
    intro joins
    rw [Condition.not_constrains_of_relates joins] at about
    cases about
  · exact conditionsWhere_congr fun declarer condition declared =>
      (Condition.staysWithin_cons (chordless condition declared)).symm

/-- The conditions carried along a shortest chain are those its sources induce. -/
theorem carried_perm_induced {first last : Nat} {path : List Nat}
    (shortest : Shortest view.Joined first last path) :
    (List.zipWith view.carried (none :: path.map some) path).flatten.Perm (view.induced path) := by
  induction path generalizing first with
  | nil => cases shortest.chain
  | cons head rest ih =>
      obtain rfl : head = first := by simpa using shortest.chain.head?
      cases rest with
      | nil =>
          refine List.Perm.of_eq ?_
          simp [carried, joinsInto, induced, guardsOn, Condition.staysWithin_singleton]
      | cons second rest =>
          have later := ih shortest.tail
          have moved : (List.zipWith view.carried (none :: (head :: second :: rest).map some)
              (head :: second :: rest)).flatten =
              view.guardsOn head ++ (view.joinsBetween head second ++
                (List.zipWith view.carried (none :: (second :: rest).map some)
                  (second :: rest)).flatten) := by
            simp [carried, joinsInto]
          rw [moved]
          exact ((later.append_left _).append_left _).trans (induced_cons_perm shortest)

end Rejoin.View
