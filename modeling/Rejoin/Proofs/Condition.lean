import Mathlib.Data.List.Basic
import Rejoin.Condition

/-!
# What a condition relates

A condition joins two different sources, or it constrains the one source its
references name, or it has no reference and constrains the source that declares
it.  A set of sources keeps the conditions that stay within it.
-/

namespace Rejoin.Condition

variable {σ ℓ : Type}

/-- A property of every column compared is one of both sides. -/
theorem forall_references {condition : Condition σ ℓ} {Holds : ColumnRef σ → Prop} :
    (∀ ref ∈ condition.references, Holds ref) ↔
      (∀ ref, condition.left.reference? = some ref → Holds ref) ∧
        ∀ ref, condition.right.reference? = some ref → Holds ref := by
  simp [references, operands, or_imp, forall_and]

theorem forall_literals {condition : Condition σ ℓ} {Holds : ℓ → Prop} :
    (∀ literal ∈ condition.literals, Holds literal) ↔
      (∀ literal, condition.left.literal? = some literal → Holds literal) ∧
        ∀ literal, condition.right.literal? = some literal → Holds literal := by
  simp [literals, operands, or_imp, forall_and]

/-- Only the new names of the sources that a condition names matter. -/
theorem mapSource_congr {τ : Type} {rename other : σ → τ} {condition : Condition σ ℓ}
    (agree : ∀ ref ∈ condition.references, rename ref.source = other ref.source) :
    condition.mapSource rename = condition.mapSource other := by
  obtain ⟨left, right⟩ := condition
  rw [forall_references] at agree
  have side (operand : Operand σ ℓ)
      (agree : ∀ ref, operand.reference? = some ref → rename ref.source = other ref.source) :
      operand.mapSource rename = operand.mapSource other := by
    cases operand with
    | reference ref => simp only [Operand.mapSource, ColumnRef.mapSource, agree ref rfl]
    | literal value => rfl
  simp only [mapSource, side left agree.1, side right agree.2]

@[simp] theorem mapSource_id (condition : Condition σ ℓ) : condition.mapSource id = condition := by
  rcases condition with ⟨_ | _, _ | _⟩ <;> rfl

theorem mapSource_mapSource {τ υ : Type} (rename : σ → τ) (again : τ → υ)
    (condition : Condition σ ℓ) :
    (condition.mapSource rename).mapSource again = condition.mapSource (again ∘ rename) := by
  rcases condition with ⟨_ | _, _ | _⟩ <;> rfl

/-- Renaming back undoes renaming on the sources that a condition names. -/
theorem mapSource_mapSource_cancel {τ : Type} {rename : σ → τ} {back : τ → σ}
    {condition : Condition σ ℓ}
    (cancels : ∀ ref ∈ condition.references, back (rename ref.source) = ref.source) :
    (condition.mapSource rename).mapSource back = condition := by
  have same : condition.mapSource (back ∘ rename) = condition.mapSource id :=
    mapSource_congr cancels
  rw [mapSource_mapSource, same, mapSource_id]

/-- The condition joins the two sources, in either orientation. -/
def relates (first second : Nat) : Condition Nat ℓ → Bool
  | ⟨.reference left, .reference right⟩ =>
      left.source != right.source &&
        (left.source == first && right.source == second ||
          left.source == second && right.source == first)
  | _ => false

/-- The sources a condition is about: those it names, or else the one that declares it. -/
def subjects (declarer : Nat) (condition : Condition Nat ℓ) : List Nat :=
  if condition.references.isEmpty then [declarer]
  else condition.references.map ColumnRef.source

/-- The condition is about one source alone. -/
def constrains (declarer node : Nat) (condition : Condition Nat ℓ) : Bool :=
  (condition.subjects declarer).all (fun source => source == node)

/-- The condition is about no other sources than these. -/
def staysWithin (declarer : Nat) (nodes : List Nat) (condition : Condition Nat ℓ) : Bool :=
  (condition.subjects declarer).all (fun source => nodes.contains source)

variable {condition : Condition Nat ℓ} {declarer first second node : Nat}

theorem subjects_cases (condition : Condition Nat ℓ) (declarer : Nat) :
    (∃ source, condition.subjects declarer = [source] ∧
        ∀ first second, condition.relates first second = false) ∨
      ∃ left right, condition.subjects declarer = [left, right] ∧
        ∀ first second, condition.relates first second = true ↔
          left ≠ right ∧ (left = first ∧ right = second ∨ left = second ∧ right = first) := by
  obtain ⟨left | left, right | right⟩ := condition
  · exact .inr ⟨left.source, right.source, rfl, fun first second => by simp [relates]⟩
  · exact .inl ⟨left.source, rfl, fun _ _ => rfl⟩
  · exact .inl ⟨right.source, rfl, fun _ _ => rfl⟩
  · exact .inl ⟨declarer, rfl, fun _ _ => rfl⟩

theorem mem_subjects_of_mem_references {ref : ColumnRef Nat}
    (among : ref ∈ condition.references) : ref.source ∈ condition.subjects declarer := by
  rw [subjects, if_neg (by simpa using List.ne_nil_of_mem among)]
  exact List.mem_map_of_mem among

theorem subject_of_constrains (about : condition.constrains declarer node = true) {subject : Nat}
    (among : subject ∈ condition.subjects declarer) : subject = node := by
  simpa using List.all_eq_true.1 about subject among

theorem source_of_constrains (about : condition.constrains declarer node = true)
    {ref : ColumnRef Nat} (among : ref ∈ condition.references) : ref.source = node :=
  subject_of_constrains about (mem_subjects_of_mem_references among)

/-- A join is about the two sources that it joins. -/
theorem subject_of_relates (joins : condition.relates first second = true) {subject : Nat}
    (among : subject ∈ condition.subjects declarer) : subject = first ∨ subject = second := by
  rcases condition.subjects_cases declarer with ⟨source, _, free⟩ | ⟨left, right, named, joined⟩
  · rw [free] at joins
    cases joins
  · obtain ⟨_, ends⟩ := (joined first second).1 joins
    rw [named] at among
    simp only [List.mem_cons, List.not_mem_nil, or_false] at among
    omega

theorem source_of_relates (joins : condition.relates first second = true) {ref : ColumnRef Nat}
    (among : ref ∈ condition.references) : ref.source = first ∨ ref.source = second := by
  have subject : ref.source ∈ condition.subjects 0 := mem_subjects_of_mem_references among
  exact subject_of_relates joins subject

theorem exists_reference_of_relates (joins : condition.relates first second = true) :
    ∃ ref ∈ condition.references, ref.source = second := by
  obtain ⟨left | left, right | right⟩ := condition <;> simp [relates] at joins
  obtain ⟨_, ⟨_, rfl⟩ | ⟨rfl, _⟩⟩ := joins
  · exact ⟨right, List.mem_cons_of_mem _ List.mem_cons_self, rfl⟩
  · exact ⟨left, List.mem_cons_self, rfl⟩

theorem relates_comm (condition : Condition Nat ℓ) (first second : Nat) :
    condition.relates first second = condition.relates second first := by
  obtain ⟨left | left, right | right⟩ := condition
  case reference.reference => simp only [relates, Bool.or_comm]
  all_goals rfl

/-- The source that the condition joins to the given one. -/
def partner? (node : Nat) : Condition Nat ℓ → Option Nat
  | ⟨.reference left, .reference right⟩ =>
      if left.source = right.source then none
      else if left.source = node then some right.source
      else if right.source = node then some left.source
      else none
  | _ => none

theorem partner?_eq_some_iff {next : Nat} :
    condition.partner? node = some next ↔ condition.relates node next = true := by
  obtain ⟨left | left, right | right⟩ := condition
  case reference.reference =>
    simp only [partner?, relates, Bool.and_eq_true, Bool.or_eq_true, bne_iff_ne, beq_iff_eq]
    grind
  all_goals simp [partner?, relates]

/-- A condition joins no other two sources than the two that it joins. -/
theorem relates_unique {third fourth : Nat} (joins : condition.relates first second = true)
    (again : condition.relates third fourth = true) :
    first = third ∧ second = fourth ∨ first = fourth ∧ second = third := by
  rcases condition.subjects_cases 0 with ⟨source, _, free⟩ | ⟨left, right, _, joined⟩
  · rw [free] at joins
    cases joins
  · have one := (joined first second).1 joins
    have other := (joined third fourth).1 again
    omega

/-- A condition is a join when it relates some two sources. -/
theorem isJoin_iff : condition.isJoin = true ↔
    ∃ first second, condition.relates first second = true := by
  rw [isJoin, Option.isSome_iff_exists]
  constructor
  · rintro ⟨⟨left, right⟩, joins⟩
    obtain ⟨rfl, apart⟩ := join?_eq_some_iff.1 joins
    exact ⟨left.source, right.source, by simp [relates, apart]⟩
  · rintro ⟨first, second, joins⟩
    obtain ⟨left | left, right | right⟩ := condition <;> simp [relates] at joins
    exact ⟨(left, right), join?_eq_some_iff.2 ⟨rfl, joins.1⟩⟩

/-- A join compares no literal. -/
theorem literals_of_relates (joins : condition.relates first second = true) :
    condition.literals = [] := by
  obtain ⟨left | left, right | right⟩ := condition <;> simp [relates] at joins
  rfl

/-- What compares a literal is about one source, which it then constrains. -/
theorem constrains_iff_of_mem_literals {literal : ℓ} (compared : literal ∈ condition.literals) :
    condition.constrains declarer node = true ↔ node ∈ condition.subjects declarer := by
  obtain ⟨owner, only⟩ : ∃ owner, condition.subjects declarer = [owner] := by
    obtain ⟨left | left, right | right⟩ := condition
    case reference.reference => cases compared
    case reference.literal => exact ⟨left.source, rfl⟩
    case literal.reference => exact ⟨right.source, rfl⟩
    case literal.literal => exact ⟨declarer, rfl⟩
  simp only [constrains, only, List.all_cons, List.all_nil, Bool.and_true, beq_iff_eq,
    List.mem_singleton]
  exact eq_comm

theorem constrains_unique {other : Nat} (about : condition.constrains declarer node = true)
    (again : condition.constrains declarer other = true) : node = other := by
  rcases condition.subjects_cases declarer with ⟨source, named, _⟩ | ⟨left, right, named, _⟩
  all_goals
    simp only [constrains, named, List.all_cons, List.all_nil, Bool.and_true, Bool.and_eq_true,
      beq_iff_eq] at about again
    omega

/-- A join is moved to a join of the new positions. -/
theorem relates_mapSource (rename : Nat → Nat) (joins : condition.relates first second = true)
    (apart : rename first ≠ rename second) :
    (condition.mapSource rename).relates (rename first) (rename second) = true := by
  obtain ⟨left | left, right | right⟩ := condition <;> simp [relates] at joins
  obtain ⟨_, ⟨rfl, rfl⟩ | ⟨rfl, rfl⟩⟩ := joins
  · simpa [relates, mapSource, Operand.mapSource, ColumnRef.mapSource] using apart
  · simpa [relates, mapSource, Operand.mapSource, ColumnRef.mapSource] using apart.symm

/-- A condition on one source is moved with the source that declares it. -/
theorem constrains_mapSource (rename : Nat → Nat)
    (about : condition.constrains declarer node = true) :
    (condition.mapSource rename).constrains (rename node) (rename node) = true := by
  rw [constrains, List.all_eq_true]
  intro source among
  rw [beq_iff_eq]
  rw [subjects] at among
  split at among
  · exact List.mem_singleton.1 among
  · rw [references_mapSource, List.map_map] at among
    obtain ⟨ref, declared, rfl⟩ := List.mem_map.1 among
    exact congrArg rename (source_of_constrains about declared)

theorem not_constrains_of_relates (joins : condition.relates first second = true) :
    condition.constrains declarer node = false := by
  rcases condition.subjects_cases declarer with ⟨source, _, free⟩ | ⟨left, right, named, joined⟩
  · rw [free] at joins
    cases joins
  · obtain ⟨apart, _⟩ := (joined first second).1 joins
    simp only [constrains, named, List.all_cons, List.all_nil, Bool.and_true, Bool.and_eq_false_iff,
      beq_eq_false_iff_ne]
    omega

theorem not_relates_of_constrains (about : condition.constrains declarer node = true) :
    condition.relates first second = false := by
  rw [Bool.eq_false_iff]
  intro joins
  rw [not_constrains_of_relates joins] at about
  cases about

theorem not_staysWithin_of_constrains {nodes : List Nat} (absent : node ∉ nodes)
    (about : condition.constrains declarer node = true) :
    condition.staysWithin declarer nodes = false := by
  rcases condition.subjects_cases declarer with ⟨source, named, _⟩ | ⟨left, right, named, _⟩
  all_goals
    simp only [constrains, staysWithin, named, List.all_cons, List.all_nil, Bool.and_true,
      Bool.and_eq_true, beq_iff_eq, Bool.and_eq_false_iff, List.contains_eq_mem,
      decide_eq_false_iff_not] at about ⊢
    grind

theorem not_staysWithin_of_relates {nodes : List Nat} (absent : first ∉ nodes)
    (joins : condition.relates first second = true) :
    condition.staysWithin declarer nodes = false := by
  rcases condition.subjects_cases declarer with ⟨source, _, free⟩ | ⟨left, right, named, joined⟩
  · rw [free] at joins
    cases joins
  · obtain ⟨_, ends⟩ := (joined first second).1 joins
    simp only [staysWithin, named, List.all_cons, List.all_nil, Bool.and_true,
      Bool.and_eq_false_iff, List.contains_eq_mem, decide_eq_false_iff_not]
    grind

/-- Only the conditions on a source stay within it alone. -/
theorem staysWithin_singleton (condition : Condition Nat ℓ) (declarer node : Nat) :
    condition.staysWithin declarer [node] = condition.constrains declarer node := by
  simp only [staysWithin, constrains, List.contains_cons, List.contains_nil, Bool.or_false]

/--
What stays within a source and others is on that source, or joins it with the
second one, or stays within the others, if no other join starts from it.
-/
theorem staysWithin_cons {rest : List Nat}
    (chordless : ∀ node ∈ rest, condition.relates first node = false) :
    condition.staysWithin declarer (first :: second :: rest) =
      (condition.constrains declarer first || (condition.relates first second ||
        condition.staysWithin declarer (second :: rest))) := by
  rw [Bool.eq_iff_iff]
  simp only [Bool.or_eq_true]
  rcases condition.subjects_cases declarer with ⟨source, named, free⟩ | ⟨left, right, named, joined⟩
  · simp [staysWithin, constrains, named, free]
  · have apart (node : Nat) (among : node ∈ rest) := mt (joined first node).2 (by
      rw [chordless node among]
      exact Bool.false_ne_true)
    rw [joined]
    simp only [staysWithin, constrains, named, List.all_cons, List.all_nil, Bool.and_true,
      Bool.and_eq_true, List.contains_iff_mem, List.mem_cons, beq_iff_eq]
    have leftApart := apart left
    have rightApart := apart right
    clear apart
    grind

end Rejoin.Condition
