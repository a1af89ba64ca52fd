import Mathlib.Data.List.Forall2

/-!
# Checked traversals

A check either fails or gives a value.  The lemmas here open a check that
succeeded: a sequence of checks, a renamed check, and a check of every entry
of a list, whose values then answer to the entries one by one.
-/

namespace Rejoin

variable {ε α β : Type}

theorem bind_eq_ok_iff {first : Except ε α} {next : α → Except ε β} {value : β} :
    (first >>= next) = .ok value ↔ ∃ middle, first = .ok middle ∧ next middle = .ok value := by
  cases first <;> simp [bind, Except.bind]

theorem bind_eq_error_iff {first : Except ε α} {next : α → Except ε β} {error : ε} :
    (first >>= next) = .error error ↔
      first = .error error ∨ ∃ middle, first = .ok middle ∧ next middle = .error error := by
  cases first <;> simp [bind, Except.bind]

theorem map_eq_ok_iff {first : Except ε α} {rename : α → β} {value : β} :
    first.map rename = .ok value ↔ ∃ middle, first = .ok middle ∧ rename middle = value := by
  cases first <;> simp [Except.map]

theorem mapError_eq_ok_iff {δ : Type} {first : Except ε α} {rename : ε → δ} {value : α} :
    first.mapError rename = .ok value ↔ first = .ok value := by
  cases first <;> simp [Except.mapError]

/-- A traversal succeeds with the values that its entries give one by one. -/
theorem mapM_eq_ok_iff {check : α → Except ε β} {entries : List α} {values : List β} :
    entries.mapM check = .ok values ↔
      List.Forall₂ (fun entry value => check entry = .ok value) entries values := by
  induction entries generalizing values with
  | nil => cases values <;> simp [pure, Except.pure]
  | cons entry rest ih =>
      simp only [List.mapM_cons, bind_eq_ok_iff, ih]
      constructor
      · rintro ⟨value, first, others, traversed, made⟩
        cases made
        exact .cons first traversed
      · intro pointwise
        cases pointwise with
        | cons first traversed => exact ⟨_, first, _, traversed, rfl⟩

/-- Checks that agree on all entries give one traversal. -/
theorem mapM_congr {check other : α → Except ε β} {entries : List α}
    (agree : ∀ entry ∈ entries, check entry = other entry) :
    entries.mapM check = entries.mapM other := by
  induction entries with
  | nil => rfl
  | cons entry rest ih =>
      have later := ih fun next among => agree next (List.mem_cons_of_mem _ among)
      rw [List.mapM_cons, List.mapM_cons, agree entry List.mem_cons_self, later]

/-- Where every entry has an answer there is a list of answers. -/
theorem exists_forall₂ {Answers : α → β → Prop} {entries : List α}
    (answered : ∀ entry ∈ entries, ∃ value, Answers entry value) :
    ∃ values, List.Forall₂ Answers entries values := by
  induction entries with
  | nil => exact ⟨[], .nil⟩
  | cons entry rest ih =>
      obtain ⟨value, first⟩ := answered entry List.mem_cons_self
      obtain ⟨others, later⟩ := ih fun other among =>
        answered other (List.mem_cons_of_mem _ among)
      exact ⟨value :: others, .cons first later⟩

/-- A traversal whose checks all succeed succeeds. -/
theorem exists_mapM {check : α → Except ε β} {entries : List α}
    (succeeds : ∀ entry ∈ entries, ∃ value, check entry = .ok value) :
    ∃ values, entries.mapM check = .ok values := by
  simp only [mapM_eq_ok_iff]
  exact exists_forall₂ succeeds

/-- Answers that are settled by their entries are the list of what the entries settle. -/
theorem eq_map_of_forall₂ {write : α → β} {entries : List α} {values : List β}
    (pointwise : List.Forall₂ (fun entry value => value = write entry) entries values) :
    values = entries.map write := by
  have same : List.Forall₂ (· = ·) (entries.map write) values :=
    List.forall₂_map_left_iff.2 (pointwise.imp fun _ _ => Eq.symm)
  rw [List.forall₂_eq_eq_eq] at same
  exact same.symm

/-- A traversal whose checks can only write one value writes it for every entry. -/
theorem eq_map_of_mapM {check : α → Except ε β} {write : α → β}
    (writes : ∀ entry value, check entry = .ok value → value = write entry) {entries : List α}
    {values : List β} (traversed : entries.mapM check = .ok values) :
    values = entries.map write :=
  eq_map_of_forall₂ ((mapM_eq_ok_iff.1 traversed).imp writes)

/--
When each check undoes `write` on the values that are `Valid`, so does the
traversal on lists of them.
-/
theorem mapM_eq_ok_iff_map {check : α → Except ε β} {write : β → α} {Valid : β → Prop}
    (undoes : ∀ entry value, check entry = .ok value ↔ Valid value ∧ entry = write value)
    {entries : List α} {values : List β} :
    entries.mapM check = .ok values ↔
      (∀ value ∈ values, Valid value) ∧ entries = values.map write := by
  rw [mapM_eq_ok_iff]
  simp only [undoes]
  induction values generalizing entries with
  | nil => simp
  | cons value rest ih =>
      cases entries with
      | nil => simp
      | cons entry others =>
          simp only [List.forall₂_cons, ih, List.forall_mem_cons, List.map_cons, List.cons.injEq]
          tauto

/-- A traversal that may come back empty succeeds with the values of its entries. -/
theorem mapM_eq_some_iff {look : α → Option β} {entries : List α} {values : List β} :
    entries.mapM look = some values ↔
      List.Forall₂ (fun entry value => look entry = some value) entries values := by
  induction entries generalizing values with
  | nil => cases values <;> simp
  | cons entry rest ih =>
      simp only [List.mapM_cons, Option.bind_eq_bind, Option.bind_eq_some_iff, ih]
      constructor
      · rintro ⟨value, first, others, traversed, made⟩
        cases made
        exact .cons first traversed
      · intro pointwise
        cases pointwise with
        | cons first traversed => exact ⟨_, first, _, traversed, rfl⟩

theorem exists_of_mem_right {Answers : α → β → Prop} {entries : List α} {values : List β}
    (pointwise : List.Forall₂ Answers entries values) {value : β} (among : value ∈ values) :
    ∃ entry ∈ entries, Answers entry value := by
  induction pointwise with
  | nil => cases among
  | cons first _ ih =>
      rcases List.mem_cons.1 among with rfl | later
      · exact ⟨_, List.mem_cons_self, first⟩
      · obtain ⟨entry, held, answers⟩ := ih later
        exact ⟨entry, List.mem_cons_of_mem _ held, answers⟩

end Rejoin
