import Mathlib.Data.List.Lex

/-!
# Flaws and the first of them

A thing that is checked may have many flaws at once.  Each lies at an address, a
list of numbers that is read like the number of a section: parts are numbered in
the order in which they are checked, and so are the parts of a part.  A check
that stops early reports the flaw at the least address.
-/

namespace Rejoin

variable {α β ε : Type}

/-- The flaws of something by the addresses at which they lie. -/
abbrev Flaws (ε : Type) :=
  List Nat → ε → Prop

namespace Flaws

/-- One flaw that is there under a condition. -/
def when (wrong : Prop) (flaw : ε) : Flaws ε :=
  fun address found => wrong ∧ address = [] ∧ found = flaw

/-- The flaws of several parts, those of each part under its number. -/
def inOrder (parts : List (Flaws ε)) : Flaws ε :=
  fun address flaw => ∃ number part inner,
    parts[number]? = some part ∧ address = number :: inner ∧ part inner flaw

/-- The flaws of the entries of a list, which may depend on the numbers of the entries. -/
def along (entries : List α) (flaws : Nat → α → Flaws ε) : Flaws ε :=
  inOrder (entries.mapIdx flaws)

/-- The flaw lies at the address, and every other one at a greater address. -/
structure Earliest (flaws : Flaws ε) (address : List Nat) (flaw : ε) : Prop where
  lies : flaws address flaw
  least : ∀ other found, flaws other found → other = address ∧ found = flaw ∨ address < other

/-- A report of flaws is the earliest one, or says that there is none. -/
inductive Reports (flaws : Flaws ε) : Option ε → Prop where
  | sound (free : ∀ address flaw, ¬ flaws address flaw) : Reports flaws none
  | flawed {address : List Nat} {flaw : ε} (first : flaws.Earliest address flaw) :
      Reports flaws (some flaw)

variable {flaws part : Flaws ε} {parts : List (Flaws ε)} {report other : Option ε}

theorem inOrder_of_getElem? {number : Nat} {inner : List Nat} {flaw : ε}
    (found : parts[number]? = some part) (lies : part inner flaw) :
    inOrder parts (number :: inner) flaw :=
  ⟨number, part, inner, found, rfl, lies⟩

theorem inOrder_cons {address : List Nat} {flaw : ε} :
    inOrder (part :: parts) address flaw ↔
      (∃ inner, address = 0 :: inner ∧ part inner flaw) ∨
        ∃ number inner, address = (number + 1) :: inner ∧ inOrder parts (number :: inner) flaw := by
  constructor
  · rintro ⟨number, chosen, inner, found, rfl, lies⟩
    cases number with
    | zero =>
        obtain rfl : part = chosen := by simpa using found
        exact .inl ⟨inner, rfl, lies⟩
    | succ number => exact .inr ⟨number, inner, rfl, number, chosen, inner, found, rfl, lies⟩
  · rintro (⟨inner, rfl, lies⟩ | ⟨number, inner, rfl, _, chosen, _, found, same, lies⟩)
    · exact ⟨0, part, inner, rfl, rfl, lies⟩
    · cases same
      exact ⟨number + 1, chosen, inner, found, rfl, lies⟩

/-- Parts from some number on matter only from the address of that number on. -/
theorem inOrder_congr {others : List (Flaws ε)} {bound : Nat} {address : List Nat} {flaw : ε}
    (same : parts.take bound = others.take bound) (early : address < [bound]) :
    inOrder parts address flaw ↔ inOrder others address flaw := by
  have agree (number : Nat) (inner : List Nat) (early : number :: inner < [bound]) :
      parts[number]? = others[number]? := by
    rcases List.cons_lt_cons_iff.1 early with less | ⟨_, never⟩
    · rw [← List.getElem?_take_of_lt less, same, List.getElem?_take_of_lt less]
    · cases never
  constructor <;> rintro ⟨number, part, inner, found, rfl, lies⟩
  · exact ⟨number, part, inner, agree number inner early ▸ found, rfl, lies⟩
  · exact ⟨number, part, inner, (agree number inner early).symm ▸ found, rfl, lies⟩

theorem along_cons (entry : α) (rest : List α) (flaws : Nat → α → Flaws ε) :
    along (entry :: rest) flaws =
      inOrder (flaws 0 entry :: rest.mapIdx (fun number => flaws (number + 1))) := by
  rw [along, List.mapIdx_cons]

theorem along_iff {entries : List α} {flaws : Nat → α → Flaws ε} {address : List Nat} {flaw : ε} :
    along entries flaws address flaw ↔ ∃ number entry inner, entries[number]? = some entry ∧
      address = number :: inner ∧ flaws number entry inner flaw := by
  simp only [along, inOrder, List.getElem?_mapIdx, Option.map_eq_some_iff]
  constructor
  · rintro ⟨number, _, inner, ⟨entry, found, rfl⟩, same, lies⟩
    exact ⟨number, entry, inner, found, same, lies⟩
  · rintro ⟨number, entry, inner, found, same, lies⟩
    exact ⟨number, _, inner, ⟨entry, found, rfl⟩, same, lies⟩

theorem along_of_getElem? {entries : List α} {flaws : Nat → α → Flaws ε} {number : Nat} {entry : α}
    {inner : List Nat} {flaw : ε} (found : entries[number]? = some entry)
    (lies : flaws number entry inner flaw) : along entries flaws (number :: inner) flaw :=
  along_iff.2 ⟨number, entry, inner, found, rfl, lies⟩

namespace Earliest

variable {address inner : List Nat} {flaw : ε} {number : Nat}

/-- What comes first in the first part comes first in all parts. -/
theorem here (first : part.Earliest address flaw) :
    (inOrder (part :: parts)).Earliest (0 :: address) flaw where
  lies := inOrder_cons.2 (.inl ⟨address, rfl, first.lies⟩)
  least := by
    intro _ found lies
    rcases inOrder_cons.1 lies with ⟨inner, rfl, within⟩ | ⟨number, inner, rfl, _⟩
    · rcases first.least inner found within with ⟨rfl, rfl⟩ | greater
      · exact .inl ⟨rfl, rfl⟩
      · exact .inr (List.cons_lt_cons_iff.2 (.inr ⟨rfl, greater⟩))
    · exact .inr (List.cons_lt_cons_iff.2 (.inl (Nat.succ_pos number)))

/-- After a sound part, what comes first in the others comes first. -/
theorem later (sound : ∀ address flaw, ¬ part address flaw)
    (first : (inOrder parts).Earliest (number :: inner) flaw) :
    (inOrder (part :: parts)).Earliest ((number + 1) :: inner) flaw where
  lies := inOrder_cons.2 (.inr ⟨number, inner, rfl, first.lies⟩)
  least := by
    intro _ found lies
    rcases inOrder_cons.1 lies with ⟨passed, rfl, within⟩ | ⟨count, passed, rfl, within⟩
    · exact absurd within (sound passed found)
    · rcases first.least _ found within with ⟨same, rfl⟩ | greater
      · obtain ⟨rfl, rfl⟩ := List.cons.inj same
        exact .inl ⟨rfl, rfl⟩
      · refine .inr (List.cons_lt_cons_iff.2 ?_)
        rcases List.cons_lt_cons_iff.1 greater with before | ⟨rfl, deeper⟩
        · exact .inl (Nat.succ_lt_succ before)
        · exact .inr ⟨rfl, deeper⟩

/-- No two flaws are both the first. -/
theorem unique {other : List Nat} {found : ε} (first : flaws.Earliest address flaw)
    (again : flaws.Earliest other found) : flaw = found := by
  rcases first.least other found again.lies with ⟨_, same⟩ | after
  · exact same.symm
  · rcases again.least address flaw first.lies with ⟨_, same⟩ | before
    · exact same
    · exact absurd after (lt_asymm before)

/-- What lies only at greater addresses has no part in which flaw comes first. -/
theorem of_agree {rest : Flaws ε} (first : flaws.Earliest address flaw)
    (agree : ∀ earlier ≤ address, ∀ found, rest earlier found ↔ flaws earlier found) :
    rest.Earliest address flaw where
  lies := (agree address le_rfl flaw).2 first.lies
  least := by
    intro other found lies
    rcases le_or_gt other address with within | beyond
    · exact first.least other found ((agree other within found).1 lies)
    · exact .inr beyond

end Earliest

namespace Reports

/-- A report names the flaw that comes first, if there is one. -/
theorem eq_some_iff (reported : flaws.Reports report) {flaw : ε} :
    report = some flaw ↔ ∃ address, flaws.Earliest address flaw := by
  constructor
  · rintro rfl
    cases reported with
    | flawed first => exact ⟨_, first⟩
  · rintro ⟨address, first⟩
    cases reported with
    | sound free => exact absurd first.lies (free address flaw)
    | flawed found => rw [found.unique first]

theorem exists_eq_some_iff (reported : flaws.Reports report) :
    (∃ flaw, report = some flaw) ↔ ∃ address flaw, flaws address flaw := by
  constructor
  · rintro ⟨flaw, rfl⟩
    cases reported with
    | flawed first => exact ⟨_, flaw, first.lies⟩
  · rintro ⟨address, flaw, lies⟩
    cases reported with
    | sound free => exact absurd lies (free address flaw)
    | flawed first => exact ⟨_, rfl⟩

theorem present {wrong : Prop} (holds : wrong) (flaw : ε) :
    (when wrong flaw).Reports (some flaw) := by
  refine @flawed _ _ [] flaw ⟨⟨holds, rfl, rfl⟩, ?_⟩
  rintro _ _ ⟨_, rfl, rfl⟩
  exact .inl ⟨rfl, rfl⟩

theorem absent {wrong : Prop} (fails : ¬ wrong) (flaw : ε) : (when wrong flaw).Reports none :=
  .sound fun _ _ lies => fails lies.1

theorem ite (wrong : Prop) [Decidable wrong] (flaw : ε) :
    (when wrong flaw).Reports (if wrong then some flaw else none) := by
  split
  · next holds => exact present holds flaw
  · next fails => exact absent fails flaw

theorem nil : (inOrder ([] : List (Flaws ε))).Reports none := by
  apply Reports.sound
  rintro _ _ ⟨_, _, _, found, _⟩
  cases found

theorem head {flaw : ε} (first : part.Reports (some flaw)) :
    (inOrder (part :: parts)).Reports (some flaw) := by
  cases first with
  | flawed first => exact .flawed first.here

theorem tail (first : part.Reports none) (others : (inOrder parts).Reports report) :
    (inOrder (part :: parts)).Reports report := by
  cases first with
  | sound free =>
      cases others with
      | flawed first =>
          obtain ⟨number, _, inner, _, rfl, _⟩ := first.lies
          exact .flawed (first.later free)
      | sound none =>
          refine .sound fun _ flaw lies => ?_
          rcases inOrder_cons.1 lies with ⟨inner, rfl, within⟩ | ⟨number, inner, rfl, within⟩
          · exact free inner flaw within
          · exact none _ flaw within

/-- The first part is reported if it is flawed; only otherwise do the others matter. -/
theorem cons (first : part.Reports report)
    (others : report = none → (inOrder parts).Reports other) :
    (inOrder (part :: parts)).Reports (report.or other) := by
  cases report with
  | some flaw => exact first.head
  | none => exact first.tail (others rfl)

/-- Entries are checked one by one until a flawed one is found. -/
theorem along {entries : List α} {flaws : Nat → α → Flaws ε} {check : Nat → α → Option ε}
    (each : ∀ number entry, entries[number]? = some entry →
      (flaws number entry).Reports (check number entry)) :
    (Flaws.along entries flaws).Reports ((entries.mapIdx check).findSome? id) := by
  induction entries generalizing flaws check with
  | nil => exact .nil
  | cons entry rest ih =>
      have others := ih fun number entry found => each (number + 1) entry found
      have first := (each 0 entry rfl).cons fun _ => others
      rw [along_cons, List.mapIdx_cons, List.findSome?_cons]
      cases checked : check 0 entry <;> simpa [checked] using! first

theorem along_none {entries : List α} {flaws : Nat → α → Flaws ε}
    (sound : ∀ number entry, entries[number]? = some entry → (flaws number entry).Reports none) :
    (Flaws.along entries flaws).Reports none := by
  refine .sound fun address flaw lies => ?_
  obtain ⟨number, entry, inner, found, _, within⟩ := along_iff.1 lies
  cases sound number entry found with
  | sound free => exact free inner flaw within

/-- The same of entries that are checked without regard to their numbers. -/
theorem each {entries : List α} {flaws : α → Flaws ε} {check : α → Option ε}
    (each : ∀ entry ∈ entries, (flaws entry).Reports (check entry)) :
    (Flaws.along entries (fun _ => flaws)).Reports (entries.findSome? check) := by
  have numbered : (Flaws.along entries (fun _ => flaws)).Reports
      ((entries.mapIdx (fun _ => check)).findSome? id) :=
    along fun number entry found => each entry (List.mem_of_getElem? found)
  have plain : entries.mapIdx (fun _ => check) = entries.map check :=
    List.ext_getElem? fun number => by rw [List.getElem?_mapIdx, List.getElem?_map]
  rwa [plain, List.findSome?_map] at numbered

end Reports

end Flaws

/-! ## Checks that fail -/

/-- What a check fails with, if it fails. -/
def failure? : Except ε α → Option ε
  | .error flaw => some flaw
  | .ok _ => none

theorem failure?_eq_some_iff {check : Except ε α} {flaw : ε} :
    failure? check = some flaw ↔ check = .error flaw := by
  cases check <;> simp [failure?]

@[simp] theorem failure?_map (rename : α → β) (check : Except ε α) :
    failure? (check.map rename) = failure? check := by
  cases check <;> rfl

/-- Of two checks the first one that fails counts, where the second fails for any value alike. -/
theorem failure?_bind {check : Except ε α} {next : α → Except ε β} {report : Option ε}
    (later : ∀ value, check = .ok value → failure? (next value) = report) :
    failure? (check >>= next) = (failure? check).or report := by
  cases check with
  | error flaw => rfl
  | ok value => exact later value rfl

/-- A traversal fails with what its first failing check fails with. -/
theorem failure?_mapM (check : α → Except ε β) (entries : List α) :
    failure? (entries.mapM check) = entries.findSome? (fun entry => failure? (check entry)) := by
  induction entries with
  | nil => rfl
  | cons entry rest ih =>
      rw [List.mapM_cons, List.findSome?_cons]
      have others (value : β) : failure? (rest.mapM check >>= fun values =>
          (pure (value :: values) : Except ε (List β))) = failure? (rest.mapM check) := by
        cases rest.mapM check <;> rfl
      rw [failure?_bind fun value _ => others value, ih]
      cases failure? (check entry) <;> rfl

/-- A traversal that fails has an entry whose check fails. -/
theorem exists_of_mapM_eq_error {check : α → Except ε β} {entries : List α} {flaw : ε}
    (failed : entries.mapM check = .error flaw) : ∃ entry ∈ entries, check entry = .error flaw := by
  rw [← failure?_eq_some_iff, failure?_mapM] at failed
  obtain ⟨entry, among, fails⟩ := List.exists_of_findSome?_eq_some failed
  exact ⟨entry, among, failure?_eq_some_iff.1 fails⟩

end Rejoin
