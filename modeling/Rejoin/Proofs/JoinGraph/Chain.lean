import Mathlib.Data.List.Nodup
import Mathlib.Order.WellFounded

/-!
# Chains of joined sources

A chain leads from one source to another over joins.  A shortest one visits no
source twice and has no chord: no join skips over one of its sources, since the
chain over the skipping join would be shorter.
-/

namespace Rejoin

/-- The sources on a way from the first to the last, each joined to the next. -/
inductive Chain (Joined : Nat → Nat → Prop) : Nat → Nat → List Nat → Prop where
  | single (node : Nat) : Chain Joined node node [node]
  | cons {first next last : Nat} {path : List Nat} (link : Joined first next)
      (rest : Chain Joined next last path) : Chain Joined first last (first :: path)

/-- A chain with the fewest sources among all between the same two. -/
structure Shortest (Joined : Nat → Nat → Prop) (first last : Nat) (path : List Nat) : Prop where
  chain : Chain Joined first last path
  least : ∀ other, Chain Joined first last other → path.length ≤ other.length

variable {Joined : Nat → Nat → Prop} {first last : Nat} {path : List Nat}

namespace Chain

theorem head? (chain : Chain Joined first last path) : path.head? = some first := by
  cases chain <;> rfl

theorem getLast? (chain : Chain Joined first last path) : path.getLast? = some last := by
  induction chain with
  | single node => rfl
  | cons link rest ih =>
      rw [List.getLast?_cons, ih]
      rfl

theorem snoc {next : Nat} (chain : Chain Joined first last path) (link : Joined last next) :
    Chain Joined first next (path ++ [next]) := by
  induction chain with
  | single node => exact .cons link (.single next)
  | cons earlier rest ih => exact .cons earlier (ih link)

/-- Where joins lead both ways, a chain leads back. -/
theorem reverse (chain : Chain Joined first last path)
    (symmetric : ∀ node next, Joined node next → Joined next node) :
    Chain Joined last first path.reverse := by
  induction chain with
  | single node => exact .single node
  | cons link rest ih =>
      rw [List.reverse_cons]
      exact ih.snoc (symmetric _ _ link)

/-- A chain of several sources arrives over a join from a shorter chain. -/
theorem eq_snoc (chain : Chain Joined first last path) :
    path = [first] ∧ first = last ∨
      ∃ before front, Chain Joined first before front ∧ Joined before last ∧
        path = front ++ [last] := by
  induction chain with
  | single node => exact .inl ⟨rfl, rfl⟩
  | @cons first next last path link rest ih =>
      right
      rcases ih with ⟨rfl, rfl⟩ | ⟨before, front, shorter, arriving, rfl⟩
      · exact ⟨first, [first], .single first, link, rfl⟩
      · exact ⟨before, first :: front, .cons link shorter, arriving, rfl⟩

/-- What is left of a chain from one of its sources on is a chain. -/
theorem suffix (chain : Chain Joined first last path) (front : List Nat) {node : Nat}
    {back : List Nat} (split : path = front ++ node :: back) :
    Chain Joined node last (node :: back) := by
  induction chain generalizing front with
  | single only =>
      cases front with
      | nil =>
          obtain ⟨rfl, rfl⟩ : only = node ∧ [] = back := by simpa using split
          exact .single only
      | cons skipped front => simp at split
  | @cons start next last path link rest ih =>
      cases front with
      | nil =>
          obtain ⟨rfl, rfl⟩ : start = node ∧ path = back := by simpa using split
          exact .cons link rest
      | cons skipped front => exact ih front (List.cons.inj split).2

/-- All sources of a chain lie where its last one and every source joined onwards lie. -/
theorem forall_mem {Within : Nat → Prop} (chain : Chain Joined first last path)
    (onwards : ∀ node next, Joined node next → Within node) (ends : Within last) :
    ∀ node ∈ path, Within node := by
  induction chain with
  | single only =>
      intro node among
      rwa [List.mem_singleton.1 among]
  | cons link rest ih =>
      intro node among
      rcases List.mem_cons.1 among with rfl | later
      · exact onwards _ _ link
      · exact ih ends node later

/-- Each source of a chain is joined to the one that follows it. -/
theorem joined_next (chain : Chain Joined first last path) {position node next : Nat}
    (here : path[position]? = some node) (there : path[position + 1]? = some next) :
    Joined node next := by
  induction chain generalizing position with
  | single only => simp at there
  | @cons start second last path link rest ih =>
      cases position with
      | zero =>
          obtain rfl : start = node := by simpa using here
          have follows : path.head? = some next := by simpa [List.head?_eq_getElem?] using there
          obtain rfl : second = next := Option.some.inj (rest.head?.symm.trans follows)
          exact link
      | succ position => exact ih (by simpa using here) (by simpa using there)

/-- Numbers that are each joined to the next one form a chain. -/
theorem ascending (first count : Nat)
    (links : ∀ node, first ≤ node → node < first + count → Joined node (node + 1)) :
    Chain Joined first (first + count) (List.range' first (count + 1)) := by
  induction count generalizing first with
  | zero => exact .single first
  | succ count ih =>
      have link := links first (Nat.le_refl first) (by omega)
      have rest := ih (first + 1) fun node above below => links node (by omega) (by omega)
      rw [Nat.add_assoc, Nat.add_comm 1] at rest
      exact .cons link rest

/--
Where no join leads up by more than one, a chain has a source for every number
that it passes, and no chain but the ascending one has no others.
-/
theorem eq_ascending (chain : Chain Joined first last path)
    (steps : ∀ node next, Joined node next → next ≤ node + 1) :
    last < first + path.length ∧
      (first + path.length = last + 1 → path = List.range' first path.length) := by
  induction chain with
  | single node => exact ⟨by simp, fun _ => rfl⟩
  | @cons start next last path link rest ih =>
      obtain ⟨bound, ascends⟩ := ih
      have step := steps start next link
      rw [List.length_cons]
      refine ⟨by omega, fun tight => ?_⟩
      obtain rfl : next = start + 1 := by omega
      rw [List.range'_succ, ← ascends (by omega)]

/-- Where one chain leads, a shortest one does. -/
theorem exists_shortest (chain : Chain Joined first last path) :
    ∃ least, Shortest Joined first last least := by
  obtain ⟨least, reaches, minimal⟩ :=
    (measure List.length).wf.has_min {other | Chain Joined first last other} ⟨path, chain⟩
  exact ⟨least, reaches, fun other candidate => Nat.le_of_not_lt (minimal other candidate)⟩

end Chain

namespace Shortest

/-- Nothing is shorter than staying. -/
theorem single (node : Nat) : Shortest Joined node node [node] where
  chain := .single node
  least := by
    intro other chain
    cases chain with
    | single => exact Nat.le_refl _
    | cons => exact Nat.le_add_left 1 _

theorem tail {next : Nat} (shortest : Shortest Joined first last (first :: next :: path)) :
    Shortest Joined next last (next :: path) := by
  have chain := shortest.chain
  cases chain with
  | cons link rest =>
      obtain rfl : next = _ := by simpa using rest.head?
      refine ⟨rest, fun other candidate => ?_⟩
      simpa using shortest.least (first :: other) (.cons link candidate)

/-- The first source does not come again. -/
theorem not_mem (shortest : Shortest Joined first last (first :: path)) : first ∉ path := by
  intro again
  obtain ⟨front, back, rfl⟩ := List.append_of_mem again
  have shorter : Chain Joined first last (first :: back) :=
    shortest.chain.suffix (first :: front) rfl
  have bound := shortest.least _ shorter
  simp only [List.length_cons, List.length_append] at bound
  omega

/-- The first source is joined to no later one than the next. -/
theorem no_chord {next : Nat} (shortest : Shortest Joined first last (first :: next :: path))
    {node : Nat} (among : node ∈ path) : ¬ Joined first node := by
  intro chord
  obtain ⟨front, back, rfl⟩ := List.append_of_mem among
  have shorter : Chain Joined first last (first :: node :: back) :=
    .cons chord (shortest.chain.suffix (first :: next :: front) rfl)
  have bound := shortest.least _ shorter
  simp only [List.length_cons, List.length_append] at bound
  omega

theorem nodup (shortest : Shortest Joined first last path) : path.Nodup := by
  induction path generalizing first with
  | nil => exact List.nodup_nil
  | cons head rest ih =>
      obtain rfl : head = first := by simpa using shortest.chain.head?
      refine List.nodup_cons.2 ⟨shortest.not_mem, ?_⟩
      cases rest with
      | nil => exact List.nodup_nil
      | cons next rest => exact ih shortest.tail

/-- Two different sources that are joined lie next to each other. -/
theorem eq_pair (shortest : Shortest Joined first last path) (apart : first ≠ last)
    (link : Joined first last) : path = [first, last] := by
  have bound := shortest.least _ (.cons link (.single last))
  cases shortest.chain with
  | single => exact absurd rfl apart
  | cons _ rest =>
      cases rest with
      | single => rfl
      | cons _ longer =>
          cases longer <;> simp at bound

end Shortest

end Rejoin
