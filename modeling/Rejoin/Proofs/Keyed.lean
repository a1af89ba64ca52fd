import Mathlib.Data.List.Induction
import Mathlib.Data.List.Nodup
import Mathlib.Data.List.Perm.Basic

/-!
# Entries with keys

A list of entries is searched by a key, or thinned out to one entry for each
key.  With distinct keys the search finds exactly the entry of its key, and
thinning out leaves the keys in the order of their first uses.
-/

namespace Rejoin

variable {α β κ : Type}

/-- The first entry of a key is the only one when keys are distinct. -/
theorem find?_key_eq_some_iff [BEq κ] [LawfulBEq κ] {key : α → κ} {entries : List α}
    (distinct : (entries.map key).Nodup) {wanted : κ} {entry : α} :
    entries.find? (fun other => key other == wanted) = some entry ↔
      entry ∈ entries ∧ key entry = wanted := by
  constructor
  · intro found
    exact ⟨List.mem_of_find?_eq_some found, by simpa using List.find?_some found⟩
  · rintro ⟨among, rfl⟩
    cases found : entries.find? (fun other => key other == key entry) with
    | none => simpa using List.find?_eq_none.1 found entry among
    | some other =>
        have same : key other = key entry := by simpa using List.find?_some found
        rw [List.inj_on_of_nodup_map distinct (List.mem_of_find?_eq_some found) among same]

/-- Which keys are left does not depend on the entries that carry them. -/
theorem map_eraseDupsBy [BEq κ] (key : α → κ) (entries : List α) :
    (entries.eraseDupsBy (fun entry other => key entry == key other)).map key =
      (entries.map key).eraseDups := by
  match entries with
  | [] => rfl
  | entry :: rest =>
      have shorter := List.length_filter_le (fun other => (key other == key entry) = false) rest
      rw [List.eraseDupsBy_cons, List.map_cons, map_eraseDupsBy key (rest.filter _), List.map_cons,
        List.eraseDups_cons, List.filter_map]
      simp [Function.comp_def]
termination_by entries.length
decreasing_by exact Nat.lt_succ_of_le shorter

theorem sublist_eraseDupsBy (same : α → α → Bool) (entries : List α) :
    (entries.eraseDupsBy same).Sublist entries := by
  match entries with
  | [] => exact .slnil
  | first :: rest =>
      have shorter := List.length_filter_le (fun other => same other first = false) rest
      rw [List.eraseDupsBy_cons]
      exact .cons_cons first
        ((sublist_eraseDupsBy same (rest.filter _)).trans List.filter_sublist)
termination_by entries.length
decreasing_by exact Nat.lt_succ_of_le shorter

theorem mem_of_mem_eraseDupsBy {same : α → α → Bool} {entries : List α} {entry : α}
    (kept : entry ∈ entries.eraseDupsBy same) : entry ∈ entries :=
  (sublist_eraseDupsBy same entries).mem kept

/-- The entry that is left for a key comes before every other entry of that key. -/
theorem first_of_mem_eraseDupsBy [BEq κ] [LawfulBEq κ] {key : α → κ} {Before : α → α → Prop}
    {entries : List α} (ordered : entries.Pairwise Before) {entry other : α}
    (kept : entry ∈ entries.eraseDupsBy (fun one another => key one == key another))
    (among : other ∈ entries) (same : key entry = key other) : entry = other ∨ Before entry other := by
  match entries with
  | [] => simp at among
  | first :: rest =>
      have shorter := List.length_filter_le (fun other => (key other == key first) = false) rest
      obtain ⟨leads, later⟩ := List.pairwise_cons.1 ordered
      rw [List.eraseDupsBy_cons] at kept
      rcases List.mem_cons.1 kept with rfl | kept
      · exact (List.mem_cons.1 among).imp Eq.symm (leads other)
      · have apart : key entry ≠ key first := by
          simpa using (List.mem_filter.1 (mem_of_mem_eraseDupsBy kept)).2
        rcases List.mem_cons.1 among with rfl | among
        · exact absurd same apart
        · exact first_of_mem_eraseDupsBy (later.filter _) kept
            (List.mem_filter.2 ⟨among, by simpa [← same] using apart⟩) same
termination_by entries.length
decreasing_by exact Nat.lt_succ_of_le shorter

/-- Entries can be dropped by their keys before or after repeated keys are left out. -/
theorem filter_eraseDupsBy [BEq κ] [LawfulBEq κ] (key : α → κ) (keep : κ → Bool)
    (entries : List α) :
    (entries.eraseDupsBy (fun entry other => key entry == key other)).filter
        (fun entry => keep (key entry)) =
      (entries.filter (fun entry => keep (key entry))).eraseDupsBy
        (fun entry other => key entry == key other) := by
  match entries with
  | [] => rfl
  | entry :: rest =>
      have shorter := List.length_filter_le (fun other => (key other == key entry) = false) rest
      have later := filter_eraseDupsBy key keep
        (rest.filter (fun other => (key other == key entry) = false))
      rw [List.eraseDupsBy_cons, List.filter_cons, List.filter_cons]
      split
      · rw [List.eraseDupsBy_cons, later, List.filter_filter, List.filter_filter]
        simp [Bool.and_comm]
      · next dropped =>
          rw [later, List.filter_filter]
          congr 1
          refine List.filter_congr fun other among => ?_
          rw [Bool.and_eq_left_iff_imp]
          intro kept
          simp only [decide_eq_true_eq, beq_eq_false_iff_ne]
          intro same
          rw [same] at kept
          exact dropped kept
termination_by entries.length
decreasing_by exact Nat.lt_succ_of_le shorter

/-- Entries that come later are left out if their key has come before. -/
theorem eraseDupsBy_append [BEq κ] [LawfulBEq κ] (key : α → κ) (front back : List α) :
    (front ++ back).eraseDupsBy (fun entry other => key entry == key other) =
      front.eraseDupsBy (fun entry other => key entry == key other) ++
        (back.filter (fun entry => !(front.map key).contains (key entry))).eraseDupsBy
          (fun entry other => key entry == key other) := by
  match front with
  | [] => simp
  | entry :: rest =>
      have shorter := List.length_filter_le (fun other => (key other == key entry) = false) rest
      rw [List.cons_append, List.eraseDupsBy_cons, List.eraseDupsBy_cons, List.filter_append,
        eraseDupsBy_append key (rest.filter _), List.cons_append, List.filter_filter]
      congr 4
      funext other
      rw [Bool.eq_iff_iff]
      simp only [Bool.and_eq_true, Bool.not_eq_true', decide_eq_true_eq, beq_eq_false_iff_ne,
        List.contains_eq_mem, decide_eq_false_iff_not, List.mem_map, List.mem_filter,
        List.map_cons, List.mem_cons]
      grind
termination_by front.length
decreasing_by exact Nat.lt_succ_of_le shorter

/-- Entries made from keys are as distinct as the keys. -/
theorem eraseDupsBy_map [BEq κ] [LawfulBEq κ] {key : α → κ} {entry : κ → α}
    (keyed : ∀ wanted, key (entry wanted) = wanted) (keys : List κ) :
    (keys.map entry).eraseDupsBy (fun entry other => key entry == key other) =
      keys.eraseDups.map entry := by
  match keys with
  | [] => rfl
  | first :: rest =>
      have shorter := List.length_filter_le (fun other => !(other == first)) rest
      rw [List.map_cons, List.eraseDupsBy_cons, List.eraseDups_cons, List.map_cons,
        List.filter_map, ← eraseDupsBy_map keyed (rest.filter _)]
      simp [Function.comp_def, keyed]
termination_by keys.length
decreasing_by exact Nat.lt_succ_of_le shorter

/-- The groups of entries of one key are all entries. -/
theorem flatMap_groups_perm [BEq κ] [LawfulBEq κ] (key : α → κ) (entries : List α) :
    ((entries.map key).eraseDups.flatMap
      (fun wanted => entries.filter (fun entry => key entry == wanted))).Perm entries := by
  match entries with
  | [] => exact .nil
  | first :: rest =>
      have shorter := List.length_filter_le (fun entry => !(key entry == key first)) rest
      have others := flatMap_groups_perm key (rest.filter (fun entry => !(key entry == key first)))
      rw [List.map_cons, List.eraseDups_cons, List.flatMap_cons, List.filter_cons,
        if_pos (beq_self_eq_true _), List.cons_append]
      refine .cons first (List.Perm.trans (.append_left _ ?_)
        (List.filter_append_perm (fun entry => key entry == key first) rest))
      refine (List.Perm.of_eq ?_).trans others
      rw [List.filter_map]
      refine List.flatMap_congr fun wanted among => ?_
      have apart : wanted ≠ key first := by
        obtain ⟨entry, kept, rfl⟩ := List.mem_map.1 (List.mem_eraseDups.1 among)
        simpa using (List.mem_filter.1 kept).2
      rw [List.filter_cons, if_neg (by simpa using apart.symm), List.filter_filter]
      refine List.filter_congr fun entry _ => ?_
      rw [Bool.eq_iff_iff]
      simp only [Bool.and_eq_true, beq_iff_eq, Bool.not_eq_true', beq_eq_false_iff_ne]
      grind
termination_by entries.length
decreasing_by exact Nat.lt_succ_of_le shorter

/-! ## First uses -/

/-- The keys of some uses, each once, in the order in which they are first used. -/
structure FirstUses [BEq κ] (uses keys : List κ) : Prop where
  mem : ∀ key, key ∈ keys ↔ key ∈ uses
  ordered : keys.Pairwise (fun earlier later => uses.idxOf earlier < uses.idxOf later)

theorem FirstUses.nodup [BEq κ] {uses keys : List κ} (first : FirstUses uses keys) :
    keys.Nodup := by
  refine first.ordered.imp fun {earlier later} before same => ?_
  rw [same] at before
  exact Nat.lt_irrefl _ before

section LastUse

variable [BEq κ] [LawfulBEq κ]

/-- One more use stands last if its key is new, and otherwise changes nothing. -/
theorem eraseDups_concat (uses : List κ) (key : κ) :
    (uses ++ [key]).eraseDups =
      if key ∈ uses then uses.eraseDups else uses.eraseDups ++ [key] := by
  rw [List.eraseDups_append]
  split
  · next used => simp [List.removeAll, used]
  · next fresh => simp [List.removeAll, fresh, List.eraseDups_cons]

theorem firstUses_eraseDups (uses : List κ) : FirstUses uses uses.eraseDups where
  mem _ := List.mem_eraseDups
  ordered := by
    induction uses using List.reverseRecOn with
    | nil => exact List.Pairwise.nil
    | append_singleton uses key ih =>
        have kept : uses.eraseDups.Pairwise
            (fun earlier later => (uses ++ [key]).idxOf earlier < (uses ++ [key]).idxOf later) := by
          refine ih.imp_of_mem fun {earlier later} earlierUsed laterUsed before => ?_
          rwa [List.idxOf_append_of_mem (List.mem_eraseDups.1 earlierUsed),
            List.idxOf_append_of_mem (List.mem_eraseDups.1 laterUsed)]
        rw [eraseDups_concat]
        split
        · exact kept
        · next fresh =>
            rw [List.pairwise_append]
            refine ⟨kept, List.pairwise_singleton _ _, fun earlier among later last => ?_⟩
            rw [List.mem_singleton.1 last, List.idxOf_append_of_mem (List.mem_eraseDups.1 among),
              List.idxOf_append_of_notMem fresh]
            exact Nat.lt_add_right _ (List.idxOf_lt_length_iff.2 (List.mem_eraseDups.1 among))

theorem nodup_eraseDups (keys : List κ) : keys.eraseDups.Nodup :=
  (firstUses_eraseDups keys).nodup

/-- Nothing is left out of keys that are not repeated, and of no others. -/
theorem eraseDups_eq_self_iff {keys : List κ} : keys.eraseDups = keys ↔ keys.Nodup := by
  constructor
  · intro kept
    exact kept ▸ nodup_eraseDups keys
  · intro distinct
    induction keys using List.reverseRecOn with
    | nil => rfl
    | append_singleton keys key ih =>
        obtain ⟨earlier, _, apart⟩ := List.nodup_append.1 distinct
        have fresh : key ∉ keys := fun used => apart key used key (List.mem_singleton_self key) rfl
        rw [eraseDups_concat, if_neg fresh, ih earlier]

/-- Keys can be renamed before or after repeated ones are left out, if no two get one name. -/
theorem filterMap_eraseDups [BEq β] [LawfulBEq β] {rename : κ → Option β} {uses : List κ}
    (distinct : ∀ key ∈ uses, ∀ other ∈ uses, ∀ name,
      rename key = some name → rename other = some name → key = other) :
    uses.eraseDups.filterMap rename = (uses.filterMap rename).eraseDups := by
  induction uses using List.reverseRecOn with
  | nil => rfl
  | append_singleton uses key ih =>
      have earlier := ih fun one among other otherAmong =>
        distinct one (List.mem_append_left _ among) other (List.mem_append_left _ otherAmong)
      rw [List.filterMap_append, eraseDups_concat]
      cases named : rename key with
      | none =>
          rw [List.filterMap_cons_none named, List.filterMap_nil, List.append_nil]
          split
          · exact earlier
          · rw [List.filterMap_append, List.filterMap_cons_none named, List.filterMap_nil,
              List.append_nil, earlier]
      | some name =>
          have same : name ∈ uses.filterMap rename ↔ key ∈ uses := by
            rw [List.mem_filterMap]
            constructor
            · rintro ⟨other, among, otherNamed⟩
              rwa [distinct key (List.mem_append_right _ (List.mem_singleton.2 rfl)) other
                (List.mem_append_left _ among) name named otherNamed]
            · exact fun among => ⟨key, among, named⟩
          rw [List.filterMap_cons_some named, List.filterMap_nil, eraseDups_concat]
          simp only [same]
          split
          · exact earlier
          · rw [List.filterMap_append, List.filterMap_cons_some named, List.filterMap_nil, earlier]

/-- Keys come in the order of the first entries that have them. -/
theorem pairwise_findIdx_eraseDups (key? : α → Option κ) (entries : List α) :
    (entries.filterMap key?).eraseDups.Pairwise (fun earlier later =>
      entries.findIdx (fun entry => key? entry == some earlier) <
        entries.findIdx (fun entry => key? entry == some later)) := by
  induction entries using List.reverseRecOn with
  | nil => exact .nil
  | append_singleton entries last ih =>
      have keys {wanted : κ} : entries.findIdx (fun entry => key? entry == some wanted) <
          entries.length ↔ wanted ∈ entries.filterMap key? := by
        simp [List.findIdx_lt_length]
      have within {wanted : κ} (among : wanted ∈ (entries.filterMap key?).eraseDups) :
          (entries ++ [last]).findIdx (fun entry => key? entry == some wanted) =
              entries.findIdx (fun entry => key? entry == some wanted) ∧
            entries.findIdx (fun entry => key? entry == some wanted) < entries.length := by
        have found := keys.2 (List.mem_eraseDups.1 among)
        rw [List.findIdx_append, if_pos found]
        exact ⟨rfl, found⟩
      have kept := ih.imp_of_mem fun {earlier later} earlierAmong laterAmong before => by
        rwa [← (within earlierAmong).1, ← (within laterAmong).1] at before
      rw [List.filterMap_append]
      cases keyed : key? last with
      | none => simpa [keyed] using kept
      | some key =>
          rw [List.filterMap_cons_some keyed, List.filterMap_nil, eraseDups_concat]
          split
          · exact kept
          · next fresh =>
              rw [List.pairwise_append]
              refine ⟨kept, List.pairwise_singleton _ _, fun earlier among later newest => ?_⟩
              rw [List.mem_singleton.1 newest, (within among).1]
              rw [List.findIdx_append, if_neg fun found => fresh (keys.1 found)]
              exact Nat.lt_add_left _ (within among).2
end LastUse

end Rejoin
