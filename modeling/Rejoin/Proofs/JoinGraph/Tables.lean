import Rejoin.Proofs.JoinGraph.Edges

/-!
# Building a join graph condition by condition

A join graph can also be filled in while the conditions of a view are read: with
a list of edges for each node, and a table that finds the edge of two nodes.
`Tables.Holds` is the invariant of the reading: the edges are those of the pairs
read so far, and the lists and the table point at them.  So the tables that are
left at the end answer as the graph of the view does.
-/

namespace Rejoin

/-- The edge with one more pair, if the pair has its ends. -/
def Edge.collect (pair : ColumnPair) (edge : Edge) : Edge :=
  if edge.ends = pair.ends then { edge with pairs := edge.pairs ++ [pair] } else edge

@[simp] theorem Edge.id_collect (pair : ColumnPair) (edge : Edge) :
    (edge.collect pair).id = edge.id := by
  unfold collect
  split <;> rfl

@[simp] theorem Edge.ends_collect (pair : ColumnPair) (edge : Edge) :
    (edge.collect pair).ends = edge.ends := by
  unfold collect
  split <;> rfl

@[simp] theorem Edge.other?_collect (pair : ColumnPair) (edge : Edge) (node : Nat) :
    (edge.collect pair).other? node = edge.other? node := by
  rw [other?, other?, ends_collect]

/-- One more pair joins the edge of its ends, if there is one. -/
theorem edgesOf_concat_of_mem {pairs : List ColumnPair} {pair : ColumnPair}
    (known : pair.ends ∈ pairs.map ColumnPair.ends) :
    edgesOf (pairs ++ [pair]) = (edgesOf pairs).map (Edge.collect pair) := by
  rw [edgesOf, edgesOf, List.map_append, List.map_singleton, eraseDups_concat, if_pos known]
  refine List.ext_getElem? fun id => ?_
  rw [List.getElem?_map, List.getElem?_mapIdx, List.getElem?_mapIdx, Option.map_map]
  congr 1
  funext ends
  rw [List.filter_append, Function.comp_apply, Edge.collect]
  by_cases same : ends = pair.ends
  · simp [same]
  · simp [same, Ne.symm same]

/-- The edge of the ends is the one that its number leads to. -/
theorem modify_id_edgesOf {pairs : List ColumnPair} {pair : ColumnPair} {edge : Edge}
    (among : edge ∈ edgesOf pairs) (ends : edge.ends = pair.ends) :
    (edgesOf pairs).modify edge.id (fun edge => { edge with pairs := edge.pairs ++ [pair] }) =
      (edgesOf pairs).map (Edge.collect pair) := by
  refine List.ext_getElem? fun position => ?_
  rw [List.getElem?_modify, List.getElem?_map]
  refine Option.map_congr fun other here => ?_
  have same : edge.id = position ↔ other.ends = pair.ends := by
    rw [← ends, ← id_of_getElem?_edgesOf here, @eq_comm _ other.ends,
      id_eq_iff_ends_eq among (List.mem_of_getElem? here)]
  simp only [same, Edge.collect]

/-- One more pair of new ends makes one more edge. -/
theorem edgesOf_concat_of_not_mem {pairs : List ColumnPair} {pair : ColumnPair}
    (fresh : pair.ends ∉ pairs.map ColumnPair.ends) :
    edgesOf (pairs ++ [pair]) =
      edgesOf pairs ++ [⟨(edgesOf pairs).length, pair.ends, [pair]⟩] := by
  have own : pairs.filter (fun other => other.ends == pair.ends) = [] := by
    rw [List.filter_eq_nil_iff]
    intro other among same
    exact fresh (List.mem_map.2 ⟨other, among, by simpa using same⟩)
  rw [edgesOf, edgesOf, List.map_append, List.map_singleton, eraseDups_concat, if_neg fresh,
    List.mapIdx_append, List.mapIdx_singleton, List.length_mapIdx, List.filter_append, own]
  congr 1
  · refine List.ext_getElem? fun id => ?_
    rw [List.getElem?_mapIdx, List.getElem?_mapIdx]
    refine Option.map_congr fun ends found => ?_
    have apart : ends ≠ pair.ends := by
      rintro rfl
      exact fresh (List.mem_eraseDups.1 (List.mem_of_getElem? found))
    simp [Ne.symm apart]
  · simp

/-- An edge leads on from its two ends. -/
theorem Edge.isSome_other?_iff {edge : Edge} {node : Nat} :
    (edge.other? node).isSome = true ↔ edge.ends.1 = node ∨ edge.ends.2 = node := by
  unfold other?
  grind

theorem modify_last {α : Type} (change : α → α) (entries : List α) (last : α) :
    (entries ++ [last]).modify entries.length change = entries ++ [change last] := by
  induction entries with
  | nil => rfl
  | cons entry rest ih => simp [ih]

/-- A join graph under construction.  Lists and table hold edges by their numbers. -/
structure Tables where
  edges : List Edge
  adjacency : List (List Nat)
  lookup : List ((Nat × Nat) × Nat)
  guards : List Guard
  deriving DecidableEq, Repr

namespace Tables

def empty (size : Nat) : Tables :=
  ⟨[], List.replicate size [], [], []⟩

/-- A new edge between two sources, without pairs. -/
def openEdge (tables : Tables) (ends : Nat × Nat) : Tables :=
  { tables with
    edges := tables.edges ++ [⟨tables.edges.length, ends, []⟩]
    adjacency := (tables.adjacency.modify ends.1 (fun ids => ids ++ [tables.edges.length])).modify
      ends.2 (fun ids => ids ++ [tables.edges.length])
    lookup := (ends, tables.edges.length) :: tables.lookup }

/-- The pair stands last on the edge of that number. -/
def appendPair (tables : Tables) (pair : ColumnPair) (id : Nat) : Tables :=
  { tables with
    edges := tables.edges.modify id (fun edge => { edge with pairs := edge.pairs ++ [pair] }) }

/-- The pair is added to the edge of its ends, or to a new one if both are nodes. -/
def addPair? (tables : Tables) (pair : ColumnPair) : Option Tables :=
  match tables.lookup.lookup pair.ends with
  | some id => some (tables.appendPair pair id)
  | none =>
      if pair.ends.1 < tables.adjacency.length ∧ pair.ends.2 < tables.adjacency.length then
        some ((tables.openEdge pair.ends).appendPair pair tables.edges.length)
      else none

/-- A join is added to an edge, any other condition to the guards. -/
def add? (declarer : Nat) (tables : Tables) (condition : Condition Nat Literal) : Option Tables :=
  match ColumnPair.ofCondition? condition with
  | some pair => tables.addPair? pair
  | none => some { tables with
      guards := tables.guards ++ (Guard.ofCondition? declarer condition).toList }

/-- The tables after reading the conditions of a view source by source. -/
def ofView? (view : View) : Option Tables :=
  view.sources.foldlM
    (fun tables source => source.conditions.foldlM (add? source.index) tables)
    (empty view.sources.length)

def edgeBetween? (tables : Tables) (a b : Nat) : Option Edge :=
  (tables.lookup.lookup (endsOf a b)).bind (fun id => tables.edges[id]?)

def neighbors (tables : Tables) (node : Nat) : List (Nat × Edge) :=
  (tables.adjacency[node]?.getD []).filterMap (fun id =>
    tables.edges[id]?.bind (fun edge => (edge.other? node).map (fun next => (next, edge))))

/-- The numbers of the edges at a node. -/
def edgesAt (edges : List Edge) (node : Nat) : List Nat :=
  (edges.filter (fun edge => (edge.other? node).isSome)).map Edge.id

theorem edgesAt_concat (edges : List Edge) (edge : Edge) (node : Nat) :
    edgesAt (edges ++ [edge]) node =
      if edge.ends.1 = node ∨ edge.ends.2 = node then edgesAt edges node ++ [edge.id]
      else edgesAt edges node := by
  rw [edgesAt, edgesAt, List.filter_append]
  simp only [← Edge.isSome_other?_iff]
  split <;> simp [*]

/-- A new edge is listed last at its two ends. -/
theorem modify_edgesAt {ends : Nat × Nat} (ordered : ends.1 < ends.2) (size : Nat)
    (edges : List Edge) (pairs : List ColumnPair) :
    (((List.range size).map (edgesAt edges)).modify ends.1
        (fun ids => ids ++ [edges.length])).modify ends.2 (fun ids => ids ++ [edges.length]) =
      (List.range size).map (edgesAt (edges ++ [⟨edges.length, ends, pairs⟩])) := by
  refine List.ext_getElem? fun node => ?_
  rw [List.getElem?_modify, List.getElem?_modify, List.getElem?_map, List.getElem?_map]
  cases here : (List.range size)[node]? with
  | none => rfl
  | some number =>
      obtain rfl : number = node := by
        obtain ⟨_, same⟩ := List.getElem?_eq_some_iff.1 here
        simpa [eq_comm] using same
      simp only [Option.map_some, Option.map_eq_map, edgesAt_concat]
      by_cases low : ends.1 = number
      · have high : ends.2 ≠ number := by omega
        simp [low, high]
      · simp [low]

/-- What the tables hold after some joins and guards. -/
structure Holds (tables : Tables) (size : Nat) (pairs : List ColumnPair) (guards : List Guard) :
    Prop where
  edges : tables.edges = edgesOf pairs
  adjacency : tables.adjacency = (List.range size).map (edgesAt (edgesOf pairs))
  lookup : ∀ ends, tables.lookup.lookup ends =
    ((edgesOf pairs).find? (fun edge => edge.ends == ends)).map Edge.id
  guards : tables.guards = guards

variable {tables : Tables} {size : Nat} {pairs : List ColumnPair} {guards : List Guard}

theorem holds_empty (size : Nat) : (empty size).Holds size [] [] where
  edges := rfl
  adjacency := by
    refine List.ext_getElem? fun node => ?_
    by_cases within : node < size <;> simp [empty, edgesAt, edgesOf, within]
  lookup := fun _ => rfl
  guards := rfl

namespace Holds

/-- A pair of known ends is added to their edge. -/
theorem addPair?_of_mem (holds : tables.Holds size pairs guards) {pair : ColumnPair}
    (known : pair.ends ∈ pairs.map ColumnPair.ends) :
    ∃ added, tables.addPair? pair = some added ∧ added.Holds size (pairs ++ [pair]) guards := by
  obtain ⟨held, ofPair, sameEnds⟩ := List.mem_map.1 known
  obtain ⟨edge, among, ends⟩ := exists_mem_edgesOf ofPair
  rw [sameEnds] at ends
  have found : tables.lookup.lookup pair.ends = some edge.id := by
    rw [holds.lookup, (find?_key_eq_some_iff (nodup_ends_edgesOf pairs)).2 ⟨among, ends⟩]
    rfl
  refine ⟨tables.appendPair pair edge.id, by rw [addPair?, found], ?_, ?_, ?_, holds.guards⟩
  · rw [appendPair, holds.edges, edgesOf_concat_of_mem known, modify_id_edgesOf among ends]
  · rw [appendPair, holds.adjacency, edgesOf_concat_of_mem known]
    refine List.map_congr_left fun node _ => ?_
    simp only [edgesAt, List.filter_map, List.map_map, Function.comp_def, Edge.other?_collect,
      Edge.id_collect]
  · intro wanted
    rw [appendPair, holds.lookup, edgesOf_concat_of_mem known]
    simp only [List.find?_map, Option.map_map, Function.comp_def, Edge.ends_collect,
      Edge.id_collect]

/-- A pair of new ends opens an edge between them. -/
theorem addPair?_of_not_mem (holds : tables.Holds size pairs guards) {pair : ColumnPair}
    (fresh : pair.ends ∉ pairs.map ColumnPair.ends) (apart : pair.left.source ≠ pair.right.source)
    (within : pair.ends.2 < size) :
    ∃ added, tables.addPair? pair = some added ∧ added.Holds size (pairs ++ [pair]) guards := by
  have ordered := ColumnPair.ends_lt apart
  have missing : (edgesOf pairs).find? (fun edge => edge.ends == pair.ends) = none := by
    rw [List.find?_eq_none]
    intro edge among same
    rw [beq_iff_eq] at same
    exact fresh (same ▸ (mem_edgesOf among).1)
  have found : tables.lookup.lookup pair.ends = none := by
    rw [holds.lookup, missing]
    rfl
  have room : pair.ends.1 < tables.adjacency.length ∧ pair.ends.2 < tables.adjacency.length := by
    rw [holds.adjacency, List.length_map, List.length_range]
    omega
  refine ⟨(tables.openEdge pair.ends).appendPair pair tables.edges.length, ?_, ?_, ?_, ?_,
    holds.guards⟩
  · rw [addPair?, found]
    exact if_pos room
  · rw [edgesOf_concat_of_not_mem fresh, appendPair, openEdge, holds.edges, modify_last]
    rfl
  · rw [edgesOf_concat_of_not_mem fresh, appendPair, openEdge, holds.edges, holds.adjacency]
    exact modify_edgesAt ordered size (edgesOf pairs) [pair]
  · intro wanted
    rw [edgesOf_concat_of_not_mem fresh, appendPair, openEdge, holds.edges, List.find?_append]
    change List.lookup wanted ((pair.ends, (edgesOf pairs).length) :: tables.lookup) = _
    rw [List.lookup_cons, holds.lookup]
    by_cases same : wanted = pair.ends
    · rw [same, missing]
      simp
    · rw [beq_false_of_ne same]
      simp [Ne.symm same]

/-- A condition of nodes is added to the joins or to the guards. -/
theorem add? (holds : tables.Holds size pairs guards) (declarer : Nat)
    {condition : Condition Nat Literal}
    (within : ∀ pair, ColumnPair.ofCondition? condition = some pair → pair.ends.2 < size) :
    ∃ added, tables.add? declarer condition = some added ∧
      added.Holds size (pairs ++ (ColumnPair.ofCondition? condition).toList)
        (guards ++ (Guard.ofCondition? declarer condition).toList) := by
  cases joined : ColumnPair.ofCondition? condition with
  | none =>
      refine ⟨_, by rw [Tables.add?, joined], ?_⟩
      rw [Option.toList_none, List.append_nil]
      exact ⟨holds.edges, holds.adjacency, holds.lookup, by rw [holds.guards]⟩
  | some pair =>
      have step : tables.add? declarer condition = tables.addPair? pair := by
        rw [Tables.add?, joined]
      have unguarded : Guard.ofCondition? declarer condition = none := by
        rw [Guard.ofCondition?, if_pos]
        rw [← ColumnPair.isSome_ofCondition?, joined, Option.isSome_some]
      obtain ⟨_, apart⟩ := ColumnPair.ofCondition?_eq_some_iff.1 joined
      rw [step, unguarded, Option.toList_none, List.append_nil, Option.toList_some]
      by_cases known : pair.ends ∈ pairs.map ColumnPair.ends
      · exact holds.addPair?_of_mem known
      · exact holds.addPair?_of_not_mem known apart (within pair joined)

/-- What each of several steps adds, all of them add one after the other. -/
theorem foldlM {α : Type} {step : Tables → α → Option Tables} {pairsOf : α → List ColumnPair}
    {guardsOf : α → List Guard} {entries : List α} (holds : tables.Holds size pairs guards)
    (adds : ∀ entry ∈ entries, ∀ {tables : Tables} {pairs : List ColumnPair} {guards : List Guard},
      tables.Holds size pairs guards → ∃ added, step tables entry = some added ∧
        added.Holds size (pairs ++ pairsOf entry) (guards ++ guardsOf entry)) :
    ∃ added, entries.foldlM step tables = some added ∧
      added.Holds size (pairs ++ entries.flatMap pairsOf) (guards ++ entries.flatMap guardsOf) := by
  induction entries generalizing tables pairs guards with
  | nil => exact ⟨tables, rfl, by simpa using holds⟩
  | cons entry rest ih =>
      obtain ⟨next, first, held⟩ := adds entry List.mem_cons_self holds
      obtain ⟨added, run, heldAfter⟩ := ih held fun later among =>
        adds later (List.mem_cons_of_mem _ among)
      refine ⟨added, ?_, ?_⟩
      · rw [List.foldlM_cons, first]
        exact run
      · rw [List.flatMap_cons, List.flatMap_cons, ← List.append_assoc, ← List.append_assoc]
        exact heldAfter

/-- The conditions of one source are added. -/
theorem addAll? (holds : tables.Holds size pairs guards) (declarer : Nat)
    {conditions : List (Condition Nat Literal)}
    (within : ∀ condition ∈ conditions, ∀ pair,
      ColumnPair.ofCondition? condition = some pair → pair.ends.2 < size) :
    ∃ added, conditions.foldlM (Tables.add? declarer) tables = some added ∧
      added.Holds size (pairs ++ conditions.filterMap ColumnPair.ofCondition?)
        (guards ++ conditions.filterMap (Guard.ofCondition? declarer)) := by
  rw [List.filterMap_eq_flatMap_toList, List.filterMap_eq_flatMap_toList]
  exact holds.foldlM fun condition among _ _ _ held => held.add? declarer (within condition among)

/-- The conditions of all sources are added, each for the source that declares it. -/
theorem addSources? (holds : tables.Holds size pairs guards) {sources : List View.Source}
    (within : ∀ source ∈ sources, ∀ condition ∈ source.conditions, ∀ pair,
      ColumnPair.ofCondition? condition = some pair → pair.ends.2 < size) :
    ∃ added, sources.foldlM
        (fun tables source => source.conditions.foldlM (Tables.add? source.index) tables) tables =
          some added ∧
      added.Holds size
        (pairs ++ (sources.flatMap View.Source.conditions).filterMap ColumnPair.ofCondition?)
        (guards ++ sources.flatMap
          (fun source => source.conditions.filterMap (Guard.ofCondition? source.index))) := by
  rw [List.filterMap_flatMap]
  exact holds.foldlM fun source among _ _ _ held => held.addAll? source.index (within source among)

theorem edgeBetween?_eq (holds : tables.Holds size pairs guards) (a b : Nat) :
    tables.edgeBetween? a b = (edgesOf pairs).find? (fun edge => edge.ends == endsOf a b) := by
  rw [edgeBetween?, holds.lookup, holds.edges]
  cases found : (edgesOf pairs).find? (fun edge => edge.ends == endsOf a b) with
  | none => rfl
  | some edge => exact getElem?_id_edgesOf (List.mem_of_find?_eq_some found)

theorem neighbors_eq (holds : tables.Holds size pairs guards) {node : Nat} (within : node < size) :
    tables.neighbors node = (edgesOf pairs).filterMap
      (fun edge => (edge.other? node).map (fun next => (next, edge))) := by
  rw [neighbors, holds.adjacency, holds.edges, List.getElem?_map, List.getElem?_range within,
    Option.map_some, Option.getD_some, edgesAt, List.filterMap_map, List.filterMap_filter]
  refine List.filterMap_congr fun edge among => ?_
  rw [Function.comp_apply, getElem?_id_edgesOf among, Option.bind_some]
  cases edge.other? node <;> rfl

end Holds

/-- The tables answer as the graph does. -/
structure Serves (tables : Tables) (graph : JoinGraph) : Prop where
  edges : tables.edges = graph.edges
  guards : tables.guards = graph.guards
  between : ∀ a b, tables.edgeBetween? a b = graph.edgeBetween? a b
  neighbors : ∀ node, tables.neighbors node = graph.neighbors node

/-- Reading the conditions one after the other fills tables that answer as the graph does. -/
theorem exists_serves {view : View} (inRange : view.JoinsInRange) :
    ∃ tables, ofView? view = some tables ∧ tables.Serves (JoinGraph.ofView view) := by
  have within : ∀ source ∈ view.sources, ∀ condition ∈ source.conditions, ∀ pair,
      ColumnPair.ofCondition? condition = some pair → pair.ends.2 < view.sources.length := by
    intro source among condition own pair joined
    exact inRange.lt_of_mem_joinPairs
      (List.mem_filterMap.2 ⟨condition, View.mem_conditions.2 ⟨source, among, own⟩, joined⟩)
  obtain ⟨tables, filled, holds⟩ := (holds_empty view.sources.length).addSources? within
  rw [List.nil_append, List.nil_append] at holds
  refine ⟨tables, filled, holds.edges, holds.guards, holds.edgeBetween?_eq, fun node => ?_⟩
  rw [JoinGraph.neighbors]
  by_cases within : node < view.sources.length
  · rw [if_pos (View.contains_ofView.2 within)]
    exact holds.neighbors_eq within
  · rw [if_neg (mt View.contains_ofView.1 within), neighbors, holds.adjacency]
    simp [within]

end Tables

end Rejoin
