import Mathlib.Data.List.Count
import Rejoin.Proofs.Json.Record

/-!
# Formats

A format tells where the writing of a value is free: which values spell the same
thing, and which spell one thing twice or too much.  Formats are built along the
decoders of records, lists and variants, and a decoder `Decodes` its format if
it tells no spelling from another and takes no ambiguous one.
-/

namespace Rejoin.Json

/-- Which values spell the same thing, every value itself among them, and which are ambiguous. -/
structure Format where
  Alike : Json → Json → Prop
  Ambiguous : Json → Prop
  refl : ∀ value, Alike value value

/-- A decoder that reads all spellings alike and none of the ambiguous ones. -/
structure Decodes {α : Type} (decode : Json → Option α) (format : Format) : Prop where
  respects : ∀ {value other : Json} {held : α},
    format.Alike value other → decode value = some held → decode other = some held
  rejects : ∀ {value : Json}, format.Ambiguous value → decode value = none

variable {α β : Type} {decode : Json → Option α} {format : Format}

/-- What is read may be wrapped. -/
theorem Decodes.map (decodes : Decodes decode format) (wrap : α → β) :
    Decodes (fun value => (decode value).map wrap) format where
  respects := by
    intro value other held alike read
    obtain ⟨inner, found, rfl⟩ := Option.map_eq_some_iff.1 read
    rw [decodes.respects alike found, Option.map_some]
  rejects := by
    intro value ambiguous
    rw [decodes.rejects ambiguous, Option.map_none]

/-! ## Values without a choice, and lists -/

/-- A value without records has one spelling only. -/
def Format.plain : Format where
  Alike := Eq
  Ambiguous := fun _ => False
  refl := Eq.refl

theorem Decodes.plain (decode : Json → Option α) : Decodes decode .plain where
  respects := by
    rintro value _ held rfl read
    exact read
  rejects := False.elim

/-- Lists whose items are alike one by one. -/
inductive ListAlike (item : Format) : Json → Json → Prop where
  | same (value : Json) : ListAlike item value value
  | array {items others : List Json} (each : List.Forall₂ item.Alike items others) :
      ListAlike item (.array items) (.array others)

/-- A list with an ambiguous item. -/
inductive ListAmbiguous (item : Format) : Json → Prop where
  | item {items : List Json} {value : Json} (among : value ∈ items)
      (ambiguous : item.Ambiguous value) : ListAmbiguous item (.array items)

def Format.list (item : Format) : Format where
  Alike := ListAlike item
  Ambiguous := ListAmbiguous item
  refl := .same

theorem Decodes.list (decodes : Decodes decode format) :
    Decodes (list? decode) (.list format) where
  respects := by
    intro value other held alike read
    cases alike with
    | same => exact read
    | @array items others each =>
        rw [list?, mapM_eq_some_iff] at read ⊢
        induction each generalizing held with
        | nil => exact read
        | cons first _ ih =>
            obtain _ | ⟨found, rest⟩ := read
            exact .cons (decodes.respects first found) (ih rest)
  rejects := by
    rintro _ ⟨among, ambiguous⟩
    refine Option.eq_none_iff_forall_ne_some.2 fun held read => ?_
    obtain ⟨_, _, found⟩ := exists_of_mem_right (mapM_eq_some_iff.1 read).flip among
    rw [decodes.rejects ambiguous] at found
    cases found

/-! ## Variants -/

/-- Variants of one name whose contents are alike. -/
inductive VariantAlike (cases : List (String × Format)) : Json → Json → Prop where
  | same (value : Json) : VariantAlike cases value value
  | content {name : String} {format : Format} {content other : Json}
      (among : (name, format) ∈ cases) (alike : format.Alike content other) :
      VariantAlike cases (.object [(some name, content)]) (.object [(some name, other)])

/-- A variant of several names, or one whose content is ambiguous. -/
inductive VariantAmbiguous (cases : List (String × Format)) : Json → Prop where
  | several {members : List Member} (more : 1 < members.length) :
      VariantAmbiguous cases (.object members)
  | content {name : String} {format : Format} {content : Json} (among : (name, format) ∈ cases)
      (ambiguous : format.Ambiguous content) :
      VariantAmbiguous cases (.object [(some name, content)])

def Format.variants (cases : List (String × Format)) : Format where
  Alike := VariantAlike cases
  Ambiguous := VariantAmbiguous cases
  refl := .same

theorem variant?_of_several {members : List Member} (more : 1 < members.length) :
    (object members).variant? = none := by
  match members with
  | [] | [_] => simp at more
  | _ :: _ :: _ => simp [variant?]

/-- Each content is decoded on its own, and an object of several members is no variant. -/
theorem Decodes.variants {cases : List (String × Format)}
    (each : ∀ case ∈ cases,
      Decodes (fun content => decode (.object [(some case.1, content)])) case.2)
    (single : ∀ value, value.variant? = none → value.text? = none → decode value = none) :
    Decodes decode (.variants cases) where
  respects := by
    intro value other held alike read
    cases alike with
    | same => exact read
    | content among alike => exact (each _ among).respects alike read
  rejects := by
    intro value ambiguous
    cases ambiguous with
    | several more => exact single _ (variant?_of_several more) rfl
    | content among ambiguous => exact (each _ among).rejects ambiguous

/-! ## Records -/

/-- A declared field, with the value that stands for it where it is left out. -/
structure Field where
  name : String
  default? : Option Json
  format : Format

section

variable (fields : List Field)

/-- A member of a record as it stands, or a declared field with a value alike. -/
inductive MemberAlike : Member → Member → Prop where
  | same (member : Member) : MemberAlike member member
  | declared {field : Field} {value other : Json} (among : field ∈ fields)
      (alike : field.format.Alike value other) :
      MemberAlike (some field.name, value) (some field.name, other)

/-- The value of a field in the list of all values: as the members give it, or else the default. -/
inductive ListedAs (members : List Member) (field : Field) (item : Json) : Prop where
  | given {value : Json} (among : (some field.name, value) ∈ members)
      (alike : field.format.Alike value item)
  | defaulted (missing : ∀ value, (some field.name, value) ∉ members)
      (default : field.default? = some item)

/-- The first values of a record, alike one by one. -/
inductive EntriesAlike : List Field → List Json → List Json → Prop where
  | nil (fields : List Field) : EntriesAlike fields [] []
  | cons {field : Field} {fields : List Field} {item other : Json} {items others : List Json}
      (first : field.format.Alike item other) (later : EntriesAlike fields items others) :
      EntriesAlike (field :: fields) (item :: items) (other :: others)

/--
Spellings of a record.  The members of an object may be arranged anew, with any
further ones that are not declared, and give way to the list of all values.
-/
inductive RecordAlike : Json → Json → Prop where
  | same (value : Json) : RecordAlike value value
  | object {members respelled inserted others : List Member}
      (each : List.Forall₂ (MemberAlike fields) members respelled)
      (foreign : ∀ member ∈ inserted,
        ∃ name, member.1 = some name ∧ name ∉ fields.map Field.name)
      (arranged : others.Perm (respelled ++ inserted)) :
      RecordAlike (.object members) (.object others)
  | listed {members : List Member} {items : List Json}
      (each : List.Forall₂ (ListedAs members) fields items) :
      RecordAlike (.object members) (.array items)
  | array {items others : List Json} (each : EntriesAlike fields items others) :
      RecordAlike (.array items) (.array others)

/-- A record that gives a declared field twice, more values than fields, or an ambiguous one. -/
inductive RecordAmbiguous : Json → Prop where
  | repeated {members : List Member} {field : Field} (among : field ∈ fields)
      (twice : 1 < (members.map Prod.fst).count (some field.name)) :
      RecordAmbiguous (.object members)
  | member {members : List Member} {field : Field} {value : Json} (among : field ∈ fields)
      (given : (some field.name, value) ∈ members) (ambiguous : field.format.Ambiguous value) :
      RecordAmbiguous (.object members)
  | excess {items : List Json} (more : fields.length < items.length) :
      RecordAmbiguous (.array items)
  | entry {items : List Json} {field : Field} {value : Json}
      (given : (field, value) ∈ fields.zip items) (ambiguous : field.format.Ambiguous value) :
      RecordAmbiguous (.array items)

end

def Format.record (fields : List Field) : Format where
  Alike := RecordAlike fields
  Ambiguous := RecordAmbiguous fields
  refl := .same

/-! ## Reading declared fields -/

/-- What two spellings of a record may give for a declared field. -/
structure FieldAlike (field : Field) (held other : Option Json) : Prop where
  given : ∀ {value : Json}, held = some value →
    ∃ respelled, other = some respelled ∧ field.format.Alike value respelled
  missing : held = none → other = none ∨ other = field.default?

/-- A reader of declared fields that goes by nothing but what their values spell. -/
structure Reads (fields : List Field) (read : Fields → Option α) : Prop where
  respects : ∀ {given other : Fields} {held : α},
    (∀ field ∈ fields, FieldAlike field (given.value? field.name) (other.value? field.name)) →
    read given = some held → read other = some held
  rejects : ∀ {given : Fields} {field : Field} {value : Json}, field ∈ fields →
    given.value? field.name = some value → field.format.Ambiguous value → read given = none

namespace Reads

theorem done (held : α) : Reads [] (fun _ => some held) where
  respects := fun _ read => read
  rejects := fun among => absurd among List.not_mem_nil

/-- A field that has to be given. -/
theorem required (name : String) (decodes : Decodes decode format) :
    Reads [⟨name, none, format⟩] (fun given => given.required? name decode) where
  respects := by
    intro given other held alike read
    obtain ⟨value, found, decoded⟩ := Option.bind_eq_some_iff.1 read
    obtain ⟨respelled, present, alike⟩ := (List.forall_mem_singleton.1 alike).given found
    exact Option.bind_eq_some_iff.2 ⟨respelled, present, decodes.respects alike decoded⟩
  rejects := by
    intro given field value among found ambiguous
    obtain rfl := List.mem_singleton.1 among
    exact Option.bind_eq_none_iff.2 fun held present => by
      obtain rfl := Option.some.inj (present.symm.trans found)
      exact decodes.rejects ambiguous

/-- A field that may be left out where it holds its default. -/
theorem optional (name : String) {default : Json} {held : α} (decodes : Decodes decode format)
    (written : decode default = some held) :
    Reads [⟨name, some default, format⟩] (fun given => given.optional? name held decode) where
  respects := by
    intro given other result alike read
    obtain ⟨present, missing⟩ := List.forall_mem_singleton.1 alike
    unfold Fields.optional? at read ⊢
    split at read
    · next value found =>
        obtain ⟨respelled, present, alike⟩ := present found
        rw [present]
        exact decodes.respects alike read
    · next absent =>
        obtain absent | present := missing absent
        · rw [absent]
          exact read
        · rw [present]
          exact written.trans read
  rejects := by
    intro given field value among found ambiguous
    obtain rfl := List.mem_singleton.1 among
    rw [Fields.optional?, found]
    exact decodes.rejects ambiguous

/-- The fields may be read one after the other. -/
theorem next {field : Field} {fields : List Field} {first : Fields → Option β}
    {later : β → Fields → Option α} (reads : Reads [field] first)
    (rest : ∀ value, Reads fields (later value)) :
    Reads (field :: fields) (fun given => (first given).bind (fun value => later value given)) where
  respects := by
    intro given other held alike read
    obtain ⟨one, others⟩ := List.forall_mem_cons.1 alike
    obtain ⟨value, found, read⟩ := Option.bind_eq_some_iff.1 read
    exact Option.bind_eq_some_iff.2 ⟨value, reads.respects (List.forall_mem_singleton.2 one) found,
      (rest value).respects others read⟩
  rejects := by
    intro given held value among found ambiguous
    obtain rfl | among := List.mem_cons.1 among
    · rw [reads.rejects (List.mem_singleton.2 rfl) found ambiguous, Option.bind_none]
    · exact Option.bind_eq_none_iff.2 fun one _ => (rest one).rejects among found ambiguous

end Reads

/-! ## The fields of an object -/

/-- The members of an object whose keys are texts. -/
theorem named?_eq_some_iff {members : List Member} {named : List (String × Json)} :
    named? members = some named ↔
      members = named.map (fun field => (some field.1, field.2)) := by
  refine ⟨fun read => eq_map_of_forall₂ ?_, fun same => same ▸ named?_record named⟩
  refine (mapM_eq_some_iff.1 read).flip.imp fun field member found => ?_
  obtain ⟨key, text, rfl⟩ := Option.map_eq_some_iff.1 found
  exact Prod.ext text rfl

/-- No declared name is given twice if and only if each is counted at most once. -/
theorem nodup_known_iff {declared : List String} {named : List (String × Json)} :
    ((named.filter (fun field => declared.contains field.1)).map Prod.fst).Nodup ↔
      ∀ name ∈ declared, (named.map Prod.fst).count name ≤ 1 := by
  have known : (named.filter (fun field => declared.contains field.1)).map Prod.fst =
      (named.map Prod.fst).filter (declared.contains ·) := by
    rw [List.filter_map]
    rfl
  rw [known, List.nodup_iff_count_le_one]
  refine forall_congr' fun name => ?_
  by_cases among : name ∈ declared
  · rw [List.count_filter (by simpa using among)]
    exact ⟨fun once _ => once, fun once => once among⟩
  · rw [List.count_eq_zero.2 (by simp [among])]
    exact ⟨fun _ other => absurd other among, fun _ => Nat.zero_le 1⟩

theorem count_keys (named : List (String × Json)) (name : String) :
    ((named.map (fun field => (some field.1, field.2))).map Prod.fst).count (some name) =
      (named.map Prod.fst).count name := by
  have keys : (named.map (fun field => (some field.1, field.2))).map Prod.fst =
      (named.map Prod.fst).map some := by simp
  rw [keys, List.count_map_of_injective _ _ fun _ _ => Option.some.inj]

section

variable {declared : List String} {members : List Member} {given : Fields}

/-- The fields of an object are its members by declared names, none of them repeated. -/
theorem fields?_object_eq_some_iff :
    (object members).fields? declared = some given ↔
      ∃ named : List (String × Json), members = named.map (fun field => (some field.1, field.2)) ∧
        (∀ name ∈ declared, (named.map Prod.fst).count name ≤ 1) ∧
        given = ⟨named.filter (fun field => declared.contains field.1)⟩ := by
  rw [fields?, Option.bind_eq_some_iff]
  refine exists_congr fun named => and_congr named?_eq_some_iff ?_
  rw [← nodup_known_iff, Option.ite_none_right_eq_some, Option.some.injEq, eq_comm (b := given)]

/-- An object is read as a record when its keys are texts and none that is declared is repeated. -/
theorem exists_fields?_object_iff :
    (∃ given, (object members).fields? declared = some given) ↔
      (∀ member ∈ members, ∃ name, member.1 = some name) ∧
      ∀ name ∈ declared, (members.map Prod.fst).count (some name) ≤ 1 := by
  constructor
  · rintro ⟨given, read⟩
    obtain ⟨named, rfl, once, -⟩ := fields?_object_eq_some_iff.1 read
    refine ⟨List.forall_mem_map.2 fun field _ => ⟨field.1, rfl⟩, fun name known => ?_⟩
    rw [count_keys]
    exact once name known
  · rintro ⟨texts, once⟩
    obtain ⟨named, pointwise⟩ : ∃ named : List (String × Json),
        List.Forall₂ (fun member field => member = (some field.1, field.2)) members named :=
      exists_forall₂ fun member among => by
        obtain ⟨name, text⟩ := texts member among
        exact ⟨(name, member.2), Prod.ext text rfl⟩
    obtain rfl := eq_map_of_forall₂ pointwise.flip
    refine ⟨_, fields?_object_eq_some_iff.2 ⟨named, rfl, fun name known => ?_, rfl⟩⟩
    rw [← count_keys]
    exact once name known

/-- A declared field of an object has the value of the member by its name. -/
theorem value?_object_eq_some_iff (read : (object members).fields? declared = some given)
    {name : String} (known : name ∈ declared) {value : Json} :
    given.value? name = some value ↔ (some name, value) ∈ members := by
  obtain ⟨named, rfl, once, rfl⟩ := fields?_object_eq_some_iff.1 read
  rw [Fields.value?, lookup_eq_some_iff_mem (nodup_known_iff.2 once)]
  simp [known]

end

/-! ## Records are read alike -/

theorem FieldAlike.both {field : Field} {value other : Json}
    (alike : field.format.Alike value other) : FieldAlike field (some value) (some other) where
  given := fun found => ⟨other, rfl, Option.some.inj found ▸ alike⟩
  missing := fun absent => nomatch absent

theorem FieldAlike.refl (field : Field) (held : Option Json) : FieldAlike field held held where
  given := fun found => ⟨_, found, field.format.refl _⟩
  missing := .inl

section

variable {fields : List Field} {members respelled inserted others : List Member}

theorem MemberAlike.key {member other : Member} (alike : MemberAlike fields member other) :
    member.1 = other.1 := by
  cases alike <;> rfl

/-- The value of a declared field is alike in members that are alike. -/
theorem MemberAlike.value (distinct : (fields.map Field.name).Nodup) {field : Field}
    (among : field ∈ fields) {value : Json} {other : Member}
    (alike : MemberAlike fields (some field.name, value) other) :
    ∃ respelled, other = (some field.name, respelled) ∧ field.format.Alike value respelled := by
  generalize start : (some field.name, value) = member at alike
  cases alike with
  | same => exact ⟨value, start.symm, field.format.refl value⟩
  | @declared declared _ written known alike =>
      obtain ⟨named, rfl⟩ := Prod.mk.inj start
      obtain rfl := List.inj_on_of_nodup_map distinct among known (Option.some.inj named)
      exact ⟨written, rfl, alike⟩

/-- Rearranging members and adding foreign ones leaves the count of the declared keys. -/
theorem count_respelled (each : List.Forall₂ (MemberAlike fields) members respelled)
    (foreign : ∀ member ∈ inserted, ∃ name, member.1 = some name ∧ name ∉ fields.map Field.name)
    (arranged : others.Perm (respelled ++ inserted)) {name : String}
    (known : name ∈ fields.map Field.name) :
    (others.map Prod.fst).count (some name) = (members.map Prod.fst).count (some name) := by
  have keys : members.map Prod.fst = respelled.map Prod.fst := by
    rw [← List.forall₂_eq_eq_eq, List.forall₂_map_left_iff, List.forall₂_map_right_iff]
    exact each.imp fun _ _ => MemberAlike.key
  have absent : some name ∉ inserted.map Prod.fst := fun among => by
    obtain ⟨member, among, named⟩ := List.mem_map.1 among
    obtain ⟨other, text, unknown⟩ := foreign member among
    obtain rfl := Option.some.inj (named.symm.trans text)
    exact unknown known
  rw [(arranged.map Prod.fst).count_eq, List.map_append, List.count_append, keys,
    List.count_eq_zero.2 absent, Nat.add_zero]

/-- The declared fields of an object are alike in every arrangement of members that are alike. -/
theorem fields?_rearranged (distinct : (fields.map Field.name).Nodup)
    (each : List.Forall₂ (MemberAlike fields) members respelled)
    (foreign : ∀ member ∈ inserted, ∃ name, member.1 = some name ∧ name ∉ fields.map Field.name)
    (arranged : others.Perm (respelled ++ inserted)) {given : Fields}
    (read : (object members).fields? (fields.map Field.name) = some given) :
    ∃ rewritten, (object others).fields? (fields.map Field.name) = some rewritten ∧
      ∀ field ∈ fields,
        FieldAlike field (given.value? field.name) (rewritten.value? field.name) := by
  obtain ⟨texts, once⟩ := exists_fields?_object_iff.1 ⟨given, read⟩
  obtain ⟨rewritten, readOthers⟩ :
      ∃ rewritten, (object others).fields? (fields.map Field.name) = some rewritten := by
    refine exists_fields?_object_iff.2 ⟨fun other among => ?_, fun name known => ?_⟩
    · obtain among | among := List.mem_append.1 (arranged.mem_iff.1 among)
      · obtain ⟨member, among, alike⟩ := exists_of_mem_right each among
        rw [← alike.key]
        exact texts member among
      · obtain ⟨name, text, -⟩ := foreign other among
        exact ⟨name, text⟩
    · rw [count_respelled each foreign arranged known]
      exact once name known
  refine ⟨rewritten, readOthers, fun field among => ?_⟩
  have known : field.name ∈ fields.map Field.name := List.mem_map_of_mem among
  refine ⟨fun {value} found => ?_, fun missing => .inl ?_⟩
  · have held := (value?_object_eq_some_iff read known).1 found
    obtain ⟨other, written, alike⟩ := exists_of_mem_right each.flip held
    obtain ⟨respelt, rfl, same⟩ := alike.value distinct among
    have stands := arranged.mem_iff.2 (List.mem_append_left inserted written)
    exact ⟨respelt, (value?_object_eq_some_iff readOthers known).2 stands, same⟩
  · refine Option.eq_none_iff_forall_ne_some.2 fun value found => ?_
    have held := arranged.mem_iff.1 ((value?_object_eq_some_iff readOthers known).1 found)
    obtain written | added := List.mem_append.1 held
    · obtain ⟨⟨key, before⟩, stands, alike⟩ := exists_of_mem_right each written
      obtain rfl := alike.key
      exact absurd ((value?_object_eq_some_iff read known).2 stands) (by simp [missing])
    · obtain ⟨name, text, unknown⟩ := foreign _ added
      obtain rfl := Option.some.inj text
      exact unknown known

/-- The fields of an array are its items in their places. -/
theorem fields?_array_eq_some_iff {declared : List String} {items : List Json} {given : Fields} :
    (array items).fields? declared = some given ↔
      items.length ≤ declared.length ∧ given = ⟨declared.zip items⟩ := by
  rw [fields?, Option.ite_none_right_eq_some, Option.some.injEq, eq_comm (b := given)]

/-- The value of the first of several fields with distinct names, and of the others. -/
theorem value?_zip_cons {head : Field} (item : Json) (items : List Json)
    (distinct : ((head :: fields).map Field.name).Nodup) :
    Fields.value? ⟨((head :: fields).map Field.name).zip (item :: items)⟩ head.name = some item ∧
      ∀ field ∈ fields,
        Fields.value? ⟨((head :: fields).map Field.name).zip (item :: items)⟩ field.name =
          Fields.value? ⟨(fields.map Field.name).zip items⟩ field.name := by
  obtain ⟨fresh, -⟩ := List.nodup_cons.1 distinct
  refine ⟨by simp [Fields.value?], fun field among => ?_⟩
  have apart : field.name ≠ head.name := fun same => fresh (same ▸ List.mem_map_of_mem among)
  simp [Fields.value?, List.lookup_cons, beq_false_of_ne apart]

/-- The item in the place of a field is its value. -/
theorem value?_of_mem_zip (distinct : (fields.map Field.name).Nodup) {items : List Json}
    {field : Field} {item : Json} (stands : (field, item) ∈ fields.zip items) :
    Fields.value? ⟨(fields.map Field.name).zip items⟩ field.name = some item := by
  induction fields generalizing items with
  | nil => cases stands
  | cons first fields ih =>
      cases items with
      | nil => cases stands
      | cons head items =>
          obtain ⟨front, others⟩ := value?_zip_cons head items distinct
          obtain same | later := List.mem_cons.1 stands
          · obtain ⟨rfl, rfl⟩ := Prod.mk.inj same
            exact front
          · rw [others field (List.of_mem_zip later).1]
            exact ih distinct.of_cons later

/-- The list of all values gives for each field what the members give, or else its default. -/
theorem value?_listed (distinct : (fields.map Field.name).Nodup) {items : List Json}
    (each : List.Forall₂ (ListedAs members) fields items) :
    ∀ field ∈ fields, ∃ item, ListedAs members field item ∧
      Fields.value? ⟨(fields.map Field.name).zip items⟩ field.name = some item := by
  induction each with
  | nil => exact List.forall_mem_nil _
  | cons first _ ih =>
      obtain ⟨head, others⟩ := value?_zip_cons _ _ distinct
      refine List.forall_mem_cons.2 ⟨⟨_, first, head⟩, fun field among => ?_⟩
      rw [others field among]
      exact ih distinct.of_cons field among

/-- Items that are alike give fields that are alike. -/
theorem EntriesAlike.fieldAlike {items others : List Json}
    (alike : EntriesAlike fields items others) (distinct : (fields.map Field.name).Nodup) :
    ∀ field ∈ fields, FieldAlike field
      (Fields.value? ⟨(fields.map Field.name).zip items⟩ field.name)
      (Fields.value? ⟨(fields.map Field.name).zip others⟩ field.name) := by
  induction alike with
  | nil fields => exact fun field _ => by simpa using FieldAlike.refl field _
  | cons first _ ih =>
      obtain ⟨head, tail⟩ := value?_zip_cons _ _ distinct
      obtain ⟨headOther, tailOther⟩ := value?_zip_cons _ _ distinct
      refine List.forall_mem_cons.2 ⟨?_, fun field among => ?_⟩
      · rw [head, headOther]
        exact .both first
      · rw [tail field among, tailOther field among]
        exact ih distinct.of_cons field among

theorem EntriesAlike.length_eq {items others : List Json}
    (alike : EntriesAlike fields items others) : items.length = others.length := by
  induction alike with
  | nil => rfl
  | cons _ _ ih => simp [ih]

/-- Every spelling of a record gives its declared fields alike. -/
theorem fields?_respelled (distinct : (fields.map Field.name).Nodup) {value other : Json}
    (alike : RecordAlike fields value other) {given : Fields}
    (read : value.fields? (fields.map Field.name) = some given) :
    ∃ rewritten, other.fields? (fields.map Field.name) = some rewritten ∧
      ∀ field ∈ fields,
        FieldAlike field (given.value? field.name) (rewritten.value? field.name) := by
  cases alike with
  | same => exact ⟨given, read, fun field _ => .refl field _⟩
  | object each foreign arranged => exact fields?_rearranged distinct each foreign arranged read
  | @listed members items each =>
      have whole : items.length ≤ (fields.map Field.name).length := by simp [each.length_eq]
      refine ⟨_, fields?_array_eq_some_iff.2 ⟨whole, rfl⟩, fun field among => ?_⟩
      obtain ⟨item, listed, found⟩ := value?_listed distinct each field among
      rw [found]
      have known : field.name ∈ fields.map Field.name := List.mem_map_of_mem among
      cases listed with
      | given among alike =>
          rw [(value?_object_eq_some_iff read known).2 among]
          exact .both alike
      | defaulted missing default =>
          refine ⟨fun found => ?_, fun _ => .inr default.symm⟩
          exact absurd ((value?_object_eq_some_iff read known).1 found) (missing _)
  | @array items others each =>
      obtain ⟨short, rfl⟩ := fields?_array_eq_some_iff.1 read
      rw [each.length_eq] at short
      exact ⟨_, fields?_array_eq_some_iff.2 ⟨short, rfl⟩, each.fieldAlike distinct⟩

/-- An ambiguous record gives no fields, or gives one of them an ambiguous value. -/
theorem RecordAmbiguous.gives (distinct : (fields.map Field.name).Nodup) {value : Json}
    (ambiguous : RecordAmbiguous fields value) {given : Fields}
    (read : value.fields? (fields.map Field.name) = some given) :
    ∃ field ∈ fields, ∃ held,
      given.value? field.name = some held ∧ field.format.Ambiguous held := by
  cases ambiguous with
  | @repeated members field among twice =>
      have known : field.name ∈ fields.map Field.name := List.mem_map_of_mem among
      have once := (exists_fields?_object_iff.1 ⟨given, read⟩).2 field.name known
      omega
  | @member members field held among stands ambiguous =>
      have known : field.name ∈ fields.map Field.name := List.mem_map_of_mem among
      exact ⟨field, among, held, (value?_object_eq_some_iff read known).2 stands, ambiguous⟩
  | excess more =>
      have short := (fields?_array_eq_some_iff.1 read).1
      rw [List.length_map] at short
      omega
  | @entry items field held stands ambiguous =>
      obtain ⟨-, rfl⟩ := fields?_array_eq_some_iff.1 read
      exact ⟨field, (List.of_mem_zip stands).1, held, value?_of_mem_zip distinct stands, ambiguous⟩

/-- What is read from the fields of a record goes by their spelling alone. -/
theorem Decodes.record {read : Fields → Option α} (reads : Reads fields read)
    (distinct : (fields.map Field.name).Nodup) :
    Decodes (fun value => (value.fields? (fields.map Field.name)).bind read) (.record fields) where
  respects := by
    intro value other held alike found
    obtain ⟨given, taken, found⟩ := Option.bind_eq_some_iff.1 found
    obtain ⟨rewritten, retaken, each⟩ := fields?_respelled distinct alike taken
    exact Option.bind_eq_some_iff.2 ⟨rewritten, retaken, reads.respects each found⟩
  rejects := by
    intro value ambiguous
    refine Option.bind_eq_none_iff.2 fun given taken => ?_
    obtain ⟨field, among, held, found, ambiguous⟩ := ambiguous.gives distinct taken
    exact reads.rejects among found ambiguous

end

end Rejoin.Json
