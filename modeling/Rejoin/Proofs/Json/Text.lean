import Mathlib.Data.List.TakeWhile
import Rejoin.Json.Record
import Rejoin.Json.Text
import Rejoin.Proofs.Json.Scan

/-!
# Reading what is written

A value is read from every text of its tokens (`parse?_lexes`).  The compact
and the pretty text are texts of the value's tokens when numbers are numerals
and strings are texts, so neither of them loses anything.
-/

namespace Rejoin.Json

/-! ## Tokens of a value -/

/-- A word may follow anything that is no word. -/
theorem Separated.mark {rest : List Token} (token : Token) (mark : token.isWord = false)
    (separated : Separated rest) : Separated (token :: rest) :=
  List.isChain_cons.2 ⟨fun _ _ => .inl mark, separated⟩

theorem isWord_head_itemTokens (items : List Json) (rest : List Token) :
    ∀ next ∈ (itemTokens items ++ rest).head?, next.isWord = false := by
  cases items <;> simp [itemTokens, Token.isWord]

theorem isWord_head_memberTokens (members : List Member) (rest : List Token) :
    ∀ next ∈ (memberTokens members ++ rest).head?, next.isWord = false := by
  obtain _ | ⟨⟨_, _⟩, _⟩ := members <;> simp [memberTokens, Token.isWord]

mutual

/-- Between any two words of a value stands a mark. -/
theorem separated_tokens {rest : List Token} (separated : Separated rest)
    (follows : ∀ next ∈ rest.head?, next.isWord = false) :
    ∀ value : Json, Separated (value.tokens ++ rest)
  | .scalar _ => List.isChain_cons.2 ⟨fun next first => .inr (follows next first), separated⟩
  | .array [] => .mark _ rfl (.mark _ rfl separated)
  | .array (item :: items) => by
      have first := separated_tokens (separated_itemTokens separated items)
        (isWord_head_itemTokens items rest) item
      simpa [tokens] using first.mark .beginArray rfl
  | .object [] => .mark _ rfl (.mark _ rfl separated)
  | .object ((key, value) :: members) => by
      have first := separated_tokens (separated_memberTokens separated members)
        (isWord_head_memberTokens members rest) value
      have named := (first.mark .colon rfl).mark (.scalar (.string key)) rfl
      simpa [tokens] using named.mark .beginObject rfl

theorem separated_itemTokens {rest : List Token} (separated : Separated rest) :
    ∀ items : List Json, Separated (itemTokens items ++ rest)
  | [] => .mark _ rfl separated
  | item :: items => by
      have first := separated_tokens (separated_itemTokens separated items)
        (isWord_head_itemTokens items rest) item
      simpa [itemTokens] using first.mark .comma rfl

theorem separated_memberTokens {rest : List Token} (separated : Separated rest) :
    ∀ members : List Member, Separated (memberTokens members ++ rest)
  | [] => .mark _ rfl separated
  | (key, value) :: members => by
      have first := separated_tokens (separated_memberTokens separated members)
        (isWord_head_memberTokens members rest) value
      have named := (first.mark .colon rfl).mark (.scalar (.string key)) rfl
      simpa [memberTokens] using named.mark .comma rfl

end

/-- A value is read from every text of its tokens, however they are spelled and set apart. -/
theorem parse?_lexes {value : Json} {text : String} (lexes : Lexes value.tokens text.toList) :
    parse? text = some value := by
  have separated : Separated (value.tokens ++ []) := separated_tokens .nil (by simp) value
  rw [List.append_nil] at separated
  rw [parse?, scan?_lexes lexes separated, Option.bind_some, ofTokens?_tokens]

theorem parse?_writes {value : Json} {text : String} (writes : Writes value.tokens text.toList) :
    parse? text = some value :=
  parse?_lexes writes.lexes

/-! ## Values that have a spelling -/

/-- Every token stands for itself in its own spelling. -/
def Spelled (tokens : List Token) : Prop :=
  ∀ token ∈ tokens, token.Written token.spelling

/-- Numbers are numerals and strings are texts, so that every token can be written. -/
def Spellable (value : Json) : Prop :=
  Spelled value.tokens

theorem spelled_append {first second : List Token} :
    Spelled (first ++ second) ↔ Spelled first ∧ Spelled second :=
  List.forall_mem_append

/-- A mark has one spelling. -/
theorem Token.written_of_mark {token : Token} (mark : ∀ value, token ≠ .scalar value) :
    token.Written token.spelling := by
  cases token with
  | scalar value => exact absurd rfl (mark value)
  | _ => exact .mark rfl

theorem spelled_mark {token : Token} {rest : List Token} (mark : ∀ value, token ≠ .scalar value) :
    Spelled (token :: rest) ↔ Spelled rest :=
  List.forall_mem_cons.trans (and_iff_right (Token.written_of_mark mark))

theorem quotes_append {first second written others : List Char} (quotes : Quotes first written)
    (later : Quotes second others) : Quotes (first ++ second) (written ++ others) := by
  induction quotes with
  | nil => exact later
  | plain unquoted whole visible _ ih => exact .plain unquoted whole visible ih
  | letter means _ ih => exact .letter means ih
  | unit coded notHigh notLow _ ih =>
      simpa using Quotes.unit coded notHigh notLow ih
  | pair codedHigh codedLow isHigh isLow _ ih =>
      simpa using Quotes.pair codedHigh codedLow isHigh isLow ih

theorem codes_byte {code : Nat} (small : code < 256) :
    Codes ['0', '0', Hexadecimal.digit (code / 16), Hexadecimal.digit (code % 16)] code := by
  have coded := Codes.digits (Hexadecimal.value?_digit 0 (by decide))
    (Hexadecimal.value?_digit 0 (by decide))
    (Hexadecimal.value?_digit (code / 16) (by omega))
    (Hexadecimal.value?_digit (code % 16) (by omega))
  have same : ((0 * 16 + 0) * 16 + code / 16) * 16 + code % 16 = code := by omega
  rwa [same] at coded

/-- The way a character is written between quotes stands for it. -/
theorem quotes_escape (c : Char) : Quotes [c] (escape c) := by
  unfold escape
  split
  -- Seven characters have letters of their own.
  iterate 7 exact .letter rfl .nil
  next unquoted whole _ _ _ _ _ =>
    split
    · next control =>
        have small : c.toNat < 32 := by simpa [isControl] using control
        have coded : Codes _ c.toNat := codes_byte (by omega)
        have plane {bound : Nat} (above : 0xD800 ≤ bound) : ¬ bound ≤ c.toNat := by omega
        have read := Quotes.unit coded (by simp [isHighSurrogate, plane])
          (by simp [isLowSurrogate, plane]) .nil
        rwa [Char.ofNat_toNat] at read
    · next visible => exact .plain unquoted whole (by simpa using visible) .nil

theorem quotes_quoted (text : List Char) : Quotes text (text.flatMap escape) := by
  induction text with
  | nil => exact .nil
  | cons c rest ih => exact quotes_append (quotes_escape c) ih

theorem spellable_scalar {value : Scalar} (written : (Token.scalar value).Written value.spelling) :
    (scalar value).Spellable := by
  intro token among
  obtain rfl : token = .scalar value := by simpa [tokens] using among
  exact written

theorem spellable_text (value : String) : (text value).Spellable :=
  spellable_scalar (.string (quotes_quoted value.toList))

theorem spellable_null : null.Spellable :=
  spellable_scalar (.word rfl)

/-- The only number that starts with a zero is zero. -/
theorem exists_toDigits_eq_cons (value : Nat) :
    ∃ first rest, Nat.toDigits 10 value = first :: rest ∧ (first = '0' → value = 0) := by
  induction value using Nat.strongRecOn with
  | ind value ih =>
      rcases Nat.lt_or_ge value 10 with small | large
      · exact ⟨value.digitChar, [], Nat.toDigits_of_lt_base small, Nat.digitChar_eq_zero.1⟩
      · obtain ⟨first, rest, digits, zero⟩ := ih (value / 10) (by omega)
        refine ⟨first, rest ++ [(value % 10).digitChar], ?_, fun leads => ?_⟩
        · rw [Nat.toDigits_of_base_le (by decide) large, digits, List.cons_append]
        · have := zero leads
          omega

theorem isNumeral_repr (value : Nat) : isNumeral value.repr.toList = true := by
  obtain ⟨first, rest, digits, zero⟩ := exists_toDigits_eq_cons value
  have digit : ∀ c ∈ first :: rest, c.isDigit = true := fun c among =>
    Nat.isDigit_of_mem_toDigits (by decide) (by decide) (digits ▸ among)
  obtain ⟨leads, others⟩ := List.forall_mem_cons.1 digit
  have unsigned : isNumeral (first :: rest) = isUnsigned (first :: rest) := by
    unfold isNumeral
    split
    · next same =>
        obtain ⟨rfl, -⟩ := List.cons.inj same
        cases leads
    · rfl
  rw [Nat.toList_repr, digits, unsigned]
  by_cases starts : first = '0'
  · obtain rfl := zero starts
    cases digits
    rfl
  · have ended : rest.dropWhile Char.isDigit = [] := List.dropWhile_eq_nil_iff.2 others
    simp [isUnsigned, leads, ended, isFraction, isExponent]

theorem Scalar.ofWord?_of_isNumeral {letters : List Char} (numeral : isNumeral letters = true) :
    Scalar.ofWord? letters = some (.number (String.ofList letters)) := by
  have apart {word : List Char} (foreign : isNumeral word = false) : letters ≠ word :=
    ne_of_apply_ne isNumeral (by rw [numeral, foreign]; decide)
  rw [ofWord?, if_neg (apart (by decide)), if_neg (apart (by decide)), if_neg (apart (by decide)),
    if_pos numeral]

theorem spellable_natural (value : Nat) : (natural value).Spellable := by
  have means := Scalar.ofWord?_of_isNumeral (isNumeral_repr value)
  rw [String.ofList_toList] at means
  exact spellable_scalar (.word means)

theorem spellable_nullable {α : Type} {encode : α → Json}
    (each : ∀ value, (encode value).Spellable) (held : Option α) :
    (nullable encode held).Spellable := by
  cases held with
  | none => exact spellable_null
  | some value => exact each value

theorem spelled_itemTokens {items : List Json} :
    Spelled (itemTokens items) ↔ ∀ item ∈ items, item.Spellable := by
  induction items with
  | nil => simp [itemTokens, Spelled, Token.written_of_mark]
  | cons item items ih =>
      rw [itemTokens, spelled_mark (by simp), spelled_append, ih, List.forall_mem_cons, Spellable]

theorem spellable_array {items : List Json} :
    (array items).Spellable ↔ ∀ item ∈ items, item.Spellable := by
  cases items with
  | nil => simp [Spellable, tokens, Spelled, Token.written_of_mark]
  | cons item items =>
      rw [Spellable, tokens, spelled_mark (by simp), spelled_append, spelled_itemTokens,
        List.forall_mem_cons, Spellable]

theorem spellable_list {α : Type} {encode : α → Json}
    (each : ∀ value, (encode value).Spellable) (values : List α) :
    (list encode values).Spellable :=
  spellable_array.2 (List.forall_mem_map.2 fun value _ => each value)

/-- The key and the value of a member have spellings. -/
def SpellableMember (held : Member) : Prop :=
  (Token.scalar (.string held.1)).Written (Scalar.string held.1).spelling ∧ held.2.Spellable

theorem spelled_member {key : Option String} {value : Json} {rest : List Token} :
    Spelled (.scalar (.string key) :: .colon :: (value.tokens ++ rest)) ↔
      SpellableMember (key, value) ∧ Spelled rest := by
  rw [Spelled, List.forall_mem_cons, ← Spelled, spelled_mark (by simp), spelled_append, ← and_assoc]
  rfl

theorem spelled_memberTokens {members : List Member} :
    Spelled (memberTokens members) ↔ ∀ held ∈ members, SpellableMember held := by
  induction members with
  | nil => simp [memberTokens, Spelled, Token.written_of_mark]
  | cons first members ih =>
      obtain ⟨key, value⟩ := first
      rw [memberTokens, spelled_mark (by simp), spelled_member, ih, List.forall_mem_cons]

theorem spellable_object {members : List Member} :
    (object members).Spellable ↔ ∀ held ∈ members, SpellableMember held := by
  rcases members with _ | ⟨⟨key, value⟩, members⟩
  · simp [Spellable, tokens, Spelled, Token.written_of_mark]
  · rw [Spellable, tokens, spelled_mark (by simp), spelled_member, spelled_memberTokens,
      List.forall_mem_cons]

theorem spellable_record {fields : List (String × Json)}
    (each : ∀ field ∈ fields, field.2.Spellable) : (record fields).Spellable :=
  spellable_object.2 (List.forall_mem_map.2 fun field among =>
    ⟨.string (quotes_quoted field.1.toList), each field among⟩)

/-! ## The two forms -/

theorem Writes.token {token : Token} {tokens : List Token} {spelling text : List Char}
    (written : token.Written spelling) (later : Writes tokens text) :
    Writes (token :: tokens) (spelling ++ text) :=
  .cons (List.forall_mem_nil _ : Blank []) written later

/-- Blanks may stand before any text. -/
theorem Writes.blank {blanks : List Char} (blank : Blank blanks) {tokens : List Token}
    {text : List Char} (later : Writes tokens text) : Writes tokens (blanks ++ text) := by
  cases later with
  | nil others => exact .nil (List.forall_mem_append.2 ⟨blank, others⟩)
  | cons others written later =>
      rw [← List.append_assoc]
      exact .cons (List.forall_mem_append.2 ⟨blank, others⟩) written later

theorem Spelled.writes {tokens : List Token} (spelled : Spelled tokens) :
    Writes tokens (tokens.flatMap Token.spelling) := by
  induction tokens with
  | nil => exact .nil (List.forall_mem_nil _)
  | cons token rest ih =>
      obtain ⟨written, others⟩ := List.forall_mem_cons.1 spelled
      exact .token written (ih others)

/-- The compact text is a text of the value. -/
theorem writes_compact {value : Json} (spellable : value.Spellable) :
    Writes value.tokens value.compact.toList := by
  rw [compact, String.toList_ofList]
  exact Spelled.writes spellable

theorem blank_newLine (depth : Nat) : Blank (newLine depth) := by
  refine List.forall_mem_cons.2 ⟨rfl, fun c among => ?_⟩
  rw [List.eq_of_mem_replicate among]
  rfl

/-- A mark, a new line and what follows there. -/
theorem Writes.mark {c : Char} (token : Token) (means : punctuation? c = some token) (depth : Nat)
    {tokens : List Token} {text : List Char} (later : Writes tokens text) :
    Writes (token :: tokens) (c :: (newLine depth ++ text)) :=
  .token (.mark means) (.blank (blank_newLine depth) later)

theorem Writes.member {key : Option String} {tokens : List Token} {text : List Char}
    (written : (Token.scalar (.string key)).Written (Scalar.string key).spelling)
    (later : Writes tokens text) :
    Writes (.scalar (.string key) :: .colon :: tokens)
      ((Scalar.string key).spelling ++ (':' :: ' ' :: text)) :=
  have blank : Blank [' '] := by decide
  .token written (.token (.mark rfl) (.blank blank later))

mutual

theorem writes_spread {rest : List Token} {text : List Char} (later : Writes rest text)
    (depth : Nat) : ∀ {value : Json}, value.Spellable →
      Writes (value.tokens ++ rest) (value.spread depth ++ text)
  | .scalar value, spellable => .token (spellable _ (List.mem_singleton.2 rfl)) later
  | .array [], _ => by
      have closed := Writes.token (.mark (c := ']') rfl) later
      simpa [tokens, spread] using Writes.token (.mark (c := '[') rfl) closed
  | .array (item :: items), spellable => by
      obtain ⟨first, others⟩ := List.forall_mem_cons.1 (spellable_array.1 spellable)
      have items := writes_spread (writes_spreadItems later depth others) (depth + 1) first
      simpa [tokens, spread] using items.mark .beginArray rfl (depth + 1)
  | .object [], _ => by
      have closed := Writes.token (.mark (c := '\x7d') rfl) later
      simpa [tokens, spread] using Writes.token (.mark (c := '\x7b') rfl) closed
  | .object ((key, value) :: members), spellable => by
      obtain ⟨⟨named, first⟩, others⟩ := List.forall_mem_cons.1 (spellable_object.1 spellable)
      have values := writes_spread (writes_spreadMembers later depth others) (depth + 1) first
      simpa [tokens, spread] using
        (values.member named).mark .beginObject rfl (depth + 1)

theorem writes_spreadItems {rest : List Token} {text : List Char} (later : Writes rest text)
    (depth : Nat) : ∀ {items : List Json}, (∀ item ∈ items, item.Spellable) →
      Writes (itemTokens items ++ rest) (spreadItems depth items ++ text)
  | [], _ => by
      simpa [itemTokens, spreadItems] using
        Writes.blank (blank_newLine depth) (.token (.mark (c := ']') rfl) later)
  | item :: items, each => by
      obtain ⟨first, others⟩ := List.forall_mem_cons.1 each
      have items := writes_spread (writes_spreadItems later depth others) (depth + 1) first
      simpa [itemTokens, spreadItems] using items.mark .comma rfl (depth + 1)

theorem writes_spreadMembers {rest : List Token} {text : List Char} (later : Writes rest text)
    (depth : Nat) : ∀ {members : List Member}, (∀ held ∈ members, SpellableMember held) →
      Writes (memberTokens members ++ rest) (spreadMembers depth members ++ text)
  | [], _ => by
      simpa [memberTokens, spreadMembers] using
        Writes.blank (blank_newLine depth) (.token (.mark (c := '\x7d') rfl) later)
  | (key, value) :: members, each => by
      obtain ⟨⟨named, first⟩, others⟩ := List.forall_mem_cons.1 each
      have values := writes_spread (writes_spreadMembers later depth others) (depth + 1) first
      simpa [memberTokens, spreadMembers] using
        (values.member named).mark .comma rfl (depth + 1)

end

/-- The text spread over lines is a text of the value. -/
theorem writes_pretty {value : Json} (spellable : value.Spellable) :
    Writes value.tokens value.pretty.toList := by
  have writes := writes_spread (.nil (List.forall_mem_nil _)) 0 spellable
  rwa [List.append_nil, List.append_nil, ← String.toList_ofList (l := spread 0 value),
    ← pretty] at writes

/-- Reading undoes writing without blanks. -/
theorem parse?_compact {value : Json} (spellable : value.Spellable) :
    parse? value.compact = some value :=
  parse?_writes (writes_compact spellable)

/-- Reading undoes writing over several lines. -/
theorem parse?_pretty {value : Json} (spellable : value.Spellable) :
    parse? value.pretty = some value :=
  parse?_writes (writes_pretty spellable)

/-- Values that can be written differ in their compact texts. -/
theorem compact_inj {first second : Json} (spellable : first.Spellable)
    (others : second.Spellable) : first.compact = second.compact ↔ first = second := by
  refine ⟨fun same => ?_, congrArg compact⟩
  have read := parse?_compact spellable
  rw [same, parse?_compact others] at read
  exact (Option.some.inj read).symm

end Rejoin.Json
