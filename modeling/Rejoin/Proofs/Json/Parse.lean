import Rejoin.Json.Text
import Rejoin.Proofs.Json.Scan
import Rejoin.Proofs.Json.Text

/-!
# What is read is what is written

`parse?` accepts the texts of the grammar and no others: a text is read as a
value exactly when it is a text of the value's tokens (`parse?_eq_some_iff`).
For scanner and reader alike, a relation tells which input has brought it into a
state, and one more character or token preserves it.
-/

namespace Rejoin.Json

/-! ## Texts one after the other -/

theorem Spells.append {pieces others : List Piece} {written later : List Char}
    (spells : Spells pieces written) (follows : Spells others later) :
    Spells (pieces ++ others) (written ++ later) := by
  induction spells with
  | nil => exact follows
  | plain unquoted whole visible _ ih => exact .plain unquoted whole visible ih
  | letter means _ ih => exact .letter means ih
  | unit coded _ ih => simpa using Spells.unit coded ih

/-- Blanks may stand before any text. -/
theorem Lexes.blank {blanks : List Char} (blank : Blank blanks) {tokens : List Token}
    {text : List Char} (lexes : Lexes tokens text) : Lexes tokens (blanks ++ text) := by
  cases lexes with
  | nil others => exact .nil (List.forall_mem_append.2 ⟨blank, others⟩)
  | cons others lexeme later =>
      rw [← List.append_assoc]
      exact .cons (List.forall_mem_append.2 ⟨blank, others⟩) lexeme later

theorem Lexes.append {tokens others : List Token} {text later : List Char}
    (lexes : Lexes tokens text) (follows : Lexes others later) :
    Lexes (tokens ++ others) (text ++ later) := by
  induction lexes with
  | nil blank => exact follows.blank blank
  | cons blank lexeme _ ih => simpa using Lexes.cons blank lexeme ih

theorem lexes_empty : Lexes [] [] :=
  .nil (List.forall_mem_nil _)

/-- A token in one of its spellings may end a text. -/
theorem Lexes.snoc {tokens : List Token} {text : List Char} (lexes : Lexes tokens text)
    {token : Token} {spelling : List Char} (lexeme : token.Lexeme spelling) :
    Lexes (tokens ++ [token]) (text ++ spelling) := by
  simpa using lexes.append (.cons (List.forall_mem_nil _ : Blank []) lexeme lexes_empty)

/-- Only blanks are a text of no token. -/
theorem Lexes.blank_of_nil {text : List Char} (lexes : Lexes [] text) : Blank text := by
  cases lexes with
  | nil blank => exact blank

/-! ## The scanner -/

/-- Hexadecimal digits, latest first, and the number they have written so far. -/
inductive Digits : List Char → Nat → Prop where
  | nil : Digits [] 0
  | cons {digits : List Char} {value digit : Nat} {c : Char} (earlier : Digits digits value)
      (means : Hexadecimal.value? c = some digit) : Digits (c :: digits) (value * 16 + digit)

theorem Digits.codes {digits : List Char} {value : Nat} (written : Digits digits value)
    (complete : digits.length = 4) : Codes digits.reverse value := by
  obtain _ | ⟨_ | ⟨_ | ⟨_ | ⟨_ | _, first⟩, second⟩, third⟩, fourth⟩ := written
  all_goals simp at complete
  simpa using Codes.digits first second third fourth

namespace Scanner

/--
The state that a text leads to from between tokens, with the tokens `before`
found already: the text of further tokens, and what has begun after them.
-/
inductive After (before : List Token) : List Char → Scanner → Prop where
  | nothing {tokens : List Token} {text : List Char} (lexes : Lexes tokens text) :
      After before text ⟨tokens.reverse ++ before, .nothing⟩
  | word {tokens : List Token} {text : List Char} (lexes : Lexes tokens text)
      (letters : List Char) :
      After before (text ++ letters.reverse) ⟨tokens.reverse ++ before, .word letters⟩
  | quotes {tokens : List Token} {text written : List Char} {pieces : List Piece}
      (lexes : Lexes tokens text) (spells : Spells pieces written) :
      After before (text ++ '"' :: written) ⟨tokens.reverse ++ before, .quotes pieces.reverse⟩
  | escape {tokens : List Token} {text written : List Char} {pieces : List Piece}
      (lexes : Lexes tokens text) (spells : Spells pieces written) :
      After before (text ++ '"' :: (written ++ ['\\']))
        ⟨tokens.reverse ++ before, .escape pieces.reverse⟩
  | unit {tokens : List Token} {text written digits : List Char} {pieces : List Piece}
      {value : Nat} (lexes : Lexes tokens text) (spells : Spells pieces written)
      (incomplete : digits.length < 4) (coded : Digits digits value) :
      After before (text ++ '"' :: (written ++ '\\' :: 'u' :: digits.reverse))
        ⟨tokens.reverse ++ before, .unit pieces.reverse digits.length value⟩

variable {before : List Token} {text : List Char} {scanner next : Scanner}

/-- Where a word may end, the text so far is one of whole tokens. -/
theorem After.endWord? (after : After before text scanner) (ended : scanner.endWord? = some next) :
    ∃ tokens, next = ⟨tokens.reverse ++ before, .nothing⟩ ∧ Lexes tokens text := by
  cases after with
  | @nothing tokens _ lexes =>
      rw [Scanner.endWord?, Option.some.injEq] at ended
      exact ⟨tokens, ended.symm, lexes⟩
  | @word tokens text lexes letters =>
      obtain ⟨value, means, rfl⟩ := Option.map_eq_some_iff.1 ended
      exact ⟨tokens ++ [.scalar value], by simp, lexes.snoc (.word means)⟩
  | quotes lexes spells => cases ended
  | escape lexes spells => cases ended
  | unit lexes spells incomplete coded => cases ended

theorem After.plain? (after : After before text scanner)
    (between : scanner.inside = .nothing ∨ ∃ letters, scanner.inside = .word letters) {c : Char}
    (stepped : scanner.plain? c = some next) : After before (text ++ [c]) next := by
  unfold Scanner.plain? at stepped
  split at stepped
  · next blank =>
      obtain ⟨tokens, rfl, lexes⟩ := after.endWord? stepped
      have blanks : Lexes [] [c] := .nil (List.forall_mem_singleton.2 blank)
      exact .nothing (by simpa using lexes.append blanks)
  split at stepped
  · next quote =>
      obtain ⟨ended, ends, rfl⟩ := Option.map_eq_some_iff.1 stepped
      obtain ⟨tokens, rfl, lexes⟩ := after.endWord? ends
      rw [quote]
      exact .quotes lexes .nil
  split at stepped
  · next token means =>
      obtain ⟨ended, ends, rfl⟩ := Option.map_eq_some_iff.1 stepped
      obtain ⟨tokens, rfl, lexes⟩ := after.endWord? ends
      have marked : After before _ _ := .nothing (lexes.snoc (.mark means))
      rwa [List.reverse_append] at marked
  -- Any other character starts a word or continues one.
  · cases after with
    | nothing lexes =>
        obtain rfl := Option.some.inj stepped
        exact .word lexes [c]
    | word lexes letters =>
        obtain rfl := Option.some.inj stepped
        have longer : After before _ _ := .word lexes (c :: letters)
        rwa [List.reverse_cons, ← List.append_assoc] at longer
    | quotes lexes spells => simp at between
    | escape lexes spells => simp at between
    | unit lexes spells incomplete coded => simp at between

/-- One more character leads to the next state. -/
theorem After.step? (after : After before text scanner) {c : Char}
    (stepped : scanner.step? c = some next) : After before (text ++ [c]) next := by
  cases after with
  | nothing lexes => exact (After.nothing lexes).plain? (.inl rfl) stepped
  | word lexes letters => exact (After.word lexes letters).plain? (.inr ⟨letters, rfl⟩) stepped
  | @quotes tokens text written pieces lexes spells =>
      simp only [Scanner.step?, List.reverse_reverse] at stepped
      split at stepped
      · next quote =>
          obtain rfl := Option.some.inj stepped
          have closed : After before _ _ := .nothing (lexes.snoc (.string spells))
          rw [quote]
          simpa using closed
      split at stepped
      · next backslash =>
          obtain rfl := Option.some.inj stepped
          rw [backslash]
          have opened : After before _ _ := .escape lexes spells
          simpa using opened
      split at stepped
      · cases stepped
      · next unquoted whole visible =>
          obtain rfl := Option.some.inj stepped
          have longer := spells.append (.plain unquoted whole (by simpa using visible) .nil)
          have quoted : After before _ _ := .quotes lexes longer
          simpa using quoted
  | @escape tokens text written pieces lexes spells =>
      simp only [Scanner.step?] at stepped
      split at stepped
      · next named =>
          obtain rfl := Option.some.inj stepped
          rw [named]
          have opened : After before _ _ := .unit lexes spells (by simp) .nil
          simpa using opened
      · obtain ⟨meant, means, rfl⟩ := Option.map_eq_some_iff.1 stepped
        have longer := spells.append (.letter means .nil)
        have quoted : After before _ _ := .quotes lexes longer
        simpa using quoted
  | @unit tokens text written digits pieces value lexes spells incomplete coded =>
      obtain ⟨digit, means, rfl⟩ := Option.map_eq_some_iff.1 stepped
      have longer := coded.cons means
      split
      · next incomplete =>
          have coded : After before _ _ := .unit lexes spells (by simp; omega) longer
          simpa using coded
      · next complete =>
          have unit := longer.codes (by simp; omega)
          have quoted : After before _ _ := .quotes lexes (spells.append (.unit unit .nil))
          simpa using quoted

/-- So does a whole text. -/
theorem After.run? (after : After before text scanner) {later : List Char}
    (ran : scanner.run? later = some next) : After before (text ++ later) next := by
  induction later generalizing text scanner with
  | nil =>
      obtain rfl := Option.some.inj ran
      rwa [List.append_nil]
  | cons c rest ih =>
      obtain ⟨following, stepped, rest⟩ := Option.bind_eq_some_iff.1 ran
      simpa using ih (after.step? stepped) rest

end Scanner

/-- The scanner reads nothing but texts of the tokens it finds. -/
theorem lexes_of_scan? {tokens : List Token} {text : List Char}
    (scanned : scan? text = some tokens) : Lexes tokens text := by
  obtain ⟨ended, ends, rfl⟩ := Option.map_eq_some_iff.1 scanned
  obtain ⟨last, ran, ends⟩ := Option.bind_eq_some_iff.1 ends
  have after : Scanner.After [] text last := Scanner.After.run? (.nothing lexes_empty) ran
  obtain ⟨tokens, rfl, lexes⟩ := after.endWord? ends
  simpa using lexes

/-! ## The reader -/

/-- The tokens of a member. -/
def Member.tokens (member : Member) : List Token :=
  .scalar (.string member.1) :: .colon :: member.2.tokens

/-- The tokens of items that others follow. -/
def itemsAhead (items : List Json) : List Token :=
  items.flatMap (fun item => item.tokens ++ [.comma])

/-- The tokens of members that others follow. -/
def membersAhead (members : List Member) : List Token :=
  members.flatMap (fun member => Member.tokens member ++ [.comma])

/-- The tokens that lead into the value that an open array or object waits for. -/
def Frame.tokens : Frame → List Token
  | .array items => .beginArray :: itemsAhead items.reverse
  | .object members key =>
      .beginObject :: (membersAhead members.reverse ++ [.scalar (.string key), .colon])

/-- The tokens that lead into the innermost open array or object. -/
def opened : List Frame → List Token
  | [] => []
  | frame :: stack => opened stack ++ frame.tokens

theorem itemTokens_concat (items : List Json) (last : Json) :
    itemTokens (items ++ [last]) =
      .comma :: (itemsAhead items ++ last.tokens ++ [.endArray]) := by
  induction items with
  | nil => simp [itemTokens, itemsAhead]
  | cons item items ih => simp [itemTokens, itemsAhead, ih]

/-- The last item of an array is followed by the closing bracket. -/
theorem tokens_array_concat (items : List Json) (last : Json) :
    (array (items ++ [last])).tokens =
      .beginArray :: (itemsAhead items ++ last.tokens ++ [.endArray]) := by
  cases items with
  | nil => simp [tokens, itemTokens, itemsAhead]
  | cons item items => simp [tokens, itemTokens_concat, itemsAhead]

theorem memberTokens_concat (members : List Member) (last : Member) :
    memberTokens (members ++ [last]) =
      .comma :: (membersAhead members ++ Member.tokens last ++ [.endObject]) := by
  induction members with
  | nil => simp [memberTokens, membersAhead, Member.tokens]
  | cons held members ih => simp [memberTokens, membersAhead, Member.tokens, ih]

theorem tokens_object_concat (members : List Member) (last : Member) :
    (object (members ++ [last])).tokens =
      .beginObject :: (membersAhead members ++ Member.tokens last ++ [.endObject]) := by
  cases members with
  | nil => simp [tokens, memberTokens, membersAhead, Member.tokens]
  | cons held members => simp [tokens, memberTokens_concat, membersAhead, Member.tokens]

namespace Reader

/-- The state that tokens lead to from the start. -/
inductive After : List Token → Reader → Prop where
  | atValue (stack : List Frame) : After (opened stack) (.atValue stack)
  | atFirstItem (stack : List Frame) : After (opened stack ++ [.beginArray]) (.atFirstItem stack)
  | atFirstKey (stack : List Frame) : After (opened stack ++ [.beginObject]) (.atFirstKey stack)
  | atKey (stack : List Frame) (members : List Member) :
      After (opened stack ++ .beginObject :: membersAhead members.reverse) (.atKey stack members)
  | atColon (stack : List Frame) (members : List Member) (key : Option String) :
      After
        (opened stack ++ .beginObject :: (membersAhead members.reverse ++ [.scalar (.string key)]))
        (.atColon stack members key)
  | delivered (value : Json) (stack : List Frame) :
      After (opened stack ++ value.tokens) (deliver value stack)

variable {input : List Token} {reader next : Reader} {token : Token}

theorem after_begin? {stack : List Frame} (begun : begin? stack token = some next) :
    After (opened stack ++ [token]) next := by
  cases token with
  | scalar value =>
      obtain rfl := Option.some.inj begun
      have delivered := After.delivered (.scalar value) stack
      rwa [tokens] at delivered
  | beginArray =>
      obtain rfl := Option.some.inj begun
      exact .atFirstItem stack
  | beginObject =>
      obtain rfl := Option.some.inj begun
      exact .atFirstKey stack
  | endArray => cases begun
  | endObject => cases begun
  | colon => cases begun
  | comma => cases begun

theorem step?_atFirstItem {stack : List Frame} (more : token ≠ .endArray) :
    (atFirstItem stack).step? token = begin? (.array [] :: stack) token := by
  cases token with
  | endArray => exact absurd rfl more
  | _ => rfl

/-- What may follow a finished value depends on what is open around it. -/
theorem after_deliver {value : Json} {stack : List Frame}
    (stepped : (deliver value stack).step? token = some next) :
    After (opened stack ++ value.tokens ++ [token]) next := by
  match stack, token with
  | [], _ => cases stepped
  | .array items :: stack, .comma =>
      obtain rfl := Option.some.inj stepped
      simpa [opened, Frame.tokens, itemsAhead] using
        After.atValue (.array (value :: items) :: stack)
  | .array items :: stack, .endArray =>
      obtain rfl := Option.some.inj stepped
      have closed := After.delivered (.array (value :: items).reverse) stack
      rw [List.reverse_cons, tokens_array_concat] at closed
      simpa [opened, Frame.tokens] using closed
  | .object members key :: stack, .comma =>
      obtain rfl := Option.some.inj stepped
      simpa [opened, Frame.tokens, membersAhead, Member.tokens] using
        After.atKey stack ((key, value) :: members)
  | .object members key :: stack, .endObject =>
      obtain rfl := Option.some.inj stepped
      have closed := After.delivered (.object ((key, value) :: members).reverse) stack
      rw [List.reverse_cons, tokens_object_concat] at closed
      simpa [opened, Frame.tokens, Member.tokens] using closed

/-- One more token leads to the next state. -/
theorem After.step? (after : After input reader) (stepped : reader.step? token = some next) :
    After (input ++ [token]) next := by
  cases after with
  | atValue stack => exact after_begin? stepped
  | atFirstItem stack =>
      by_cases closes : token = .endArray
      · subst closes
        obtain rfl := Option.some.inj stepped
        simpa [tokens] using After.delivered (.array []) stack
      · rw [step?_atFirstItem closes] at stepped
        simpa [opened, Frame.tokens, itemsAhead] using after_begin? stepped
  | atFirstKey stack =>
      match token with
      | .scalar (.string key) =>
          obtain rfl := Option.some.inj stepped
          simpa [membersAhead] using After.atColon stack [] key
      | .endObject =>
          obtain rfl := Option.some.inj stepped
          simpa [tokens] using After.delivered (.object []) stack
  | atKey stack members =>
      match token with
      | .scalar (.string key) =>
          obtain rfl := Option.some.inj stepped
          simpa using After.atColon stack members key
  | atColon stack members key =>
      match token with
      | .colon =>
          obtain rfl := Option.some.inj stepped
          simpa [opened, Frame.tokens] using After.atValue (.object members key :: stack)
  | delivered value stack => exact after_deliver stepped

/-- So do all tokens of an input. -/
theorem After.run? (after : After input reader) {later : List Token}
    (ran : reader.run? later = some next) : After (input ++ later) next := by
  induction later generalizing input reader with
  | nil =>
      obtain rfl := Option.some.inj ran
      rwa [List.append_nil]
  | cons token rest ih =>
      obtain ⟨following, stepped, rest⟩ := Option.bind_eq_some_iff.1 ran
      simpa using ih (after.step? stepped) rest

/-- Once a value is complete, nothing was read but its tokens. -/
theorem After.eq_tokens {value : Json} (after : After input (.done value)) :
    input = value.tokens := by
  generalize ended : Reader.done value = reader at after
  -- Only a value with nothing open around it is complete.
  cases after with
  | delivered held stack =>
      match stack with
      | [] =>
          obtain rfl := Reader.done.inj ended
          rfl
      | .array _ :: _ => cases ended
      | .object _ _ :: _ => cases ended
  | _ => cases ended

end Reader

/-- The tokens of a value are read as it, and no others are. -/
theorem ofTokens?_eq_some_iff {input : List Token} {value : Json} :
    ofTokens? input = some value ↔ input = value.tokens := by
  refine ⟨fun read => ?_, fun same => same ▸ ofTokens?_tokens value⟩
  obtain ⟨last, ran, result⟩ := Option.bind_eq_some_iff.1 read
  have after : Reader.After input last := Reader.After.run? (.atValue []) ran
  cases last with
  | done held =>
      obtain rfl := Option.some.inj result
      exact after.eq_tokens
  | _ => cases result

/-! ## Whole texts -/

/-- A text is read as a value if and only if it is a text of the value's tokens. -/
theorem parse?_eq_some_iff {text : String} {value : Json} :
    parse? text = some value ↔ Lexes value.tokens text.toList := by
  refine ⟨fun read => ?_, parse?_lexes⟩
  obtain ⟨tokens, scanned, read⟩ := Option.bind_eq_some_iff.1 read
  obtain rfl := ofTokens?_eq_some_iff.1 read
  exact lexes_of_scan? scanned

/-- No value's tokens are the beginning of another's. -/
theorem eq_nil_of_tokens_append {value other : Json} {rest : List Token}
    (same : value.tokens ++ rest = other.tokens) : rest = [] := by
  have read := ofTokens?_tokens other
  rw [← same, ofTokens?, Reader.run?_tokens] at read
  cases rest with
  | nil => rfl
  | cons token rest => cases read

/-- An array or object ends with a bracket. -/
theorem exists_tokens_eq_concat {value : Json} (closed : ∀ held, value ≠ .scalar held) :
    ∃ front mark, value.tokens = front ++ [mark] ∧ ∀ held, mark ≠ .scalar held := by
  cases value with
  | scalar held => exact absurd rfl (closed held)
  | array items =>
      obtain rfl | ⟨before, last, rfl⟩ := items.eq_nil_or_concat'
      · exact ⟨[.beginArray], .endArray, by simp [tokens], by simp⟩
      · exact ⟨_ :: _, .endArray, tokens_array_concat before last, by simp⟩
  | object members =>
      obtain rfl | ⟨before, last, rfl⟩ := members.eq_nil_or_concat'
      · exact ⟨[.beginObject], .endObject, by simp [tokens], by simp⟩
      · exact ⟨_ :: _, .endObject, tokens_object_concat before last, by simp⟩

/-- After an array or object the scanner is inside of nothing. -/
theorem run?_of_scan? {text : List Char} {front : List Token} {mark : Token}
    (scanned : scan? text = some (front ++ [mark])) (unworded : ∀ held, mark ≠ .scalar held) :
    Scanner.start.run? text = some ⟨mark :: front.reverse, .nothing⟩ := by
  obtain ⟨ended, ends, found⟩ := Option.map_eq_some_iff.1 scanned
  obtain ⟨last, ran, ends⟩ := Option.bind_eq_some_iff.1 ends
  have found : ended.found = mark :: front.reverse := by
    rw [← List.reverse_reverse ended.found, found, List.reverse_append]
    rfl
  rw [ran]
  obtain ⟨before, _ | letters | _ | _ | _⟩ := last
  · obtain rfl := Option.some.inj ends
    rw [← found]
  · obtain ⟨held, -, rfl⟩ := Option.map_eq_some_iff.1 ends
    exact absurd (List.cons.inj found).1.symm (unworded held)
  all_goals cases ends

/-- After an array or object nothing but blanks may follow. -/
theorem parse?_append_eq_none {text tail : String} {value : Json} (read : parse? text = some value)
    (closed : ∀ held, value ≠ .scalar held) (more : ¬ Blank tail.toList) :
    parse? (text ++ tail) = none := by
  obtain ⟨front, mark, split, unworded⟩ := exists_tokens_eq_concat closed
  have scanned : scan? text.toList = some value.tokens := by
    obtain ⟨tokens, scanned, read⟩ := Option.bind_eq_some_iff.1 read
    rwa [ofTokens?_eq_some_iff.1 read] at scanned
  have ran := run?_of_scan? (split ▸ scanned) unworded
  -- The last token of the text is complete, so what follows is scanned as a text of its own.
  refine Option.eq_none_iff_forall_ne_some.2 fun other both => more ?_
  obtain ⟨tokens, scannedBoth, readBoth⟩ := Option.bind_eq_some_iff.1 both
  obtain ⟨ended, ends, found⟩ := Option.map_eq_some_iff.1 scannedBoth
  rw [String.toList_append, Scanner.run?_append, ran, Option.bind_some] at ends
  obtain ⟨last, ranTail, ends⟩ := Option.bind_eq_some_iff.1 ends
  have after : Scanner.After (mark :: front.reverse) tail.toList last :=
    Scanner.After.run? (.nothing lexes_empty) ranTail
  obtain ⟨later, rfl, lexes⟩ := after.endWord? ends
  have whole : value.tokens ++ later = other.tokens := by
    rw [← ofTokens?_eq_some_iff.1 readBoth, ← found, split]
    simp
  rw [eq_nil_of_tokens_append whole] at lexes
  exact lexes.blank_of_nil

end Rejoin.Json
