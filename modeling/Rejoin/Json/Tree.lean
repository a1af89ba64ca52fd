import Rejoin.Json.Basic

/-!
# From tokens to values

The reader takes one token at a time and keeps the arrays and objects that are
still open, so nesting is bounded by nothing but the input.  Reading the tokens
of a value gives the value back, whatever is open around it (`run?_tokens`).
-/

namespace Rejoin.Json

/-- An array or object that is still open, with its finished parts, latest first. -/
inductive Frame where
  | array (items : List Json)
  | object (members : List Member) (key : Option String)

/-- What has been read and what may come next. -/
inductive Reader where
  | atValue (stack : List Frame)
  | atFirstItem (stack : List Frame)
  | atFirstKey (stack : List Frame)
  | atKey (stack : List Frame) (members : List Member)
  | atColon (stack : List Frame) (members : List Member) (key : Option String)
  | afterItem (stack : List Frame) (items : List Json)
  | afterMember (stack : List Frame) (members : List Member)
  | done (value : Json)

namespace Reader

/-- Hands a finished value to the innermost open array or object. -/
def deliver (value : Json) : List Frame → Reader
  | [] => done value
  | .array items :: stack => afterItem stack (value :: items)
  | .object members key :: stack => afterMember stack ((key, value) :: members)

/-- The state after a token that starts a value. -/
def begin? (stack : List Frame) : Token → Option Reader
  | .scalar value => some (deliver (.scalar value) stack)
  | .beginArray => some (atFirstItem stack)
  | .beginObject => some (atFirstKey stack)
  | _ => none

/-- The state after one more token, if the token may stand there. -/
def step? : Reader → Token → Option Reader
  | atValue stack, token => begin? stack token
  | atFirstItem stack, .endArray => some (deliver (.array []) stack)
  | atFirstItem stack, token => begin? (.array [] :: stack) token
  | atFirstKey stack, .scalar (.string key) => some (atColon stack [] key)
  | atFirstKey stack, .endObject => some (deliver (.object []) stack)
  | atKey stack members, .scalar (.string key) => some (atColon stack members key)
  | atColon stack members key, .colon => some (atValue (.object members key :: stack))
  | afterItem stack items, .comma => some (atValue (.array items :: stack))
  | afterItem stack items, .endArray => some (deliver (.array items.reverse) stack)
  | afterMember stack members, .comma => some (atKey stack members)
  | afterMember stack members, .endObject => some (deliver (.object members.reverse) stack)
  | _, _ => none

def run? (reader : Reader) : List Token → Option Reader
  | [] => some reader
  | token :: rest => (reader.step? token).bind (fun next => next.run? rest)

def result? : Reader → Option Json
  | done value => some value
  | _ => none

end Reader

/-- The value whose tokens these are. -/
def ofTokens? (input : List Token) : Option Json :=
  ((Reader.atValue []).run? input).bind Reader.result?

namespace Reader

theorem run?_append (reader : Reader) (first second : List Token) :
    reader.run? (first ++ second) = (reader.run? first).bind (fun next => next.run? second) := by
  induction first generalizing reader with
  | nil => rfl
  | cons token rest ih =>
      simp only [List.cons_append, run?]
      cases reader.step? token with
      | none => rfl
      | some next => exact ih next

/-- No value starts with a closing bracket, so the first item of an array is read like any value. -/
theorem atFirstItem_run?_tokens (stack : List Frame) (rest : List Token) (input : Json) :
    (atFirstItem stack).run? (input.tokens ++ rest) =
      (atValue (.array [] :: stack)).run? (input.tokens ++ rest) := by
  rcases input with held | (_ | ⟨item, items⟩) | (_ | ⟨⟨name, held⟩, members⟩) <;>
    simp [tokens, run?, step?, begin?]

mutual

/-- Reading a value's tokens delivers the value. -/
theorem run?_tokens (stack : List Frame) (rest : List Token) :
    ∀ input : Json, (atValue stack).run? (input.tokens ++ rest) = (deliver input stack).run? rest
  | .scalar held => by simp [tokens, run?, step?, begin?]
  | .array [] => by simp [tokens, run?, step?, begin?]
  | .array (item :: items) => by
      have first := run?_tokens (.array [] :: stack) (itemTokens items ++ rest) item
      have others := run?_itemTokens stack rest [item] items
      simp only [tokens, List.cons_append, run?, step?, begin?, Option.bind_some,
        List.append_assoc, atFirstItem_run?_tokens]
      rw [first]
      simpa [deliver] using others
  | .object [] => by simp [tokens, run?, step?, begin?]
  | .object ((name, held) :: members) => by
      have first := run?_tokens (.object [] name :: stack) (memberTokens members ++ rest) held
      have others := run?_memberTokens stack rest [(name, held)] members
      simp only [tokens, List.cons_append, run?, step?, begin?, Option.bind_some,
        List.append_assoc]
      rw [first]
      simpa [deliver] using others

theorem run?_itemTokens (stack : List Frame) (rest : List Token) (before : List Json) :
    ∀ items : List Json, (afterItem stack before).run? (itemTokens items ++ rest) =
      (deliver (.array (before.reverse ++ items)) stack).run? rest
  | [] => by simp [itemTokens, run?, step?]
  | item :: items => by
      have first := run?_tokens (.array before :: stack) (itemTokens items ++ rest) item
      have others := run?_itemTokens stack rest (item :: before) items
      simp only [itemTokens, List.cons_append, run?, step?, Option.bind_some, List.append_assoc]
      rw [first]
      simpa [deliver] using others

theorem run?_memberTokens (stack : List Frame) (rest : List Token) (before : List Member) :
    ∀ members : List Member, (afterMember stack before).run? (memberTokens members ++ rest) =
      (deliver (.object (before.reverse ++ members)) stack).run? rest
  | [] => by simp [memberTokens, run?, step?]
  | (name, held) :: members => by
      have first := run?_tokens (.object before name :: stack) (memberTokens members ++ rest) held
      have others := run?_memberTokens stack rest ((name, held) :: before) members
      simp only [memberTokens, List.cons_append, run?, step?, Option.bind_some, List.append_assoc]
      rw [first]
      simpa [deliver] using others

end

end Reader

/-- Every value is read back from its tokens. -/
theorem ofTokens?_tokens (input : Json) : ofTokens? input.tokens = some input := by
  have read := Reader.run?_tokens [] [] input
  rw [List.append_nil] at read
  simp [ofTokens?, read, Reader.deliver, Reader.run?, Reader.result?]

end Rejoin.Json
