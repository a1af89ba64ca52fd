import Mathlib.Data.List.Chain
import Rejoin.Json.Scan

/-!
# Scanning what is written

`Lexes` is the grammar of texts: the tokens in their order, each in one of its
spellings, with any blanks around them.  `Writes` leaves out the strings that are
no texts because a surrogate stands alone in them.  The scanner reads exactly the
tokens back, as long as no two words stand next to each other.
-/

namespace Rejoin.Json

/-! ## The grammar -/

/-- Four hexadecimal digits of either case write a unit. -/
inductive Codes : List Char → Nat → Prop where
  | digits {first second third fourth : Char} {a b c d : Nat}
      (firstValue : Hexadecimal.value? first = some a)
      (secondValue : Hexadecimal.value? second = some b)
      (thirdValue : Hexadecimal.value? third = some c)
      (fourthValue : Hexadecimal.value? fourth = some d) :
      Codes [first, second, third, fourth] (((a * 16 + b) * 16 + c) * 16 + d)

/--
Characters as they may be written between quotes: each as it stands, or by its
letter after a backslash, or by its code, which takes two units for characters
beyond the first plane.
-/
inductive Quotes : List Char → List Char → Prop where
  | nil : Quotes [] []
  | plain {c : Char} {rest written : List Char} (unquoted : c ≠ '"') (whole : c ≠ '\\')
      (visible : isControl c = false) (later : Quotes rest written) :
      Quotes (c :: rest) (c :: written)
  | letter {c letter : Char} {rest written : List Char} (means : unescape? letter = some c)
      (later : Quotes rest written) : Quotes (c :: rest) ('\\' :: letter :: written)
  | unit {digits : List Char} {code : Nat} {rest written : List Char} (coded : Codes digits code)
      (notHigh : isHighSurrogate code = false) (notLow : isLowSurrogate code = false)
      (later : Quotes rest written) :
      Quotes (Char.ofNat code :: rest) ('\\' :: 'u' :: (digits ++ written))
  | pair {digits others : List Char} {high low : Nat} {rest written : List Char}
      (codedHigh : Codes digits high) (codedLow : Codes others low)
      (isHigh : isHighSurrogate high = true) (isLow : isLowSurrogate low = true)
      (later : Quotes rest written) :
      Quotes (pairedChar high low :: rest)
        ('\\' :: 'u' :: (digits ++ '\\' :: 'u' :: (others ++ written)))

/-- The spellings of a token. -/
inductive Token.Written : Token → List Char → Prop where
  | mark {token : Token} {c : Char} (means : punctuation? c = some token) : Written token [c]
  | word {value : Scalar} {letters : List Char} (means : Scalar.ofWord? letters = some value) :
      Written (.scalar value) letters
  | string {text : String} {written : List Char} (quotes : Quotes text.toList written) :
      Written (.scalar (.string (some text))) ('"' :: (written ++ ['"']))

/-- Letters that are all blank. -/
def Blank (letters : List Char) : Prop :=
  ∀ c ∈ letters, isBlank c = true

instance (letters : List Char) : Decidable (Blank letters) :=
  decidable_of_iff (letters.all isBlank = true) List.all_eq_true

/-- The texts of tokens, with blanks before, between and after them. -/
inductive Writes : List Token → List Char → Prop where
  | nil {blanks : List Char} (blank : Blank blanks) : Writes [] blanks
  | cons {token : Token} {tokens : List Token} {blanks spelling text : List Char}
      (blank : Blank blanks) (written : token.Written spelling) (later : Writes tokens text) :
      Writes (token :: tokens) (blanks ++ (spelling ++ text))

/-- Pieces as they may be written between quotes, where a surrogate may stand alone. -/
inductive Spells : List Piece → List Char → Prop where
  | nil : Spells [] []
  | plain {c : Char} {pieces : List Piece} {written : List Char} (unquoted : c ≠ '"')
      (whole : c ≠ '\\') (visible : isControl c = false) (later : Spells pieces written) :
      Spells (.char c :: pieces) (c :: written)
  | letter {c letter : Char} {pieces : List Piece} {written : List Char}
      (means : unescape? letter = some c) (later : Spells pieces written) :
      Spells (.char c :: pieces) ('\\' :: letter :: written)
  | unit {digits : List Char} {code : Nat} {pieces : List Piece} {written : List Char}
      (coded : Codes digits code) (later : Spells pieces written) :
      Spells (.unit code :: pieces) ('\\' :: 'u' :: (digits ++ written))

/-- The spellings of a token, also of a string that is no text. -/
inductive Token.Lexeme : Token → List Char → Prop where
  | mark {token : Token} {c : Char} (means : punctuation? c = some token) : Lexeme token [c]
  | word {value : Scalar} {letters : List Char} (means : Scalar.ofWord? letters = some value) :
      Lexeme (.scalar value) letters
  | string {pieces : List Piece} {written : List Char} (spells : Spells pieces written) :
      Lexeme (.scalar (.string (textOf? pieces))) ('"' :: (written ++ ['"']))

/-- All texts of tokens. -/
inductive Lexes : List Token → List Char → Prop where
  | nil {blanks : List Char} (blank : Blank blanks) : Lexes [] blanks
  | cons {token : Token} {tokens : List Token} {blanks spelling text : List Char}
      (blank : Blank blanks) (lexeme : token.Lexeme spelling) (later : Lexes tokens text) :
      Lexes (token :: tokens) (blanks ++ (spelling ++ text))

/-- Whether a token is written as a word. -/
def Token.isWord : Token → Bool
  | .scalar (.string _) => false
  | .scalar _ => true
  | _ => false

/-- No two words stand next to each other, where one would run into the other. -/
def Separated (tokens : List Token) : Prop :=
  tokens.IsChain (fun token next => token.isWord = false ∨ next.isWord = false)

/-! ## Letters of words -/

/-- A letter of a word ends no word. -/
def isLetter (c : Char) : Bool :=
  !isBlank c && c != '"' && (punctuation? c).isNone

theorem isLetter_iff {c : Char} :
    isLetter c = true ↔ isBlank c = false ∧ c ≠ '"' ∧ punctuation? c = none := by
  simp [isLetter, and_assoc]

theorem isLetter_of_isDigit {c : Char} (digit : c.isDigit = true) : isLetter c = true := by
  have apart (other : Char) (foreign : other.isDigit = false) : c ≠ other :=
    ne_of_apply_ne Char.isDigit (by rw [digit, foreign]; decide)
  have unmarked : punctuation? c = none := by
    unfold punctuation?
    split <;> first | rfl | exact absurd digit (by decide)
  simp [isLetter, isBlank, unmarked, apart ' ', apart '\t', apart '\n', apart '\x0d', apart '"']

/-- Letters that a word may consist of. -/
def Lettered (letters : List Char) : Prop :=
  ∀ c ∈ letters, isLetter c = true

instance (letters : List Char) : Decidable (Lettered letters) :=
  decidable_of_iff (letters.all isLetter = true) List.all_eq_true

theorem Lettered.append {first second : List Char} (lettered : Lettered first)
    (others : Lettered second) : Lettered (first ++ second) :=
  List.forall_mem_append.2 ⟨lettered, others⟩

theorem Lettered.cons {c : Char} {rest : List Char} (letter : isLetter c = true)
    (others : Lettered rest) : Lettered (c :: rest) :=
  List.forall_mem_cons.2 ⟨letter, others⟩

theorem lettered_of_isDigits {letters : List Char} (digits : isDigits letters = true) :
    Lettered letters := by
  simp only [isDigits, Bool.and_eq_true, List.all_eq_true] at digits
  exact fun c among => isLetter_of_isDigit (digits.2 c among)

theorem lettered_takeWhile (letters : List Char) : Lettered (letters.takeWhile Char.isDigit) :=
  fun c among => isLetter_of_isDigit (List.all_eq_true.1 List.all_takeWhile c among)

theorem lettered_of_isExponent {letters : List Char} (exponent : isExponent letters = true) :
    Lettered letters := by
  have marked {mark : Char} (marks : (mark == 'e' || mark == 'E') = true) :
      isLetter mark = true := by
    obtain rfl | rfl : mark = 'e' ∨ mark = 'E' := by simpa using marks
    all_goals decide
  unfold isExponent at exponent
  split at exponent
  · exact List.forall_mem_nil _
  all_goals
    obtain ⟨marks, digits⟩ := Bool.and_eq_true_iff.1 exponent
  · exact .cons (marked marks) (.cons (by decide) (lettered_of_isDigits digits))
  · exact .cons (marked marks) (.cons (by decide) (lettered_of_isDigits digits))
  · exact .cons (marked marks) (lettered_of_isDigits digits)

theorem lettered_of_isFraction {letters : List Char} (fraction : isFraction letters = true) :
    Lettered letters := by
  unfold isFraction at fraction
  split at fraction
  · next rest =>
      obtain ⟨-, exponent⟩ := Bool.and_eq_true_iff.1 fraction
      have whole := (lettered_takeWhile rest).append (lettered_of_isExponent exponent)
      rw [List.takeWhile_append_dropWhile] at whole
      exact .cons (by decide) whole
  · exact lettered_of_isExponent fraction

theorem lettered_of_isUnsigned {letters : List Char} (unsigned : isUnsigned letters = true) :
    Lettered letters := by
  unfold isUnsigned at unsigned
  split at unsigned
  · cases unsigned
  · exact .cons (by decide) (lettered_of_isFraction unsigned)
  · next digit rest _ =>
      obtain ⟨leads, fraction⟩ := Bool.and_eq_true_iff.1 unsigned
      have whole := (lettered_takeWhile rest).append (lettered_of_isFraction fraction)
      rw [List.takeWhile_append_dropWhile] at whole
      exact .cons (isLetter_of_isDigit leads) whole

theorem lettered_of_isNumeral {letters : List Char} (numeral : isNumeral letters = true) :
    Lettered letters := by
  unfold isNumeral at numeral
  split at numeral
  · exact .cons (by decide) (lettered_of_isUnsigned numeral)
  · exact lettered_of_isUnsigned numeral

theorem ne_nil_of_isNumeral {letters : List Char} (numeral : isNumeral letters = true) :
    letters ≠ [] := by
  rintro rfl
  cases numeral

/-- A word is a run of letters and not empty. -/
theorem Scalar.letters_of_ofWord? {letters : List Char} {value : Scalar}
    (means : Scalar.ofWord? letters = some value) : letters ≠ [] ∧ Lettered letters := by
  unfold Scalar.ofWord? at means
  split at means
  · next named => subst named; exact ⟨by decide, by decide⟩
  split at means
  · next named => subst named; exact ⟨by decide, by decide⟩
  split at means
  · next named => subst named; exact ⟨by decide, by decide⟩
  split at means
  · next numeral => exact ⟨ne_nil_of_isNumeral numeral, lettered_of_isNumeral numeral⟩
  · cases means

/-- No word is a string. -/
theorem Scalar.isWord_of_ofWord? {letters : List Char} {value : Scalar}
    (means : Scalar.ofWord? letters = some value) : (Token.scalar value).isWord = true := by
  unfold Scalar.ofWord? at means
  repeat' split at means
  all_goals cases means <;> rfl

/-! ## Between tokens -/

namespace Scanner

variable {scanner : Scanner} {found : List Token}

/-- Ending the word, if there is one, leaves the scanner between tokens, with these found. -/
def Settles (scanner : Scanner) (found : List Token) : Prop :=
  scanner.endWord? = some ⟨found, .nothing⟩

theorem settles_nothing (found : List Token) : Settles ⟨found, .nothing⟩ found :=
  rfl

theorem Settles.eq_of_nothing (settles : scanner.Settles found)
    (between : scanner.inside = .nothing) : scanner = ⟨found, .nothing⟩ := by
  rw [Settles, endWord?, between] at settles
  exact Option.some.inj settles

/-- A scanner that is inside of no string reads the next character as a plain one. -/
theorem Settles.step?_eq (settles : scanner.Settles found) (c : Char) :
    scanner.step? c = scanner.plain? c := by
  obtain ⟨before, _ | _ | _ | _ | _⟩ := scanner
  · rfl
  · rfl
  all_goals cases settles

theorem Settles.run?_blanks (settles : scanner.Settles found) {blanks : List Char}
    (blank : Blank blanks) :
    ∃ next, scanner.run? blanks = some next ∧ next.Settles found ∧
      (scanner.inside = .nothing → next.inside = .nothing) := by
  induction blanks generalizing scanner with
  | nil => exact ⟨scanner, rfl, settles, id⟩
  | cons c rest ih =>
      obtain ⟨first, others⟩ := List.forall_mem_cons.1 blank
      obtain ⟨next, ran, settled, between⟩ := ih (settles_nothing found) others
      refine ⟨next, ?_, settled, fun _ => between rfl⟩
      rw [run?, settles.step?_eq, plain?, if_pos first, settles, Option.bind_some, ran]

/-- A punctuation character ends a word and is a token. -/
theorem Settles.run?_mark (settles : scanner.Settles found) {c : Char} {token : Token}
    (means : punctuation? c = some token) :
    scanner.run? [c] = some ⟨token :: found, .nothing⟩ := by
  have apart (other : Char) (foreign : punctuation? other = none) : c ≠ other :=
    ne_of_apply_ne punctuation? (by rw [means, foreign]; exact Option.some_ne_none token)
  have visible : isBlank c = false := by
    simp [isBlank, apart ' ' rfl, apart '\t' rfl, apart '\n' rfl, apart '\x0d' rfl]
  rw [Settles] at settles
  simp [run?, Settles.step?_eq settles, plain?, visible, apart '"' rfl, means, settles]

theorem run?_letters (found : List Token) {letters : List Char} (lettered : Lettered letters)
    (before : List Char) :
    Scanner.run? ⟨found, .word before⟩ letters =
      some ⟨found, .word (letters.reverse ++ before)⟩ := by
  induction letters generalizing before with
  | nil => rfl
  | cons c rest ih =>
      obtain ⟨letter, others⟩ := List.forall_mem_cons.1 lettered
      obtain ⟨visible, unquoted, unmarked⟩ := isLetter_iff.1 letter
      simp [run?, step?, plain?, visible, unquoted, unmarked, ih others]

/-- A word between tokens is read whole. -/
theorem run?_word (found : List Token) {letters : List Char} (lettered : Lettered letters)
    (nonempty : letters ≠ []) :
    Scanner.run? ⟨found, .nothing⟩ letters = some ⟨found, .word letters.reverse⟩ := by
  obtain ⟨c, rest, rfl⟩ := List.exists_cons_of_ne_nil nonempty
  obtain ⟨letter, others⟩ := List.forall_mem_cons.1 lettered
  obtain ⟨visible, unquoted, unmarked⟩ := isLetter_iff.1 letter
  simp [run?, step?, plain?, visible, unquoted, unmarked, run?_letters found others]

end Scanner

/-! ## Between quotes -/

/-- A unit that is no surrogate is a character whatever follows it. -/
theorem spelled?_unit {unit : Nat} (notHigh : isHighSurrogate unit = false)
    (notLow : isLowSurrogate unit = false) (rest : List Piece) :
    spelled? (.unit unit :: rest) = (spelled? rest).map (Char.ofNat unit :: ·) := by
  obtain _ | ⟨_ | _, _⟩ := rest <;> simp [spelled?, notHigh, notLow]

theorem spelled?_pair {high low : Nat} (isHigh : isHighSurrogate high = true)
    (isLow : isLowSurrogate low = true) (rest : List Piece) :
    spelled? (.unit high :: .unit low :: rest) =
      (spelled? rest).map (pairedChar high low :: ·) := by
  simp [spelled?, isHigh, isLow]

/-- What is written for a text are pieces that spell it. -/
theorem Quotes.exists_spells {text written : List Char} (quotes : Quotes text written) :
    ∃ pieces, Spells pieces written ∧ spelled? pieces = some text := by
  induction quotes with
  | nil => exact ⟨[], .nil, rfl⟩
  | @plain c _ _ unquoted whole visible _ ih =>
      obtain ⟨pieces, spells, same⟩ := ih
      exact ⟨.char c :: pieces, .plain unquoted whole visible spells, by simp [spelled?, same]⟩
  | @letter c _ _ _ means _ ih =>
      obtain ⟨pieces, spells, same⟩ := ih
      exact ⟨.char c :: pieces, .letter means spells, by simp [spelled?, same]⟩
  | unit coded notHigh notLow _ ih =>
      obtain ⟨pieces, spells, same⟩ := ih
      exact ⟨_, .unit coded spells, by rw [spelled?_unit notHigh notLow, same]; rfl⟩
  | pair codedHigh codedLow isHigh isLow _ ih =>
      obtain ⟨pieces, spells, same⟩ := ih
      exact ⟨_, .unit codedHigh (.unit codedLow spells),
        by rw [spelled?_pair isHigh isLow, same]; rfl⟩

theorem Token.Written.lexeme {token : Token} {spelling : List Char}
    (written : token.Written spelling) : token.Lexeme spelling := by
  cases written with
  | mark means => exact .mark means
  | word means => exact .word means
  | @string text _ quotes =>
      obtain ⟨pieces, spells, same⟩ := quotes.exists_spells
      have texts : textOf? pieces = some text := by simp [textOf?, same]
      rw [← texts]
      exact .string spells

theorem Writes.lexes {tokens : List Token} {text : List Char} (writes : Writes tokens text) :
    Lexes tokens text := by
  induction writes with
  | nil blank => exact .nil blank
  | cons blank written _ ih => exact .cons blank written.lexeme ih

namespace Scanner

theorem run?_unit (found : List Token) (pieces : List Piece) {digits : List Char} {code : Nat}
    (coded : Codes digits code) (rest : List Char) :
    Scanner.run? ⟨found, .quotes pieces⟩ ('\\' :: 'u' :: (digits ++ rest)) =
      Scanner.run? ⟨found, .quotes (.unit code :: pieces)⟩ rest := by
  obtain ⟨first, second, third, fourth⟩ := coded
  simp [run?, step?, first, second, third, fourth]

/-- What is written between quotes is read as its pieces. -/
theorem run?_spells {pieces : List Piece} {written : List Char} (spells : Spells pieces written)
    (found : List Token) (before : List Piece) (rest : List Char) :
    Scanner.run? ⟨found, .quotes before⟩ (written ++ rest) =
      Scanner.run? ⟨found, .quotes (pieces.reverse ++ before)⟩ rest := by
  induction spells generalizing before with
  | nil => rfl
  | plain unquoted whole visible _ ih => simp [run?, step?, unquoted, whole, visible, ih]
  | @letter c letter _ _ means _ ih =>
      have named : letter ≠ 'u' := by
        rintro rfl
        cases means
      simp [run?, step?, named, means, ih]
  | unit coded _ ih =>
      rw [List.cons_append, List.cons_append, List.append_assoc, run?_unit found before coded, ih,
        List.reverse_cons, List.append_assoc, List.singleton_append]

/-- A quoted string ends a word and is a token. -/
theorem Settles.run?_string {scanner : Scanner} {found : List Token}
    (settles : scanner.Settles found) {pieces : List Piece} {written : List Char}
    (spells : Spells pieces written) :
    scanner.run? ('"' :: (written ++ ['"'])) =
      some ⟨.scalar (.string (textOf? pieces)) :: found, .nothing⟩ := by
  have opened : scanner.step? '"' = some ⟨found, .quotes []⟩ := by
    rw [settles.step?_eq, plain?, if_neg (by decide), if_pos rfl, settles, Option.map_some]
  rw [run?, opened, Option.bind_some, run?_spells spells]
  simp [run?, step?]

/-! ## Whole texts -/

/-- A token is read in each of its spellings; a word must not continue another one. -/
theorem Settles.run?_token {scanner : Scanner} {found : List Token}
    (settles : scanner.Settles found) {token : Token} {spelling : List Char}
    (lexeme : token.Lexeme spelling)
    (apart : scanner.inside = .nothing ∨ token.isWord = false) :
    ∃ next, scanner.run? spelling = some next ∧ next.Settles (token :: found) ∧
      (token.isWord = false → next.inside = .nothing) := by
  cases lexeme with
  | mark means =>
      exact ⟨_, settles.run?_mark means, settles_nothing _, fun _ => rfl⟩
  | word means =>
      have isWord := Scalar.isWord_of_ofWord? means
      obtain ⟨nonempty, lettered⟩ := Scalar.letters_of_ofWord? means
      have between : scanner.inside = .nothing :=
        apart.resolve_right fun other => absurd (isWord.symm.trans other) (by decide)
      rw [settles.eq_of_nothing between]
      refine ⟨_, run?_word found lettered nonempty, ?_, fun other => ?_⟩
      · simp [Settles, endWord?, means]
      · exact absurd (isWord.symm.trans other) (by decide)
  | string spells =>
      exact ⟨_, settles.run?_string spells, settles_nothing _, fun _ => rfl⟩

/-- Reading a text of tokens leaves the scanner with these tokens, in reverse. -/
theorem Settles.run?_lexes {tokens : List Token} {text : List Char} (lexes : Lexes tokens text)
    (separated : Separated tokens) {scanner : Scanner} {found : List Token}
    (settles : scanner.Settles found)
    (apart : scanner.inside = .nothing ∨ ∀ token ∈ tokens.head?, token.isWord = false) :
    ∃ last, scanner.run? text = some last ∧ last.Settles (tokens.reverse ++ found) := by
  -- Between two tokens the scanner may still be inside of a word, so the invariant is that it
  -- settles, and that a word comes next only if it is inside of nothing.
  induction lexes generalizing scanner found with
  | nil blank =>
      obtain ⟨last, ran, settled, _⟩ := settles.run?_blanks blank
      exact ⟨last, ran, settled⟩
  | @cons token tokens blanks spelling text blank lexeme _ ih =>
      obtain ⟨next, ranBlanks, settledNext, between⟩ := settles.run?_blanks blank
      obtain ⟨after, ranToken, settledAfter, betweenAfter⟩ :=
        settledNext.run?_token lexeme (apart.imp between fun first => first token rfl)
      obtain ⟨follows, others⟩ := List.isChain_cons.1 separated
      have apartAfter : after.inside = .nothing ∨ ∀ next ∈ tokens.head?, next.isWord = false := by
        cases word : token.isWord with
        | false => exact .inl (betweenAfter word)
        | true => exact .inr fun next first => (follows next first).resolve_left (by simp [word])
      obtain ⟨last, ran, settled⟩ := ih others settledAfter apartAfter
      refine ⟨last, ?_, by simpa using settled⟩
      rw [run?_append, ranBlanks, Option.bind_some, run?_append, ranToken, Option.bind_some, ran]

end Scanner

/-- The tokens of a text are the ones it was written from. -/
theorem scan?_lexes {tokens : List Token} {text : List Char} (lexes : Lexes tokens text)
    (separated : Separated tokens) : scan? text = some tokens := by
  obtain ⟨last, ran, settled⟩ :=
    Scanner.Settles.run?_lexes lexes separated (Scanner.settles_nothing []) (.inl rfl)
  rw [Scanner.Settles, List.append_nil] at settled
  rw [scan?, Scanner.start, ran, Option.bind_some, settled, Option.map_some, List.reverse_reverse]

end Rejoin.Json
