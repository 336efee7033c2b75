import MomentumChain.Json.Value

/-!
# Reading JSON text

Blanks may stand between the tokens of a text and around it.  A natural number
has no leading zero.  Characters below the blank must not stand in a string.
Escapes of surrogates are joined in pairs, and a string with an unpaired one is
read as a string without a text.

Reading takes a bound on the steps (`fuel`).  Each step consumes a character or
starts a value, so twice the length of the text is enough.
-/

namespace MomentumChain.Json

/-- The text after blanks. -/
def skipBlanks (text : List Char) : List Char :=
  text.dropWhile fun c => c = ' ' || c = '\t' || c = '\n' || c = '\r'

/-! ## Numbers -/

/-- The character is a decimal digit. -/
def isDigit (c : Char) : Bool := '0' ≤ c && c ≤ '9'

/-- The digits at the start of a text and the text after them. -/
def spanDigits (text : List Char) : List Char × List Char :=
  (text.takeWhile isDigit, text.dropWhile isDigit)

/-- The number written by decimal digits. -/
def ofDecimal (ds : List Char) : Nat := ofDigits 10 (ds.map fun c => c.toNat - '0'.toNat)

/-- The text after digits, of which there must be one. -/
def skipDigits (text : List Char) : Option (List Char) :=
  match spanDigits text with
  | ([], _) => none
  | (_ :: _, rest) => some rest

/-- The text after a fraction, and whether there is one. -/
def skipFraction : List Char → Option (Bool × List Char)
  | '.' :: rest => (skipDigits rest).map (true, ·)
  | text => some (false, text)

/-- The text after an exponent, and whether there is one. -/
def skipExponent : List Char → Option (Bool × List Char)
  | c :: rest =>
      if c = 'e' ∨ c = 'E' then
        match rest with
        | '+' :: rest | '-' :: rest => (skipDigits rest).map (true, ·)
        | rest => (skipDigits rest).map (true, ·)
      else some (false, c :: rest)
  | [] => some (false, [])

/-- A number without a sign. -/
def readUnsigned (text : List Char) : Option (Value × List Char) :=
  match spanDigits text with
  | ([], _) => none
  | ('0' :: _ :: _, _) => none
  | (ds, rest) => do
      let (fraction, rest) ← skipFraction rest
      let (exponent, rest) ← skipExponent rest
      pure (if fraction || exponent then .number else .nat (ofDecimal ds), rest)

/-- A number. -/
def readNumber : List Char → Option (Value × List Char)
  | '-' :: rest => (readUnsigned rest).map fun (_, rest) => (.number, rest)
  | text => readUnsigned text

/-! ## Strings -/

/-- A part of a string: a character or the number of an escape. -/
inductive Part where
  | char (c : Char)
  /-- A UTF-16 unit given by its number. -/
  | unit (n : Nat)

/-- The number of four hexadecimal digits and the text after them. -/
def readUnit : List Char → Option (Nat × List Char)
  | a :: b :: c :: d :: rest => do
      let value? (x : Char) : Option Nat :=
        if x.toNat < 128 then Hex.value? (UInt8.ofNat x.toNat) else none
      let ds ← [a, b, c, d].mapM value?
      pure (ofDigits 16 ds, rest)
  | _ => none

/-- The character of an escape of one letter. -/
def unescape? : Char → Option Char
  | '"' => some '"'
  | '\\' => some '\\'
  | '/' => some '/'
  | 'b' => some (Char.ofNat 8)
  | 'f' => some (Char.ofNat 12)
  | 'n' => some '\n'
  | 'r' => some '\r'
  | 't' => some '\t'
  | _ => none

/-- The parts of a string up to its closing quote, and the text after it. -/
def readParts : (fuel : Nat) → List Char → Option (List Part × List Char)
  | 0, _ => none
  | _, [] => none
  | fuel + 1, c :: rest =>
      if c = '"' then some ([], rest)
      else if c = '\\' then
        match rest with
        | 'u' :: rest => do
            let (n, rest) ← readUnit rest
            let (parts, rest) ← readParts fuel rest
            pure (.unit n :: parts, rest)
        | c :: rest => do
            let c ← unescape? c
            let (parts, rest) ← readParts fuel rest
            pure (.char c :: parts, rest)
        | [] => none
      else if c.toNat < 32 then none
      else do
        let (parts, rest) ← readParts fuel rest
        pure (.char c :: parts, rest)

/-- The characters of the parts, if every surrogate is paired. -/
def joinParts : List Part → Option (List Char)
  | [] => some []
  | .char c :: parts => (joinParts parts).map (c :: ·)
  | .unit n :: parts =>
      if n < 0xD800 ∨ 0xE000 ≤ n then (joinParts parts).map (Char.ofNat n :: ·)
      else if 0xDC00 ≤ n then none
      else
        match parts with
        | .unit m :: parts =>
            if 0xDC00 ≤ m ∧ m < 0xE000 then
              (joinParts parts).map
                (Char.ofNat (0x10000 + 0x400 * (n - 0xD800) + (m - 0xDC00)) :: ·)
            else none
        | _ => none

/-- A string after its opening quote. -/
def readString (text : List Char) : Option (Option String × List Char) := do
  let (parts, rest) ← readParts text.length text
  pure ((joinParts parts).map String.ofList, rest)

/-! ## Values -/

/-- The text after an expected start. -/
def skipWord : (word text : List Char) → Option (List Char)
  | [], text => some text
  | c :: word, d :: text => if c = d then skipWord word text else none
  | _ :: _, [] => none

mutual

/-- A value at the start of a text without leading blanks. -/
def readValue : (fuel : Nat) → List Char → Option (Value × List Char)
  | 0, _ => none
  | _, [] => none
  | fuel + 1, c :: rest =>
      if c = '"' then (readString rest).map fun (text, rest) => (.string text, rest)
      else if c = '[' then
        match skipBlanks rest with
        | ']' :: rest => some (.array [], rest)
        | text => (readItems fuel text).map fun (items, rest) => (.array items, rest)
      else if c = '{' then
        match skipBlanks rest with
        | '}' :: rest => some (.object [], rest)
        | text => (readMembers fuel text).map fun (members, rest) => (.object members, rest)
      else if c = 'n' then (skipWord ['u', 'l', 'l'] rest).map (.null, ·)
      else if c = 't' then (skipWord ['r', 'u', 'e'] rest).map (.bool true, ·)
      else if c = 'f' then (skipWord ['a', 'l', 's', 'e'] rest).map (.bool false, ·)
      else readNumber (c :: rest)

/-- The items of a list up to its end.  There is at least one. -/
def readItems : (fuel : Nat) → List Char → Option (List Value × List Char)
  | 0, _ => none
  | fuel + 1, text => do
      let (item, rest) ← readValue fuel text
      match skipBlanks rest with
      | ']' :: rest => pure ([item], rest)
      | ',' :: rest => do
          let (items, rest) ← readItems fuel (skipBlanks rest)
          pure (item :: items, rest)
      | _ => none

/-- The members of an object up to its end.  There is at least one. -/
def readMembers : (fuel : Nat) → List Char → Option (List (Option String × Value) × List Char)
  | 0, _ => none
  | fuel + 1, text =>
      match text with
      | '"' :: rest => do
          let (name, rest) ← readString rest
          match skipBlanks rest with
          | ':' :: rest => do
              let (value, rest) ← readValue fuel (skipBlanks rest)
              match skipBlanks rest with
              | '}' :: rest => pure ([(name, value)], rest)
              | ',' :: rest => do
                  let (members, rest) ← readMembers fuel (skipBlanks rest)
                  pure ((name, value) :: members, rest)
              | _ => none
          | _ => none
      | _ => none

end

/-- The value of a text. -/
def read? (text : List Char) : Option Value :=
  match readValue (2 * text.length + 2) (skipBlanks text) with
  | some (value, rest) => if (skipBlanks rest).isEmpty then some value else none
  | none => none

/-- The value of a text given as a string. -/
def parse? (text : String) : Option Value := read? text.toList

end MomentumChain.Json
