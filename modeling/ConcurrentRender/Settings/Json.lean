/-!
# JSON texts

The values that a settings text can hold, and the reader `Json.ofText?` that turns a text
into one. The reader accepts exactly the JSON grammar: no comments, no trailing commas,
no control characters inside strings, and blanks only where the grammar has them.

What nobody asks for is not kept. Of a number, only an integer keeps its value: digits
alone or with a minus before them. Minus zero counts as a fraction. A string whose
escapes do not make up a text, because half of a surrogate pair is missing, keeps none.
-/

namespace ConcurrentRender

inductive Json where
  | null
  | bool (value : Bool)
  /-- A number, with its value if it is written as an integer. -/
  | number (integer? : Option Int)
  /-- A string, with its content if that is a text. -/
  | string (content? : Option String)
  | list (items : List Json)
  /-- An object with its members in written order, repeated names included. -/
  | object (members : List (Option String × Json))
deriving Inhabited

namespace Json

def isBlank (c : Char) : Bool := c == ' ' || c == '\n' || c == '\t' || c == '\r'

def skipBlanks (s : List Char) : List Char := s.dropWhile isBlank

/-! ## Strings -/

/-- One character of a string, or one unit given by a hexadecimal escape. -/
inductive Piece where
  | char (c : Char)
  | unit (n : Nat)
deriving DecidableEq

def hexDigit? (c : Char) : Option Nat :=
  if '0' ≤ c ∧ c ≤ '9' then some (c.toNat - '0'.toNat)
  else if 'a' ≤ c ∧ c ≤ 'f' then some (c.toNat - 'a'.toNat + 10)
  else if 'A' ≤ c ∧ c ≤ 'F' then some (c.toNat - 'A'.toNat + 10)
  else none

def hexUnit? (a b c d : Char) : Option Nat := do
  let a ← hexDigit? a
  let b ← hexDigit? b
  let c ← hexDigit? c
  let d ← hexDigit? d
  return ((a * 16 + b) * 16 + c) * 16 + d

/-- The character that a backslash and this letter stand for. -/
def escaped? : Char → Option Char
  | '"' => some '"'
  | '\\' => some '\\'
  | '/' => some '/'
  | 'b' => some '\x08'
  | 'f' => some '\x0c'
  | 'n' => some '\n'
  | 'r' => some '\r'
  | 't' => some '\t'
  | _ => none

/-- The pieces up to the closing quote, and what follows it. -/
def pieces? : List Char → Option (List Piece × List Char)
  | [] => none
  | '"' :: rest => some ([], rest)
  | '\\' :: 'u' :: a :: b :: c :: d :: rest => do
    let n ← hexUnit? a b c d
    let (more, rest) ← pieces? rest
    return (.unit n :: more, rest)
  | '\\' :: e :: rest => do
    let c ← escaped? e
    let (more, rest) ← pieces? rest
    return (.char c :: more, rest)
  | c :: rest =>
    if c.toNat < 0x20 then none
    else do
      let (more, rest) ← pieces? rest
      return (.char c :: more, rest)

def isHighSurrogate (n : Nat) : Bool := decide (0xD800 ≤ n ∧ n < 0xDC00)

def isLowSurrogate (n : Nat) : Bool := decide (0xDC00 ≤ n ∧ n < 0xE000)

/-- The characters that the pieces make up. A high surrogate needs the low one right
after it, and a low surrogate needs the high one before. -/
def joinPieces? : List Piece → Option (List Char)
  | [] => some []
  | .char c :: rest => (joinPieces? rest).map (c :: ·)
  | .unit high :: .unit low :: rest =>
    if isHighSurrogate high then
      if isLowSurrogate low then
        let c := Char.ofNat (0x10000 + (high - 0xD800) * 0x400 + (low - 0xDC00))
        (joinPieces? rest).map (c :: ·)
      else none
    else if isLowSurrogate high then none
    else (joinPieces? (.unit low :: rest)).map (Char.ofNat high :: ·)
  | .unit n :: rest =>
    if isHighSurrogate n || isLowSurrogate n then none
    else (joinPieces? rest).map (Char.ofNat n :: ·)

/-- A string whose opening quote was read: its content and what follows. -/
def string? (s : List Char) : Option (Option String × List Char) :=
  (pieces? s).map fun (pieces, rest) => ((joinPieces? pieces).map String.ofList, rest)

/-! ## Numbers -/

/-- The digits at the front, of which there must be one, and what follows. -/
def digits? (s : List Char) : Option (List Char × List Char) :=
  match s.takeWhile Char.isDigit with
  | [] => none
  | ds => some (ds, s.dropWhile Char.isDigit)

def naturalOf (ds : List Char) : Nat :=
  ds.foldl (fun n c => n * 10 + (c.toNat - '0'.toNat)) 0

/-- The digits before the decimal point. Only the number zero starts with a zero. -/
def wholePart? (s : List Char) : Option (List Char × List Char) :=
  match digits? s with
  | some ('0' :: _ :: _, _) => none
  | r => r

/-- What follows the decimals, and whether there were any. -/
def decimals? : List Char → Option (Bool × List Char)
  | '.' :: rest => (digits? rest).map fun (_, rest) => (true, rest)
  | rest => some (false, rest)

/-- What follows the exponent, and whether there was one. -/
def exponent? : List Char → Option (Bool × List Char)
  | 'e' :: '+' :: rest | 'e' :: '-' :: rest | 'E' :: '+' :: rest | 'E' :: '-' :: rest
  | 'e' :: rest | 'E' :: rest => (digits? rest).map fun (_, rest) => (true, rest)
  | rest => some (false, rest)

/-- The integer with these digits. Minus zero is none. -/
def integerOf? (negative : Bool) (ds : List Char) : Option Int :=
  match negative, naturalOf ds with
  | false, n => some n
  | true, 0 => none
  | true, n => some (-n)

/-- A number: its value if it is written as an integer, and what follows. -/
def number? (s : List Char) : Option (Option Int × List Char) := do
  let (negative, s) := match s with
    | '-' :: rest => (true, rest)
    | rest => (false, rest)
  let (whole, s) ← wholePart? s
  let (fractional, s) ← decimals? s
  let (scaled, s) ← exponent? s
  return (if fractional || scaled then none else integerOf? negative whole, s)

/-! ## Values -/

mutual

/-- The value at the front of the text, and what follows. -/
def value? : Nat → List Char → Option (Json × List Char)
  | 0, _ => none
  | fuel + 1, s =>
    match skipBlanks s with
    | 'n' :: 'u' :: 'l' :: 'l' :: rest => some (.null, rest)
    | 't' :: 'r' :: 'u' :: 'e' :: rest => some (.bool true, rest)
    | 'f' :: 'a' :: 'l' :: 's' :: 'e' :: rest => some (.bool false, rest)
    | '"' :: rest => (string? rest).map fun (content?, rest) => (.string content?, rest)
    | '[' :: rest =>
      match skipBlanks rest with
      | ']' :: rest => some (.list [], rest)
      | rest => (items? fuel rest).map fun (items, rest) => (.list items, rest)
    | '{' :: rest =>
      match skipBlanks rest with
      | '}' :: rest => some (.object [], rest)
      | rest => (members? fuel rest).map fun (members, rest) => (.object members, rest)
    | s => (number? s).map fun (integer?, rest) => (.number integer?, rest)

/-- The items of a list up to its closing bracket. There is at least one. -/
def items? : Nat → List Char → Option (List Json × List Char)
  | 0, _ => none
  | fuel + 1, s =>
    match value? fuel s with
    | none => none
    | some (item, rest) =>
      match skipBlanks rest with
      | ']' :: rest => some ([item], rest)
      | ',' :: rest => (items? fuel rest).map fun (items, rest) => (item :: items, rest)
      | _ => none

/-- The members of an object up to its closing brace. There is at least one. -/
def members? : Nat → List Char → Option (List (Option String × Json) × List Char)
  | 0, _ => none
  | fuel + 1, s =>
    match skipBlanks s with
    | '"' :: rest =>
      match string? rest with
      | none => none
      | some (name?, rest) =>
        match skipBlanks rest with
        | ':' :: rest =>
          match value? fuel rest with
          | none => none
          | some (value, rest) =>
            match skipBlanks rest with
            | '}' :: rest => some ([(name?, value)], rest)
            | ',' :: rest =>
              (members? fuel rest).map fun (members, rest) => ((name?, value) :: members, rest)
            | _ => none
        | _ => none
    | _ => none

end

/-- The value that the whole text stands for. Each step of the reader consumes at least
one character or leads to one that does, hence the fuel. -/
def ofText? (text : String) : Option Json :=
  match value? (2 * text.length + 2) text.toList with
  | some (json, rest) => if (skipBlanks rest).isEmpty then some json else none
  | none => none

end Json

end ConcurrentRender
