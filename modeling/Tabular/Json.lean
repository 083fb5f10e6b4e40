-- SUMMARY: JSON documents and their reader.
import Tabular.Decimal.Reading

/-!
# JSON

Options are written as JSON. The reader takes one document with blanks around it and nothing else. It
keeps whole numbers exact and apart from numbers with a fraction or an exponent, keeps the members of
an object in order with repeated keys, and refuses every text outside the grammar.
-/

namespace Tabular

/-- The content of a JSON string; `none` if an escape in it names half of a surrogate pair, which is no
    character. -/
abbrev Json.Text := Option String

inductive Json where
  | null
  | boolean (b : Bool)
  | whole (n : Int)
  /-- A number with a fraction or an exponent, or minus zero. -/
  | real (written : String)
  | text (s : Json.Text)
  | list (items : List Json)
  | object (members : List (Json.Text × Json))

namespace Json

/-! ## Tokens -/

def isBlank (c : Char) : Bool := c == ' ' || c == '\t' || c == '\n' || c == '\r'

def skipBlanks (s : List Char) : List Char := s.dropWhile isBlank

def hexDigit? (c : Char) : Option Nat :=
  if c.isDigit then some (c.toNat - '0'.toNat)
  else if 'a' ≤ c ∧ c ≤ 'f' then some (c.toNat - 'a'.toNat + 10)
  else if 'A' ≤ c ∧ c ≤ 'F' then some (c.toNat - 'A'.toNat + 10)
  else none

/-- The value of four hexadecimal digits. -/
def hexUnit? (a b c d : Char) : Option Nat := do
  return (((← hexDigit? a) * 16 + (← hexDigit? b)) * 16 + (← hexDigit? c)) * 16 + (← hexDigit? d)

/-- The character that a letter after a backslash stands for. -/
def escapeLetter? : Char → Option Char
  | '"' => some '"'
  | '\\' => some '\\'
  | '/' => some '/'
  | 'b' => some '\x08'
  | 'f' => some '\x0c'
  | 'n' => some '\n'
  | 'r' => some '\r'
  | 't' => some '\t'
  | _ => none

/-- Put 16-bit units together: a high and a low surrogate make one character. -/
def joinUnits : List Nat → Option (List Char)
  | [] => some []
  | [u] => if 0xd800 ≤ u ∧ u < 0xe000 then none else some [Char.ofNat u]
  | u :: v :: rest =>
    if 0xd800 ≤ u ∧ u < 0xdc00 then
      if 0xdc00 ≤ v ∧ v < 0xe000 then
        (joinUnits rest).map (Char.ofNat (0x10000 + (u - 0xd800) * 0x400 + (v - 0xdc00)) :: ·)
      else none
    else if 0xdc00 ≤ u ∧ u < 0xe000 then none
    else (joinUnits (v :: rest)).map (Char.ofNat u :: ·)

/-- A piece of a string: a character as it stands, or a 16-bit unit from an escape. -/
inductive Piece where
  | char (c : Char)
  | unit (u : Nat)

/-- The characters of pieces: runs of units are joined. The units of the run before are given backwards. -/
def joinPieces : List Piece → List Nat → Option (List Char)
  | [], units => joinUnits units.reverse
  | .unit u :: rest, units => joinPieces rest (u :: units)
  | .char c :: rest, units => do
    let front ← joinUnits units.reverse
    let back ← joinPieces rest []
    return front ++ c :: back

/-- Read pieces up to the closing quote. -/
def pieces? : List Char → Option (List Piece × List Char)
  | [] => none
  | '"' :: rest => some ([], rest)
  | '\\' :: 'u' :: a :: b :: c :: d :: rest => do
    let u ← hexUnit? a b c d
    let (more, rest) ← pieces? rest
    return (.unit u :: more, rest)
  | '\\' :: letter :: rest => do
    let c ← escapeLetter? letter
    let (more, rest) ← pieces? rest
    return (.char c :: more, rest)
  | c :: rest =>
    if c == '\\' || c.toNat < 0x20 then none
    else do
      let (more, rest) ← pieces? rest
      return (.char c :: more, rest)

/-- A string, behind its opening quote. -/
def string? (s : List Char) : Option (Text × List Char) :=
  (pieces? s).map fun (ps, rest) => ((joinPieces ps []).map String.ofList, rest)

/-- The digits of a whole part: a zero alone or digits that do not begin with zero. -/
def wholePart? (s : List Char) : Option (List Char × List Char) :=
  match s with
  | '0' :: rest => some (['0'], rest)
  | _ =>
    let digits := s.takeWhile Char.isDigit
    if digits.isEmpty then none else some (digits, s.drop digits.length)

/-- A fraction with at least one digit, or nothing. -/
def fractionPart? : List Char → Option (List Char × List Char)
  | '.' :: rest =>
    let digits := rest.takeWhile Char.isDigit
    if digits.isEmpty then none else some ('.' :: digits, rest.drop digits.length)
  | s => some ([], s)

/-- An exponent with at least one digit, or nothing. -/
def exponentPart? : List Char → Option (List Char × List Char)
  | c :: rest =>
    if c == 'e' || c == 'E' then
      let (sign, rest) := match rest with
        | '+' :: t => (['+'], t)
        | '-' :: t => (['-'], t)
        | t => ([], t)
      let digits := rest.takeWhile Char.isDigit
      if digits.isEmpty then none else some (c :: sign ++ digits, rest.drop digits.length)
    else some ([], c :: rest)
  | [] => some ([], [])

def number? (s : List Char) : Option (Json × List Char) := do
  let (negative, s) := match s with
    | '-' :: t => (true, t)
    | t => (false, t)
  let (digits, s) ← wholePart? s
  let (fraction, s) ← fractionPart? s
  let (exponent, s) ← exponentPart? s
  let n := Decimal.digitsValue digits
  if fraction.isEmpty && exponent.isEmpty && !(negative && n == 0) then
    return (.whole (if negative then -(n : Int) else n), s)
  else
    return (.real (String.ofList ((if negative then ['-'] else []) ++ digits ++ fraction ++ exponent)), s)

/-! ## Documents -/

mutual

/-- A value, after blanks. The fuel bounds the number of nested reads. -/
def value? : Nat → List Char → Option (Json × List Char)
  | 0, _ => none
  | fuel + 1, s =>
    match skipBlanks s with
    | 'n' :: 'u' :: 'l' :: 'l' :: rest => some (.null, rest)
    | 't' :: 'r' :: 'u' :: 'e' :: rest => some (.boolean true, rest)
    | 'f' :: 'a' :: 'l' :: 's' :: 'e' :: rest => some (.boolean false, rest)
    | '"' :: rest => (string? rest).map fun (t, rest) => (.text t, rest)
    | '[' :: rest =>
      match skipBlanks rest with
      | ']' :: rest => some (.list [], rest)
      | rest => (items? fuel rest).map fun (items, rest) => (.list items, rest)
    | '\x7b' :: rest =>
      match skipBlanks rest with
      | '\x7d' :: rest => some (.object [], rest)
      | rest => (members? fuel rest).map fun (members, rest) => (.object members, rest)
    | rest => number? rest

/-- One or more items up to the closing bracket. -/
def items? : Nat → List Char → Option (List Json × List Char)
  | 0, _ => none
  | fuel + 1, s => do
    let (item, rest) ← value? fuel s
    match skipBlanks rest with
    | ',' :: rest =>
      let (more, rest) ← items? fuel rest
      return (item :: more, rest)
    | ']' :: rest => return ([item], rest)
    | _ => none

/-- One or more members up to the closing brace. -/
def members? : Nat → List Char → Option (List (Text × Json) × List Char)
  | 0, _ => none
  | fuel + 1, s => do
    let '"' :: rest := skipBlanks s | none
    let (key, rest) ← string? rest
    let ':' :: rest := skipBlanks rest | none
    let (item, rest) ← value? fuel rest
    match skipBlanks rest with
    | ',' :: rest =>
      let (more, rest) ← members? fuel rest
      return ((key, item) :: more, rest)
    | '\x7d' :: rest => return ([(key, item)], rest)
    | _ => none

end

/-- Read one document. Every nested read takes at least one character, so the length is fuel enough. -/
def ofText? (s : String) : Option Json := do
  let (document, rest) ← value? (2 * s.length + 2) s.toList
  if (skipBlanks rest).isEmpty then some document else none

end Json

end Tabular
