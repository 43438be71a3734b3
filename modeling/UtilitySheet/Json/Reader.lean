import UtilitySheet.Json.Basic

/-!
# Reading JSON

`Json.read?` reads a text that is one value and nothing else but white space. The grammar is the
standard one: no comments, no trailing commas, no control characters in strings, no leading zeros.
-/

namespace UtilitySheet.Json

/-- White space between the parts of a value. -/
def isSpace (c : Char) : Bool := c == ' ' || c == '\t' || c == '\n' || c == '\r'

/-- The text without leading white space. -/
def skipSpace (s : Text) : Text := s.dropWhile isSpace

/-! ## Strings -/

/-- A part of a string: a character, or a number of sixteen bits that may be half of one. -/
inductive Piece where
  | char (c : Char)
  | unit (n : Nat)

/-- The value of a hexadecimal digit. -/
def hexValue? (c : Char) : Option Nat :=
  if c.isDigit then some (c.toNat - '0'.toNat)
  else if 'a' ≤ c ∧ c ≤ 'f' then some (c.toNat - 'a'.toNat + 10)
  else if 'A' ≤ c ∧ c ≤ 'F' then some (c.toNat - 'A'.toNat + 10)
  else none

/-- The value of four hexadecimal digits. -/
def unit? (a b c d : Char) : Option Nat := do
  return 4096 * (← hexValue? a) + 256 * (← hexValue? b) + 16 * (← hexValue? c) + (← hexValue? d)

/-- The character that a letter after a backslash stands for. -/
def escaped? : Char → Option Char
  | '"' => some '"'
  | '\\' => some '\\'
  | '/' => some '/'
  | 'b' => some '\x08'
  | 'f' => some '\x0c'
  | 'n' => some '\n'
  | 'r' => some '\r'
  | 't' => some '\t'
  | _ => none

/-- The pieces of a string up to its closing quote, added in front of the reversed `acc`. -/
def pieces? (acc : List Piece) : Text → Option (List Piece × Text)
  | [] => none
  | '"' :: s => some (acc.reverse, s)
  | '\\' :: 'u' :: a :: b :: c :: d :: s =>
    match unit? a b c d with
    | some n => pieces? (.unit n :: acc) s
    | none => none
  | '\\' :: e :: s =>
    match escaped? e with
    | some c => pieces? (.char c :: acc) s
    | none => none
  | c :: s => if c.toNat < 0x20 ∨ c = '\\' then none else pieces? (.char c :: acc) s

/-- The characters of the pieces: two halves of a surrogate pair make one character, and half a
pair makes none. -/
def joinPieces (acc : Text) : List Piece → Option Text
  | [] => some acc.reverse
  | .char c :: ps => joinPieces (c :: acc) ps
  | .unit n :: .unit m :: ps =>
    if 0xD800 ≤ n ∧ n < 0xDC00 ∧ 0xDC00 ≤ m ∧ m < 0xE000 then
      joinPieces (Char.ofNat (0x10000 + (n - 0xD800) * 0x400 + (m - 0xDC00)) :: acc) ps
    else if 0xD800 ≤ n ∧ n < 0xE000 then none
    else joinPieces (Char.ofNat n :: acc) (.unit m :: ps)
  | .unit n :: ps =>
    if 0xD800 ≤ n ∧ n < 0xE000 then none else joinPieces (Char.ofNat n :: acc) ps

/-- The characters of a string behind its opening quote, and what follows. -/
def stringBody? (s : Text) : Option (Option Text × Text) :=
  (pieces? [] s).map fun (ps, rest) => (joinPieces [] ps, rest)

/-! ## Numbers -/

/-- One or more digits. -/
def digits? (s : Text) : Option (Text × Text) :=
  if (s.takeWhile Char.isDigit).isEmpty then none
  else some (s.takeWhile Char.isDigit, s.dropWhile Char.isDigit)

/-- The digits before the point: a zero stands alone. -/
def whole? (s : Text) : Option (Text × Text) :=
  match digits? s with
  | some ('0' :: _ :: _, _) => none
  | result => result

/-- The point and the digits after it, if there is a point. -/
def fraction? : Text → Option (Text × Text)
  | '.' :: s => digits? s
  | s => some ([], s)

/-- The digits of an exponent behind its sign. -/
def exponentDigits? (negative : Bool) (s : Text) : Option (Option (Bool × Text) × Text) :=
  (digits? s).map fun (digits, rest) => (some (negative, digits), rest)

/-- The exponent, if there is one. -/
def exponent? : Text → Option (Option (Bool × Text) × Text)
  | c :: s =>
    if c = 'e' ∨ c = 'E' then
      match s with
      | '+' :: s => exponentDigits? false s
      | '-' :: s => exponentDigits? true s
      | s => exponentDigits? false s
    else some (none, c :: s)
  | [] => some (none, [])

/-- A number behind its sign. -/
def unsigned? (negative : Bool) (s : Text) : Option (Json × Text) := do
  let (whole, s) ← whole? s
  let (fraction, s) ← fraction? s
  let (exponent, s) ← exponent? s
  return (.number { negative, whole, fraction, exponent }, s)

/-! ## Values -/

/-- A literal name. -/
def literal? (name : Text) (v : Json) (s : Text) : Option (Json × Text) :=
  (Text.after? name s).map (v, ·)

mutual

/-- The value at the front of a text. No call goes deeper than `fuel`. -/
def value? : (fuel : Nat) → Text → Option (Json × Text)
  | 0, _ => none
  | fuel + 1, s =>
    match skipSpace s with
    | [] => none
    | 'n' :: s => literal? "ull" .null s
    | 't' :: s => literal? "rue" (.bool true) s
    | 'f' :: s => literal? "alse" (.bool false) s
    | '"' :: s => (stringBody? s).map fun (text, rest) => (.string text, rest)
    | '[' :: s =>
      match skipSpace s with
      | ']' :: s => some (.array [], s)
      | s => (items? fuel [] s).map fun (items, rest) => (.array items, rest)
    | '\x7b' :: s =>
      match skipSpace s with
      | '\x7d' :: s => some (.object [], s)
      | s => (members? fuel [] s).map fun (members, rest) => (.object members, rest)
    | '-' :: s => unsigned? true s
    | s => unsigned? false s

/-- The items of an array up to its closing bracket, behind the reversed `acc`. -/
def items? : (fuel : Nat) → (acc : List Json) → Text → Option (List Json × Text)
  | 0, _, _ => none
  | fuel + 1, acc, s =>
    match value? fuel s with
    | none => none
    | some (v, rest) =>
      match skipSpace rest with
      | ',' :: s => items? fuel (v :: acc) s
      | ']' :: s => some ((v :: acc).reverse, s)
      | _ => none

/-- The members of an object up to its closing brace, behind the reversed `acc`. -/
def members? : (fuel : Nat) → (acc : List (Option Text × Json)) → Text →
    Option (List (Option Text × Json) × Text)
  | 0, _, _ => none
  | fuel + 1, acc, s =>
    match skipSpace s with
    | '"' :: s =>
      match stringBody? s with
      | none => none
      | some (name, rest) =>
        match skipSpace rest with
        | ':' :: s =>
          match value? fuel s with
          | none => none
          | some (v, rest) =>
            match skipSpace rest with
            | ',' :: s => members? fuel ((name, v) :: acc) s
            | '\x7d' :: s => some (((name, v) :: acc).reverse, s)
            | _ => none
        | _ => none
    | _ => none

end

/-- The value that the text spells. Every call takes at least one character before it goes
deeper by two, so twice the length is fuel enough. -/
def read? (s : Text) : Option Json :=
  match value? (2 * s.length + 2) s with
  | some (v, rest) => if (skipSpace rest).isEmpty then some v else none
  | none => none

end UtilitySheet.Json
