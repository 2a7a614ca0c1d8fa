import Mathlib.Algebra.Ring.Int.Defs
import Mathlib.Data.List.Lex
import Mathlib.Data.Char

/-!
# JSON values and their compact text

An object is an association list kept in the order of its keys, as `std::map` keeps it; `insert` is
the assignment to a key. `dump` renders a value without white space by way of its tokens. `parse`
splits a text into tokens and reads one value from them, and fails on anything else.

A text is a list of characters. Characters compare by code point, which orders texts as their UTF-8
bytes are ordered.
-/

namespace JsonText

/-- A number that is not an integer of 64 bits is kept as it was written. -/
inductive Json
  | null
  | bool (b : Bool)
  | int (n : ℤ)
  | float (literal : List Char)
  | str (s : List Char)
  | arr (elements : List Json)
  | obj (members : List (List Char × Json))

abbrev Members := List (List Char × Json)

/-- Assign `v` to the key `k`. -/
def insert (k : List Char) (v : Json) : Members → Members
  | [] => [(k, v)]
  | m :: ms =>
    if k < m.1 then (k, v) :: m :: ms
    else if k = m.1 then (k, v) :: ms
    else m :: insert k v ms

def ofMembers (ms : Members) : Members := ms.foldl (fun acc m => insert m.1 m.2 acc) []

def Json.get? (k : List Char) : Json → Option Json
  | .obj ms => (ms.find? (·.1 == k)).map (·.2)
  | _ => none

inductive Token
  | beginObject
  | endObject
  | beginArray
  | endArray
  | colon
  | comma
  | null
  | bool (b : Bool)
  | int (n : ℤ)
  | float (literal : List Char)
  | str (s : List Char)
  deriving DecidableEq

def escapeChar (c : Char) : List Char :=
  if c = '"' then ['\\', '"']
  else if c = '\\' then ['\\', '\\']
  else if c = '\x08' then ['\\', 'b']
  else if c = '\x0c' then ['\\', 'f']
  else if c = '\n' then ['\\', 'n']
  else if c = '\r' then ['\\', 'r']
  else if c = '\t' then ['\\', 't']
  else if c.toNat < 0x20 then
    ['\\', 'u', '0', '0', Nat.digitChar (c.toNat / 16), Nat.digitChar (c.toNat % 16)]
  else [c]

def escape (s : List Char) : List Char := s.flatMap escapeChar

def renderInt (n : ℤ) : List Char :=
  if n < 0 then '-' :: Nat.toDigits 10 n.natAbs else Nat.toDigits 10 n.natAbs

def Token.render : Token → List Char
  | .beginObject => ['{']
  | .endObject => ['}']
  | .beginArray => ['[']
  | .endArray => [']']
  | .colon => [':']
  | .comma => [',']
  | .null => ['n', 'u', 'l', 'l']
  | .bool true => ['t', 'r', 'u', 'e']
  | .bool false => ['f', 'a', 'l', 's', 'e']
  | .int n => renderInt n
  | .float literal => literal
  | .str s => '"' :: (escape s ++ ['"'])

mutual

def Json.tokens : Json → List Token
  | .null => [.null]
  | .bool b => [.bool b]
  | .int n => [.int n]
  | .float literal => [.float literal]
  | .str s => [.str s]
  | .arr [] => [.beginArray, .endArray]
  | .arr (x :: xs) => .beginArray :: (x.tokens ++ elementTokens xs)
  | .obj [] => [.beginObject, .endObject]
  | .obj ((k, x) :: ms) => .beginObject :: .str k :: .colon :: (x.tokens ++ memberTokens ms)

/-- The elements after the first, with the closing bracket. -/
def elementTokens : List Json → List Token
  | [] => [.endArray]
  | x :: xs => .comma :: (x.tokens ++ elementTokens xs)

def memberTokens : List (List Char × Json) → List Token
  | [] => [.endObject]
  | (k, x) :: ms => .comma :: .str k :: .colon :: (x.tokens ++ memberTokens ms)

end

def render (ts : List Token) : List Char := ts.flatMap Token.render

def dump (j : Json) : List Char := render j.tokens

section Lexer

def isSpace (c : Char) : Bool := c = ' ' || c = '\t' || c = '\n' || c = '\r'

def isNumberChar (c : Char) : Bool :=
  c.isDigit || c = '-' || c = '+' || c = '.' || c = 'e' || c = 'E'

def hexValue (c : Char) : Option ℕ :=
  if c.isDigit then some (c.toNat - '0'.toNat)
  else if 'a' ≤ c ∧ c ≤ 'f' then some (c.toNat - 'a'.toNat + 10)
  else if 'A' ≤ c ∧ c ≤ 'F' then some (c.toNat - 'A'.toNat + 10)
  else none

def hexUnit : List Char → Option (ℕ × List Char)
  | a :: b :: c :: d :: cs => do
    let a ← hexValue a
    let b ← hexValue b
    let c ← hexValue c
    let d ← hexValue d
    return (((a * 16 + b) * 16 + c) * 16 + d, cs)
  | _ => none

/-- What follows a backslash and a `u`. -/
def unescapeUnicode (cs : List Char) : Option (Char × List Char) :=
  match hexUnit cs with
  | none => none
  | some (n, cs) =>
    if 0xD800 ≤ n ∧ n ≤ 0xDBFF then
      match cs with
      | '\\' :: 'u' :: cs =>
        match hexUnit cs with
        | none => none
        | some (m, cs) =>
          if 0xDC00 ≤ m ∧ m ≤ 0xDFFF then
            some (Char.ofNat (0x10000 + (n - 0xD800) * 0x400 + (m - 0xDC00)), cs)
          else none
      | _ => none
    else if 0xDC00 ≤ n ∧ n ≤ 0xDFFF then none
    else some (Char.ofNat n, cs)

/-- What follows a backslash. -/
def unescape : List Char → Option (Char × List Char)
  | [] => none
  | c :: cs =>
    if c = '"' then some ('"', cs)
    else if c = '\\' then some ('\\', cs)
    else if c = '/' then some ('/', cs)
    else if c = 'b' then some ('\x08', cs)
    else if c = 'f' then some ('\x0c', cs)
    else if c = 'n' then some ('\n', cs)
    else if c = 'r' then some ('\r', cs)
    else if c = 't' then some ('\t', cs)
    else if c = 'u' then unescapeUnicode cs
    else none

/-- The string behind an opening quote and the text behind its closing quote. -/
def lexString : ℕ → List Char → Option (List Char × List Char)
  | 0, _ => none
  | _ + 1, [] => none
  | fuel + 1, c :: cs =>
    if c = '"' then some ([], cs)
    else if c = '\\' then
      match unescape cs with
      | none => none
      | some (d, cs) => (lexString fuel cs).map fun r => (d :: r.1, r.2)
    else if c.toNat < 0x20 then none
    else (lexString fuel cs).map fun r => (c :: r.1, r.2)

/-- A fraction and an exponent, either of which may be missing. -/
def isFloatTail (cs : List Char) : Bool :=
  match cs with
  | '.' :: cs => cs.takeWhile Char.isDigit != [] && isExponent (cs.dropWhile Char.isDigit)
  | _ => isExponent cs
where
  isExponent : List Char → Bool
    | [] => true
    | c :: cs =>
      (c = 'e' || c = 'E') &&
        match cs with
        | '-' :: cs => cs != [] && cs.all Char.isDigit
        | '+' :: cs => cs != [] && cs.all Char.isDigit
        | cs => cs != [] && cs.all Char.isDigit

def readUnsigned (negative : Bool) (u : List Char) : Option Token :=
  let digits := u.takeWhile Char.isDigit
  let rest := u.dropWhile Char.isDigit
  let sign := if negative then ['-'] else []
  if digits = [] ∨ digits.head? = some '0' ∧ digits.length ≠ 1 then none
  else if rest = [] then
    let n : ℤ := Nat.ofDigitChars 10 digits 0
    let n := if negative then -n else n
    if -2 ^ 63 ≤ n ∧ n < 2 ^ 64 then some (.int n) else some (.float (sign ++ u))
  else if isFloatTail rest then some (.float (sign ++ u))
  else none

def readNumber : List Char → Option Token
  | '-' :: u => readUnsigned true u
  | u => readUnsigned false u

def lex : ℕ → List Char → Option (List Token)
  | 0, _ => none
  | _ + 1, [] => some []
  | fuel + 1, c :: cs =>
    if isSpace c then lex fuel cs
    else if c = '{' then (lex fuel cs).map (.beginObject :: ·)
    else if c = '}' then (lex fuel cs).map (.endObject :: ·)
    else if c = '[' then (lex fuel cs).map (.beginArray :: ·)
    else if c = ']' then (lex fuel cs).map (.endArray :: ·)
    else if c = ':' then (lex fuel cs).map (.colon :: ·)
    else if c = ',' then (lex fuel cs).map (.comma :: ·)
    else if c = '"' then
      match lexString fuel cs with
      | none => none
      | some (s, cs) => (lex fuel cs).map (.str s :: ·)
    else if isNumberChar c then
      match readNumber ((c :: cs).takeWhile isNumberChar) with
      | none => none
      | some t => (lex fuel ((c :: cs).dropWhile isNumberChar)).map (t :: ·)
    else
      match c :: cs with
      | 'n' :: 'u' :: 'l' :: 'l' :: cs => (lex fuel cs).map (.null :: ·)
      | 't' :: 'r' :: 'u' :: 'e' :: cs => (lex fuel cs).map (.bool true :: ·)
      | 'f' :: 'a' :: 'l' :: 's' :: 'e' :: cs => (lex fuel cs).map (.bool false :: ·)
      | _ => none

end Lexer

section Parser

mutual

def parseValue : ℕ → List Token → Option (Json × List Token)
  | 0, _ => none
  | _ + 1, .null :: ts => some (.null, ts)
  | _ + 1, .bool b :: ts => some (.bool b, ts)
  | _ + 1, .int n :: ts => some (.int n, ts)
  | _ + 1, .float literal :: ts => some (.float literal, ts)
  | _ + 1, .str s :: ts => some (.str s, ts)
  | _ + 1, .beginArray :: .endArray :: ts => some (.arr [], ts)
  | fuel + 1, .beginArray :: ts => do
    let (x, ts) ← parseValue fuel ts
    let (xs, ts) ← parseElements fuel ts
    return (.arr (x :: xs), ts)
  | _ + 1, .beginObject :: .endObject :: ts => some (.obj [], ts)
  | fuel + 1, .beginObject :: .str k :: .colon :: ts => do
    let (x, ts) ← parseValue fuel ts
    let (ms, ts) ← parseMembers fuel ts
    return (.obj (ofMembers ((k, x) :: ms)), ts)
  | _ + 1, _ => none

def parseElements : ℕ → List Token → Option (List Json × List Token)
  | 0, _ => none
  | _ + 1, .endArray :: ts => some ([], ts)
  | fuel + 1, .comma :: ts => do
    let (x, ts) ← parseValue fuel ts
    let (xs, ts) ← parseElements fuel ts
    return (x :: xs, ts)
  | _ + 1, _ => none

def parseMembers : ℕ → List Token → Option (List (List Char × Json) × List Token)
  | 0, _ => none
  | _ + 1, .endObject :: ts => some ([], ts)
  | fuel + 1, .comma :: .str k :: .colon :: ts => do
    let (x, ts) ← parseValue fuel ts
    let (ms, ts) ← parseMembers fuel ts
    return ((k, x) :: ms, ts)
  | _ + 1, _ => none

end

/-- A text has to be one value and nothing else. -/
def parse (text : List Char) : Option Json :=
  match lex (text.length + 1) text with
  | none => none
  | some ts =>
    match parseValue (ts.length + 1) ts with
    | some (j, []) => some j
    | _ => none

end Parser

/-- The text of a string value without its quotes: `dump ()` and `substr (1, size - 2)`. -/
def strip (text : List Char) : List Char := (text.drop 1).take (text.length - 2)

theorem strip_dump_str (s : List Char) : strip (dump (.str s)) = escape s := by
  simp [strip, dump, render, Json.tokens, Token.render]

end JsonText
