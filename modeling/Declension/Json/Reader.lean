import Declension.Json

/-!
Reading JSON text. A member given twice keeps its first place and its last value; numbers without
a fractional value are read exactly.
-/
namespace Declension.Json

def isSpace (c : Char) : Bool := c = ' ' || c = '\n' || c = '\r' || c = '\t'

def skip (s : List Char) : List Char := s.dropWhile isSpace

def hexDigit? (c : Char) : Option Nat :=
  if c.isDigit then some (c.toNat - '0'.toNat)
  else if 'a' ≤ c && c ≤ 'f' then some (c.toNat - 'a'.toNat + 10)
  else if 'A' ≤ c && c ≤ 'F' then some (c.toNat - 'A'.toNat + 10)
  else none

/-- The code units of a quoted text whose opening quote is behind, and what follows it. -/
def units : List Char → Option (List Nat × List Char)
  | [] => none
  | '"' :: r => some ([], r)
  | '\\' :: 'u' :: a :: b :: c :: d :: r => do
    let a ← hexDigit? a; let b ← hexDigit? b; let c ← hexDigit? c; let d ← hexDigit? d
    let (rest, after) ← units r
    some ((((a * 16 + b) * 16 + c) * 16 + d) :: rest, after)
  | '\\' :: c :: r => do
    let plain ← [('"', '"'), ('\\', '\\'), ('/', '/'), ('b', '\x08'), ('f', '\x0c'), ('n', '\n'),
      ('r', '\r'), ('t', '\t')].lookup c
    let (rest, after) ← units r
    some (plain.toNat :: rest, after)
  | c :: r => do
    let (rest, after) ← units r
    some (c.toNat :: rest, after)

/-- Joins the two halves of a character written with two units; a lone half is replaced. -/
def characters : List Nat → List Char
  | [] => []
  | [n] => [if 0xD800 ≤ n && n < 0xE000 then '\ufffd' else Char.ofNat n]
  | h :: l :: r =>
    if 0xD800 ≤ h && h < 0xDC00 then
      if 0xDC00 ≤ l && l < 0xE000 then
        Char.ofNat (0x10000 + (h - 0xD800) * 0x400 + (l - 0xDC00)) :: characters r
      else '\ufffd' :: characters (l :: r)
    else (if 0xDC00 ≤ h && h < 0xE000 then '\ufffd' else Char.ofNat h) :: characters (l :: r)

def text (s : List Char) : Option (String × List Char) :=
  (units s).map fun (us, rest) => (String.ofList (characters us), rest)

def digitsValue (ds : List Char) : Nat := ds.foldl (fun n c => n * 10 + (c.toNat - '0'.toNat)) 0

/-- The number with these digits before and after the point, scaled by a power of ten. -/
def number (negative : Bool) (whole fraction : List Char) (scale : Int) (shown : List Char) : Json :=
  let mantissa := digitsValue (whole ++ fraction)
  let exponent := scale - fraction.length
  let signed (n : Nat) : Json := num (if negative then -(n : Int) else n)
  if mantissa = 0 then num 0
  else if 0 ≤ exponent ∧ exponent ≤ 400 then signed (mantissa * Nat.pow 10 exponent.toNat)
  else if exponent < 0 ∧ -400 ≤ exponent ∧ mantissa % Nat.pow 10 (-exponent).toNat = 0 then
    signed (mantissa / Nat.pow 10 (-exponent).toNat)
  else real (String.ofList shown)

def readNumber (s : List Char) : Option (Json × List Char) :=
  let (negative, s₁) := match s with
    | '-' :: r => (true, r)
    | r => (false, r)
  let whole := s₁.takeWhile Char.isDigit
  let s₂ := s₁.dropWhile Char.isDigit
  let (fraction, s₃) := match s₂ with
    | '.' :: r => (r.takeWhile Char.isDigit, r.dropWhile Char.isDigit)
    | r => ([], r)
  let (scale, s₄) : Int × List Char := match s₃ with
    | c :: r =>
      if c = 'e' || c = 'E' then
        let (down, r) := match r with
          | '-' :: q => (true, q)
          | '+' :: q => (false, q)
          | q => (false, q)
        let n := digitsValue (r.takeWhile Char.isDigit)
        (if down then -(n : Int) else n, r.dropWhile Char.isDigit)
      else (0, s₃)
    | [] => (0, [])
  if whole.isEmpty then none
  else some (number negative whole fraction scale (s.take (s.length - s₄.length)), s₄)

/-- Adds a member, in the place of an earlier one of the same name. -/
def addMember (k : String) (v : Json) : List (String × Json) → List (String × Json)
  | [] => [(k, v)]
  | (l, w) :: rest => if l = k then (k, v) :: rest else (l, w) :: addMember k v rest

mutual

/-- A value at the front of a text. Every call spends one unit of fuel; the text has at least as
many characters as calls are needed. -/
def value : Nat → List Char → Option (Json × List Char)
  | 0, _ => none
  | fuel + 1, s =>
    match skip s with
    | 'n' :: 'u' :: 'l' :: 'l' :: r => some (null, r)
    | 't' :: 'r' :: 'u' :: 'e' :: r => some (bool true, r)
    | 'f' :: 'a' :: 'l' :: 's' :: 'e' :: r => some (bool false, r)
    | '"' :: r => (text r).map fun (t, rest) => (str t, rest)
    | '[' :: r =>
      match skip r with
      | ']' :: q => some (arr [], q)
      | _ => (items fuel r []).map fun (vs, rest) => (arr vs, rest)
    | '\x7b' :: r =>
      match skip r with
      | '\x7d' :: q => some (obj [], q)
      | _ => (members fuel r []).map fun (ms, rest) => (obj ms, rest)
    | r => readNumber r

def items : Nat → List Char → List Json → Option (List Json × List Char)
  | 0, _, _ => none
  | fuel + 1, s, done => do
    let (v, r) ← value fuel s
    match skip r with
    | ',' :: q => items fuel q (v :: done)
    | ']' :: q => some ((v :: done).reverse, q)
    | _ => none

def members : Nat → List Char → List (String × Json) → Option (List (String × Json) × List Char)
  | 0, _, _ => none
  | fuel + 1, s, done =>
    match skip s with
    | '"' :: r => do
      let (k, r) ← text r
      match skip r with
      | ':' :: q => do
        let (v, r) ← value fuel q
        let done := addMember k v done
        match skip r with
        | ',' :: q => members fuel q done
        | '\x7d' :: q => some (done, q)
        | _ => none
      | _ => none
    | _ => none

end

/-- The value a text writes, if it writes one and nothing more. -/
def parse? (s : String) : Option Json :=
  let chars := s.toList
  match value (chars.length + 1) chars with
  | some (v, r) => if (skip r).isEmpty then some v else none
  | none => none

end Declension.Json
