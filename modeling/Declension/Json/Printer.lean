import Declension.Json

/-!
Two written forms of a JSON value: on one line, and with one member or item to a line. Text is
written unescaped except for quotes, backslashes and controls.
-/
namespace Declension.Json

def escaped (c : Char) : List Char :=
  if c = '"' then ['\\', '"']
  else if c = '\\' then ['\\', '\\']
  else if c = '\n' then ['\\', 'n']
  else if c = '\r' then ['\\', 'r']
  else if c = '\t' then ['\\', 't']
  else if c.toNat = 8 then ['\\', 'b']
  else if c.toNat = 12 then ['\\', 'f']
  else if c.toNat < 32 then
    ['\\', 'u', '0', '0', Nat.digitChar (c.toNat / 16), Nat.digitChar (c.toNat % 16)]
  else [c]

def quoted (s : String) : String :=
  String.ofList ('"' :: s.toList.flatMap escaped ++ ['"'])

mutual

/-- A value on one line. -/
def compact : Json → String
  | null => "null"
  | bool true => "true"
  | bool false => "false"
  | num n => toString n
  | real text => text
  | str s => quoted s
  | arr items => "[" ++ compactItems items ++ "]"
  | obj members => "\x7b" ++ compactMembers members ++ "\x7d"

def compactItems : List Json → String
  | [] => ""
  | [v] => compact v
  | v :: w :: rest => compact v ++ ", " ++ compactItems (w :: rest)

def compactMembers : List (String × Json) → String
  | [] => ""
  | [(k, v)] => quoted k ++ ": " ++ compact v
  | (k, v) :: w :: rest => quoted k ++ ": " ++ compact v ++ ", " ++ compactMembers (w :: rest)

end

/-- A new line at a depth of nesting, two blanks a level. -/
def newline (depth : Nat) : String := String.ofList ('\n' :: List.replicate (2 * depth) ' ')

mutual

/-- A value over several lines, its first line standing where the caller is. -/
def prettyAt (depth : Nat) : Json → String
  | null => "null"
  | bool true => "true"
  | bool false => "false"
  | num n => toString n
  | real text => text
  | str s => quoted s
  | arr [] => "[]"
  | arr (v :: rest) =>
    "[" ++ newline (depth + 1) ++ prettyItems (depth + 1) (v :: rest) ++ newline depth ++ "]"
  | obj [] => "\x7b\x7d"
  | obj (m :: rest) =>
    "\x7b" ++ newline (depth + 1) ++ prettyMembers (depth + 1) (m :: rest) ++ newline depth ++ "\x7d"

def prettyItems (depth : Nat) : List Json → String
  | [] => ""
  | [v] => prettyAt depth v
  | v :: w :: rest => prettyAt depth v ++ "," ++ newline depth ++ prettyItems depth (w :: rest)

def prettyMembers (depth : Nat) : List (String × Json) → String
  | [] => ""
  | [(k, v)] => quoted k ++ ": " ++ prettyAt depth v
  | (k, v) :: w :: rest =>
    quoted k ++ ": " ++ prettyAt depth v ++ "," ++ newline depth ++ prettyMembers depth (w :: rest)

end

/-- A value with every item and member on its own line. -/
def pretty (v : Json) : String := prettyAt 0 v

end Declension.Json
