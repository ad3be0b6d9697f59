import Declension.Text.Blank
import Declension.Text.Digit
import Declension.Text.Scan

/-!
The command line: its options and how a list of arguments is read. Long options may be shortened
as long as one alone is meant; short ones may be strung together; behind two hyphens nothing is an
option.
-/
namespace Declension.CommandLine

/-- The options. -/
inductive Flag where
  | help | dump | output | limit | discover | options | populateAllTerminations | verbose
  deriving DecidableEq, Repr

namespace Flag

def all : List Flag :=
  [help, dump, output, limit, discover, options, populateAllTerminations, verbose]

def long : Flag → String
  | help => "--help"
  | dump => "--dump"
  | output => "--output"
  | limit => "--limit"
  | discover => "--discover"
  | options => "--options"
  | populateAllTerminations => "--populate-all-terminations"
  | verbose => "--verbose"

def short? : Flag → Option Char
  | help => some 'h'
  | verbose => some 'v'
  | _ => none

def ofShort? (c : Char) : Option Flag := all.find? (·.short? = some c)

def takesValue : Flag → Bool
  | dump | output | limit | options => true
  | _ => false

/-- The options that a text begins. -/
def begunBy (s : String) : List Flag := all.filter (Text.startsWith s ·.long)

end Flag

/-- One argument, told by its form alone. -/
inductive Token where
  | word (s : String)
  /-- Two hyphens. -/
  | divider
  | flag (f : Flag) (value : Option String)
  /-- A short option with what is written behind its letter. -/
  | short (f : Flag) (behind : List Char)
  | unknown
  deriving DecidableEq, Repr

/-- How the program ends before it starts. -/
inductive Exit where
  | help | usage
  deriving DecidableEq, Repr

def Exit.code : Exit → Nat
  | help => 0 | usage => 2

namespace Token

/-- A number with a minus sign is a word. -/
def isNegativeNumber (s : List Char) : Bool :=
  match Text.line s with
  | '-' :: r =>
    let whole := r.takeWhile Text.isDigit
    match r.drop whole.length with
    | [] => !whole.isEmpty
    | '.' :: fraction => !fraction.isEmpty && fraction.all Text.isDigit
    | _ => false
  | _ => false

/-- What starts with a hyphen but is no option: a word if it is a negative number or holds a
blank. -/
def other (s : String) : Token :=
  if isNegativeNumber s.toList || ' ' ∈ s.toList then word s else unknown

/-- The name and value around the first equals sign. -/
def splitValue (s : List Char) : List Char × Option String :=
  let name := s.takeWhile (· ≠ '=')
  match s.drop name.length with
  | _ :: value => (name, some (String.ofList value))
  | [] => (name, none)

/-- Reads an argument with two hyphens in front. -/
def ofLong (s : String) : Except Exit Token :=
  let (name, value) := splitValue s.toList
  match Flag.all.find? (·.long = s) with
  | some f => .ok (flag f none)
  | none =>
    match Flag.all.find? (·.long.toList = name), Flag.begunBy (String.ofList name) with
    | some f, _ => .ok (flag f value)
    | none, [f] => .ok (flag f value)
    | none, [] => .ok (other s)
    | none, _ => .error .usage

/-- Reads an argument with one hyphen in front. -/
def ofShort (s : String) (letter : Char) (behind : List Char) : Token :=
  match Flag.ofShort? letter, behind with
  | some f, [] => flag f none
  | some f, '=' :: value => flag f (some (String.ofList value))
  | some f, behind => short f behind
  | none, _ => other s

def read (s : String) : Except Exit Token :=
  match s.toList with
  | '-' :: '-' :: _ => ofLong s
  | '-' :: letter :: behind => .ok (ofShort s letter behind)
  | _ => .ok (word s)

/-- The tokens of the arguments; behind two hyphens all are words. -/
def readAll : List String → Except Exit (List Token)
  | [] => .ok []
  | s :: rest =>
    if s = "--" then .ok (divider :: rest.map word)
    else do return (← read s) :: (← readAll rest)

def isOption : Token → Bool
  | word _ | divider => false
  | _ => true

end Token

/-- What the arguments ask for. -/
structure Settings where
  template : Option String := none
  dump : String := "enwiktionary-latest-pages-articles.xml"
  output : String := "declensions.json"
  limit : Option Int := none
  discover : Bool := false
  options : Option String := none
  populateAllTerminations : Bool := false
  verbose : Bool := false
  deriving DecidableEq, Repr

/-- The value of digits, which single low lines may divide. -/
def digits? (n : Nat) : List Char → Option Nat
  | [] => none
  | [c] => (Text.digit? c).map (n * 10 + ·)
  | c :: '_' :: r => (Text.digit? c).bind fun d => digits? (n * 10 + d) r
  | c :: r => (Text.digit? c).bind fun d => digits? (n * 10 + d) r

/-- A whole number, perhaps with a sign, and with white space around it. -/
def int? (s : String) : Option Int :=
  match Text.trimChars s.toList with
  | '-' :: r => (digits? 0 r).map fun n => -(n : Int)
  | '+' :: r => (digits? 0 r).map Int.ofNat
  | r => (digits? 0 r).map Int.ofNat

namespace Settings

/-- Sets an option that takes a value. -/
def setValue (s : Settings) (value : String) : Flag → Except Exit Settings
  | .dump => .ok { s with dump := value }
  | .output => .ok { s with output := value }
  | .options => .ok { s with options := some value }
  | .limit =>
    match int? value with
    | some n => .ok { s with limit := some n }
    | none => .error .usage
  | _ => .error .usage

/-- Sets an option without a value. -/
def set (s : Settings) : Flag → Except Exit Settings
  | .discover => .ok { s with discover := true }
  | .populateAllTerminations => .ok { s with populateAllTerminations := true }
  | .verbose => .ok { s with verbose := true }
  | .help => .error .help
  | _ => .error .usage

/-- The short options strung together behind a first one, and whether a letter is none and the
rest is left over. None of them takes a value. -/
def shortFlags : List Char → Except Exit (List Flag × Bool)
  | [] => .ok ([], false)
  | '-' :: _ => .error .usage
  | c :: r =>
    match Flag.ofShort? c, r with
    | none, _ => .ok ([], true)
    | some _, '=' :: _ => .error .usage
    | some f, r => do
      let (more, isLeft) ← shortFlags r
      return (f :: more, isLeft)

end Settings

/-- How far the arguments have been read. -/
structure Reading where
  settings : Settings := {}
  /-- Whether the template may still be given. -/
  isOpen : Bool := true
  /-- Whether an argument was left over. -/
  hasExtra : Bool := false
  deriving DecidableEq, Repr

namespace Reading

def addWord (r : Reading) (s : String) : Reading :=
  if r.isOpen then { r with settings := { r.settings with template := some s }, isOpen := false }
  else { r with hasExtra := true }

/-- Reads the arguments behind the last option. -/
def finish (r : Reading) (tokens : List Token) : Reading :=
  match r.isOpen, tokens with
  | _, [] => r
  | true, [.divider] => r
  | true, [.divider, .word s] | true, [.word s, .divider] | true, [.word s] => r.addWord s
  | _, _ => { r with hasExtra := true }

/-- Reads the arguments up to the last option, and then the others. -/
def walk (r : Reading) : List Token → Except Exit Reading
  | [] => .ok r
  | .flag f none :: rest =>
    if f.takesValue then
      match rest with
      | .word value :: rest => do
        walk { r with settings := ← r.settings.setValue value f } rest
      | _ => .error .usage
    else do walk { r with settings := ← r.settings.set f } rest
  | .flag f (some value) :: rest =>
    if f.takesValue then do
      walk { r with settings := ← r.settings.setValue value f } rest
    else .error .usage
  | .short f behind :: rest => do
    let (more, isLeft) ← Settings.shortFlags behind
    let settings ← (f :: more).foldlM Settings.set r.settings
    walk { r with settings, hasExtra := r.hasExtra || isLeft } rest
  | .unknown :: rest => walk { r with hasExtra := true } rest
  | .divider :: rest => .ok (r.finish (.divider :: rest))
  | .word s :: rest =>
    if rest.any Token.isOption then walk (r.addWord s) rest
    else .ok (r.finish (.word s :: rest))

end Reading

/-- Reads a command line; arguments left over are an error, but only when all others are fine. -/
def read (args : List String) : Except Exit Settings := do
  let r ← Reading.walk {} (← Token.readAll args)
  if r.hasExtra then throw .usage
  return r.settings

end Declension.CommandLine
