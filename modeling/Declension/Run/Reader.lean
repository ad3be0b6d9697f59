import Declension.Classification
import Declension.Run
import Declension.Text.Links

/-!
Reading segment runs. A word is followed by its class and traits in angle brackets, an adjective
by a plus sign after its class; a linked word may hold blanks, commas and hyphens; alternants
stand in double parentheses, their branches divided by commas.
-/
namespace Declension

/-- The specification behind a word: an angle bracket up to the first closing one on the line. -/
def specLength? : List Char → Option Nat
  | '<' :: r => (Text.upTo ['>'] (· ≠ '\n') r).map (·.length + 2)
  | _ => none

/-- A linked word with its specification. -/
def findLinkedWord : List Char → Option (List Char × Nat)
  | '[' :: '[' :: r => do
    let inside ← Text.upTo [']', ']', '<'] (fun c => c ≠ '[' && c ≠ ']') r
    let spec ← specLength? (r.drop (inside.length + 2))
    let n := inside.length + 4 + spec
    some (('[' :: '[' :: r).take n, n)
  | _ => none

/-- Whether a character may stand in a word. Hyphens divide words, except in a run that starts
with one. -/
def inWord (isSuffix : Bool) (c : Char) : Bool :=
  c ≠ '<' && c ≠ '>' && c ≠ ' ' && c ≠ ',' && (isSuffix || c ≠ '-')

/-- A word with its specification. -/
def findWord (isSuffix : Bool) (s : List Char) : Option (List Char × Nat) :=
  let word := s.takeWhile (inWord isSuffix)
  if word.isEmpty then none
  else (specLength? (s.drop word.length)).map fun spec =>
    (s.take (word.length + spec), word.length + spec)

/-- Cuts a plain run into words, each with the text before it, and the text after the last. -/
def cutWords (s : List Char) : List (List Char × List Char) × List Char :=
  let isSuffix := s.head? = some '-'
  let (front, linked) := Text.cut findLinkedWord s
  let (words, open_) := chunk isSuffix front
  linked.foldl (fun (done, lead) (word, between) =>
    let (words, after) := chunk isSuffix between
    (done ++ (lead, word) :: words, after)) (words, open_)
where
  /-- Cuts text between linked words; the text after the last word stays open. -/
  chunk (isSuffix : Bool) (s : List Char) : List (List Char × List Char) × List Char :=
    let (front, found) := Text.cut (findWord isSuffix) s
    pairUp front found
  /-- Moves the text between words from behind a word to before the next. -/
  pairUp (lead : List Char) :
      List (List Char × List Char) → List (List Char × List Char) × List Char
    | [] => ([], lead)
    | (word, after) :: rest =>
      let (words, last) := pairUp after rest
      ((lead, word) :: words, last)

/-- An alternant: double parentheses closed on the same line. -/
def findAlternant : List Char → Option (List Char × Nat)
  | '(' :: '(' :: r => do
    let inside ← Text.upTo [')', ')'] (· ≠ '\n') r
    some ('(' :: '(' :: inside ++ [')', ')'], inside.length + 4)
  | _ => none

/-- The inside of an alternant; a final line break does not count. -/
def alternantInside? (s : List Char) : Option (List Char) :=
  match Text.line s with
  | '(' :: '(' :: r =>
    if [')', ')'].isSuffixOf r then some (r.take (r.length - 2)) else none
  | _ => none

/-- The part before the last opening bracket and the specification inside the final brackets; a
final line break does not count. -/
def splitSpec? (s : List Char) : Option (List Char × List Char) :=
  match (Text.line s).reverse with
  | '>' :: r =>
    match Text.upTo ['<'] (fun _ => true) r with
    | some spec => some ((r.drop (spec.length + 1)).reverse, spec.reverse)
    | none => none
  | _ => none

/-- A tag as written after a class. -/
def readTag (s : String) : Except Fault Tag :=
  let name := Tag.spelling s
  match Tag.known? name with
  | some t => .ok t
  | none => .error (.unknownTag name)

def isGenderTag (t : Tag) : Bool := t = .has .M || t = .has .F || t = .has .N

def isNumberTag (t : Tag) : Bool := t = .has .sg || t = .has .pl || t = .has .both

/-- Takes a trait implied by an adjective's ending, or takes back its veto. -/
def implyAdjective (tags : TagSet) (t : Tag) : TagSet :=
  if tags.contains (.veto t) then tags.drop (.veto t) else tags.add t

/-- Takes a trait implied by a noun's ending, or takes back its veto. Gender and number that are
already there stay. -/
def implyNoun (tags : TagSet) (t : Tag) : TagSet :=
  if tags.contains (.veto t) then tags.drop (.veto t)
  else if isGenderTag t && tags.any isGenderTag then tags
  else if isNumberTag t && tags.any isNumberTag then tags
  else tags.add t

/-- The capitals that mark a proper name. -/
def isCapital (c : Char) : Bool :=
  ('A' ≤ c && c ≤ 'Z') || c ∈ "ĀĒĪŌŪȲĂĔĬŎŬ".toList

def isProperName (word : String) : Bool := word.toList.head?.any isCapital

/-- A segment whose traits of number, place and gender are told by its fields. -/
def settle (decl : String) (headword : HeadwordClass) (isAdj : Bool) (found : Classification)
    (word linkedWord : String) (tags : TagSet) : Segment :=
  let loc := tags.has .loc
  let tags := tags.drop (.has .loc)
  let gender :=
    if tags.has .M then some .m else if tags.has .F then some .f
    else if tags.has .N then some .n else none
  let (num, tags) :=
    if tags.has .pl then (some .pl, tags.drop (.has .pl))
    else if tags.has .sg then (some .sg, tags.drop (.has .sg))
    else (none, tags)
  { decl, headword, isAdj, stem := found.stem, oblique := found.oblique, word, linkedWord, gender,
    num, loc, tags }

/-- The class a headword shows: the one the tables give an irregular word, else its own. -/
def headwordClass (irregular : Option String) (own : String) : HeadwordClass :=
  match given irregular with
  | some nearest => .irregular nearest
  | none => .regular own

def adjectiveSegment (t : Tables) (word linkedWord : String) (oblique : Option String)
    (decl : String) (tags : TagSet) : Except Fault Segment := do
  let found ← t.classifyAdjective word oblique decl tags
  let headword := headwordClass (t.irregularAdjectiveClasses.get? word) (found.decl ++ "+")
  return settle found.decl headword true found word linkedWord (found.tags.foldl implyAdjective tags)

def nounSegment (t : Tables) (word linkedWord : String) (oblique : Option String)
    (decl : String) (tags : TagSet) : Except Fault Segment := do
  let found ← t.classifyNoun word oblique decl tags
  let headword := headwordClass (t.irregularNounClasses.get? word) decl
  let tags := found.tags.foldl implyNoun tags
  -- proper names default to the singular
  let tags := if !tags.has .pl && !tags.has .both && isProperName word then tags.add (.has .sg)
    else tags
  return settle decl headword false found word linkedWord tags

/-- The stems of a word: the lemma, and the oblique stem after a slash. -/
def splitStems (stems : List Char) (text : String) : Except Fault (String × Option String) :=
  match Text.fieldsChars '/' stems with
  | [[]] | [[], _] => .error (.missingWord text)
  | [word] => .ok (String.ofList word, none)
  | [word, oblique] => .ok (String.ofList word, given (some (String.ofList oblique)))
  | _ => .error (.tooManyStems (String.ofList stems))

/-- Reads one word with its specification. -/
def Segment.read (t : Tables) (text : String) : Except Fault Segment := do
  let (stems, spec) ← match splitSpec? text.toList with
    | some parts => pure parts
    | none => throw (.missingSpec text)
  let (linkedWord, oblique) ← splitStems stems text
  let (decl, specs) := match Text.fieldsChars '.' spec with
    | decl :: specs => (decl, specs)
    | [] => ([], [])
  let tags := TagSet.ofList (← specs.mapM fun s => readTag (String.ofList s))
  let word := Text.unlink linkedWord
  if '+' ∈ decl then
    adjectiveSegment t word linkedWord oblique (String.ofList (decl.filter (· ≠ '+'))) tags
  else if decl.isEmpty then throw (.missingClass text)
  else nounSegment t word linkedWord oblique (String.ofList decl) tags

/-- Plain text may not hold angle brackets. -/
def readLiteral (s : List Char) : Except Fault Literal :=
  if '<' ∈ s ∨ '>' ∈ s then .error (.strayBracket (String.ofList s))
  else .ok ⟨Text.unlink (String.ofList s), String.ofList s⟩

/-- Reads a word with the text before it. -/
def readWord (t : Tables) (lead word : List Char) : Except Fault Segment := do
  let l ← readLiteral lead
  let s ← Segment.read t (String.ofList word)
  return { s with lead := l.text, linkedLead := l.linkedText }

/-- Reads a run without alternants. -/
def PlainRun.read (t : Tables) (text : List Char) : Except Fault PlainRun := do
  let (words, last) := cutWords text
  let segments ← words.mapM fun (lead, word) => readWord t lead word
  if last.isEmpty then
    return ⟨segments.map .word, .ofSegments segments, isNoun_of_mem_words⟩
  else
    let l ← readLiteral last
    return ⟨segments.map .word ++ [.literal l], .ofSegments segments, isNoun_of_mem_words_append l⟩

/-- Reads the branches of an alternant one after the other. -/
def readBranches (t : Tables) (done : Alternant) : List (List Char) → Except Fault Alternant
  | [] => .ok done
  | text :: rest => do
    let branch ← PlainRun.read t text
    let summary ← done.summary.addBranch branch.summary
    readBranches t ⟨done.branches ++ [branch], summary⟩ rest

def Alternant.read (t : Tables) (text : List Char) : Except Fault Alternant := do
  match alternantInside? text with
  | none => throw (.invalidAlternant (String.ofList text))
  | some inside =>
    match Text.fieldsChars ',' inside with
    | [] => return ⟨[], {}⟩
    | first :: rest =>
      let branch ← PlainRun.read t first
      readBranches t ⟨[branch], branch.summary⟩ rest

/-- Adds a plain part to a run; an empty one adds nothing. -/
def addPlain (t : Tables) (done : Run) (text : List Char) : Except Fault Run :=
  if text.isEmpty then .ok done
  else do
    let part ← PlainRun.read t text
    return ⟨done.nodes ++ part.pieces.map .piece, done.summary.addPart part.summary⟩

/-- Adds an alternant and the plain text behind it to a run. -/
def addAlternant (t : Tables) (done : Run) (part : List Char × List Char) : Except Fault Run := do
  let alternant ← Alternant.read t part.1
  addPlain t ⟨done.nodes ++ [.alternant alternant], done.summary.addPart alternant.summary⟩ part.2

/-- Reads a run. -/
def Run.read (t : Tables) (text : String) : Except Fault Run := do
  let chars := text.toList
  if Text.occurs ['(', '('] chars && !Text.occurs [')', ')'] chars then
    throw (.unterminatedAlternant text)
  let (front, parts) := Text.cut findAlternant chars
  parts.foldlM (addAlternant t) (← addPlain t ⟨[], {}⟩ front)

end Declension
