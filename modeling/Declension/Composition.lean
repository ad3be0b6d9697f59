import Declension.Cell
import Declension.Inflection
import Declension.Title

/-!
Declining a run. Every part of the run yields a composition of its own, and compositions are
strung together slot by slot; what a part yields does not depend on the parts before it.
-/
namespace Declension

/-- What a run, or a part of it, declines to. -/
structure Composition where
  cell : Slot → Cell
  /-- Titles of the parts. -/
  titles : List String := []
  /-- The subtitles of the words that stand in the run itself, and the titles without them. -/
  subtitles : List Subtitle := []
  wordTitles : List String := []
  categories : List String := []
  footnotes : List String := []
  voc : Bool := true
  noneut : Bool := false

namespace Composition

/-- The composition of a run without parts. -/
def unit : Composition := { cell := fun _ => .unit }

/-- Strings two compositions together. -/
def append (a b : Composition) : Composition where
  cell s := (a.cell s).append (b.cell s)
  titles := a.titles ++ b.titles
  subtitles := a.subtitles ++ b.subtitles
  wordTitles := a.wordTitles ++ b.wordTitles
  categories := addNew a.categories b.categories
  footnotes := addNew a.footnotes b.footnotes
  voc := a.voc && b.voc
  noneut := a.noneut || b.noneut

def concat (parts : List Composition) : Composition := parts.foldl append unit

def title (c : Composition) : String := Title.joined c.titles

/-- The forms of a run, slot by slot. -/
def forms (isAdj : Bool) (c : Composition) : FormMap :=
  ⟨(Slot.run isAdj).map fun s => (s, (c.cell s).forms)⟩

/-- The notes on the forms of a run, by slot and place. -/
def notes (isAdj : Bool) (c : Composition) : List (NoteKey × List String) :=
  (Slot.run isAdj).flatMap fun s =>
    ((c.cell s).notes.entries.mergeSort fun a b => a.1 ≤ b.1).map fun (place, notes) =>
      (.form s place, notes)

end Composition

/-- Plain joiners between words are no part of their own. -/
def isJoiner (text : String) : Bool := text ∈ ["", "-", " "]

/-- What a title says of plain text. -/
def leadTitle (text : String) : List String :=
  if isJoiner text then [] else ["indeclinable portion"]

/-- Plain text stands unchanged in every slot. -/
def Literal.composition (l : Literal) : Composition where
  cell s := ⟨[if s.isLinked then l.linkedText else l.text], ∅⟩
  titles := leadTitle l.text

namespace Segment

/-- Adds the nominatives written with links: a form that is the lemma takes the lemma's links. -/
def addLinked (s : Segment) (m : FormMap) : FormMap :=
  (Slot.lemmaSlots s.isAdj).foldl (fun m (n, g) =>
    match m.get? (.cell .nom n g) with
    | some forms =>
      m.insert (.linked n g) (forms.map fun form => if form = s.word then s.linkedWord else form)
    | none => m) m

/-- Copies the forms of the one number a word is used in onto the other. -/
def mirrorOnly (isAdj : Bool) (num : Option NumberUse) (m : FormMap) : FormMap :=
  match num.bind NumberUse.only? with
  | some n => m.mirrorNumber n isAdj
  | none => m

/-- The forms of a word in its run: links, ligatures, nasals and the restriction in number, in
this order. -/
def finish (s : Segment) (num : Option NumberUse) (m : FormMap) : FormMap :=
  let m := s.addLinked m
  let m := if s.tags.has .lig then m.ligate s.isAdj else m
  let m := if s.tags.has .sufn then m.addNasals s.isAdj else m
  mirrorOnly s.isAdj num m

/-- Why a word does not fit its run: a noun in an adjective, or an adjective that no noun
governs. -/
def misfit? (s : Segment) (isAdj : Bool) (gender : Option Gender) : Option Fault :=
  if isAdj && !s.isAdj then some (.nounInAdjective s.word)
  else if !isAdj && s.isAdj && gender.isNone then some (.genderUnknown s.word)
  else none

/-- The slot of the word that fills a slot of the run: the agreeing one, or the masculine where the
word has none. -/
def source (s : Segment) (isAdj : Bool) (gender : Option Gender) (m : FormMap) (slot : Slot) :
    Slot :=
  if isAdj then
    match slot.masculine? with
    | some masculine => if m.contains slot then slot else masculine
    | none => slot
  else
    match s.isAdj, gender with
    | true, some g =>
      if m.contains (slot.agreeing g) then slot.agreeing g else slot.agreeing .m
    | _, _ => slot

/-- The forms of a slot of the word, with its notes. -/
def cellAt (m : FormMap) (notes : OrderedMap NoteKey String) (slot : Slot) : Cell where
  forms := m.forms slot
  notes := ⟨(List.range (m.forms slot).length).filterMap fun place =>
    (given (notes.get? (.form slot place))).map fun note => (place, [note])⟩

/-- The title of a word with its subtitles. -/
def fullTitle (p : Paradigm) : Option String :=
  (given p.title).map fun title =>
    if p.subtitles.isEmpty then title else title ++ " (" ++ Title.rendered p.subtitles ++ ")"

/-- What a declined word gives to its run. -/
def contribution (s : Segment) (isAdj : Bool) (num : Option NumberUse) (gender : Option Gender)
    (p : Paradigm) : Composition :=
  let m := s.finish num p.forms
  { cell := fun slot =>
      (cellAt m p.notes (s.source isAdj gender m slot)).withLead
        (if slot.isLinked then s.linkedLead else s.lead)
    titles := leadTitle s.lead ++ (fullTitle p).toList
    subtitles := p.subtitles
    wordTitles := (given p.title).toList
    categories := if !s.tags.has .nocat && (isAdj || !s.isAdj) then p.categories else []
    footnotes := (given (some p.footnote)).toList
    voc := !s.isAdj || p.voc
    noneut := s.isAdj && p.noneut }

/-- Declines a word in its run. Number and gender come from the word, else from the run. -/
def compose (e : Engine) (pos : String) (isAdj : Bool) (run : Summary) (s : Segment) :
    Except Fault Composition := do
  let num := s.num.map NumberUse.ofNumber <|> run.num
  let gender := s.gender <|> run.gender
  let p ← s.paradigm e (s.lexeme pos isAdj num gender run.loc)
  match s.misfit? isAdj gender with
  | some fault => throw fault
  | none => return s.contribution isAdj num gender p

end Segment

def Piece.compose (e : Engine) (pos : String) (isAdj : Bool) (run : Summary) :
    Piece → Except Fault Composition
  | word s => s.compose e pos isAdj run
  | literal l => .ok l.composition

/-- Declines a run without alternants. -/
def PlainRun.compose (e : Engine) (pos : String) (isAdj : Bool) (r : PlainRun) :
    Except Fault Composition := do
  return .concat (← r.pieces.mapM (Piece.compose e pos isAdj r.summary))

namespace Composition

/-- Empties the slots of a number. -/
def blankNumber (n : Number) (c : Composition) : Composition :=
  { c with cell := fun s => if s.number = n then .blank else c.cell s }

/-- Gives the slots of the other number the forms of number `n`; notes stay with their slot. -/
def mirrorNumber (n : Number) (c : Composition) : Composition :=
  { c with cell := fun s =>
      if s.number = n then c.cell s
      else { c.cell s with forms := (c.cell s.mirror).forms } }

/-- The branches of an alternant as alternatives, the first one leading. -/
def mergedCell : List Composition → Slot → Cell
  | [], _ => .blank
  | first :: rest, s => rest.foldl (fun cell c => cell.merge (c.cell s)) (first.cell s)

end Composition

namespace Alternant

def declined (a : Alternant) : List Segment :=
  a.branches.flatMap fun b => b.pieces.filterMap Piece.declined?

/-- Whether the branches are too unlike to be titled together: each must have one declined word,
and all of the same class. -/
def needsOwnTitles (branches : List PlainRun) : Bool :=
  let declined := branches.map fun b => b.pieces.filterMap Piece.declined?
  let classes := declined.flatten.map Segment.decl
  declined.any (·.length ≠ 1) || classes.any (some · ≠ classes.head?)

/-- Marks a word as lacking every trait that is in `all` and not its own. -/
def markSegment (all : TagSet) (s : Segment) : Segment :=
  { s with tags := s.tags ++ (all.filter (!s.tags.contains ·)).map .lacks }

def markPiece (all : TagSet) : Piece → Piece
  | .word s => if s.decl = "" then .word s else .word (markSegment all s)
  | .literal l => .literal l

theorem isNoun_markPiece (all : TagSet) (p : Piece) : (markPiece all p).isNoun = p.isNoun := by
  cases p with
  | literal l => rfl
  | word s =>
    by_cases h : s.decl = ""
    · rw [markPiece, if_pos h]
    · rw [markPiece, if_neg h]
      rfl

def markRun (all : TagSet) (b : PlainRun) : PlainRun where
  pieces := b.pieces.map (markPiece all)
  summary := b.summary
  kind h := by simpa [isNoun_markPiece] using b.kind h

/-- Marks every declined word with what the words of other branches have and it lacks. -/
def mark (a : Alternant) : List PlainRun :=
  a.branches.map (markRun (TagSet.ofList (a.declined.flatMap Segment.tags)))

/-- The oblique stems of the declined words. -/
def stems (a : Alternant) : List String :=
  addNew [] (a.declined.map fun s => s.oblique.getD "")

/-- A branch in the use that its alternant and run make of it. -/
def settle (a : Alternant) (run : Summary) (b : PlainRun) : PlainRun :=
  { b with summary := { b.summary with
      loc := a.summary.loc || run.loc
      num := b.summary.num <|> a.summary.num <|> run.num
      gender := b.summary.gender <|> a.summary.gender <|> run.gender } }

/-- Declines a branch; a branch of one number has no forms in the other. -/
def composeBranch (e : Engine) (pos : String) (isAdj : Bool) (b : PlainRun) :
    Except Fault Composition := do
  let c ← b.compose e pos isAdj
  return match b.summary.num.bind NumberUse.only? with
    | some n => c.blankNumber n.other
    | none => c

/-- The title of an alternant out of its branches. -/
def title (ownTitles : Bool) (stems : List String) (branches : List Composition) : String :=
  if ownTitles then Title.joinSentences " or " (addNew [] (branches.map Composition.title))
  else Title.ofAlternant ((branches.flatMap Composition.wordTitles).headD "")
    (branches.map Composition.subtitles) stems

/-- What an alternant gives to its run. -/
def contribution (a : Alternant) (isAdj : Bool) (run : Summary) (branches : List Composition) :
    Composition :=
  let ownTitles := needsOwnTitles a.branches
  let merged : Composition := { cell := Composition.mergedCell branches }
  let merged := match run.num.bind NumberUse.only? with
    | some n => merged.mirrorNumber n
    | none => merged
  { cell := merged.cell
    titles := (given (some (title ownTitles (if ownTitles then [] else a.stems) branches))).toList
    categories :=
      if isAdj || a.summary.isAdj ≠ some true then branches.flatMap Composition.categories else []
    footnotes := branches.flatMap Composition.footnotes
    voc := branches.all Composition.voc
    noneut := branches.any Composition.noneut }

/-- Declines an alternant in its run. Branches that are titled together are first marked with
what sets them apart. -/
def compose (e : Engine) (pos : String) (isAdj : Bool) (run : Summary) (a : Alternant) :
    Except Fault Composition := do
  let branches := if needsOwnTitles a.branches then a.branches else a.mark
  let composed ← branches.mapM fun b => composeBranch e pos isAdj (a.settle run b)
  if composed.isEmpty then throw .emptyAlternant
  return a.contribution isAdj run composed

end Alternant

def Node.compose (e : Engine) (pos : String) (isAdj : Bool) (run : Summary) :
    Node → Except Fault Composition
  | piece p => p.compose e pos isAdj run
  | alternant a => a.compose e pos isAdj run

/-- Declines a run. -/
def Run.compose (e : Engine) (pos : String) (isAdj : Bool) (r : Run) :
    Except Fault Composition := do
  return .concat (← r.nodes.mapM (Node.compose e pos isAdj r.summary))

end Declension
