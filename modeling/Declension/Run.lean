import Declension.Tables

/-!
Segment runs: the words of a lemma as a template gives them, each with its class and traits,
plain text between them, and alternants that offer several readings of a part.
-/
namespace Declension

/-- The class a headword shows: its own, or the one an irregular word comes nearest to. -/
inductive HeadwordClass where
  | regular (decl : String)
  | irregular (nearest : String)
  deriving DecidableEq, Repr

def HeadwordClass.text : HeadwordClass → String
  | regular decl => decl
  | irregular nearest => "irreg/" ++ nearest

/-- The class that an irregular word comes nearest to, told on one line; a final line break does
not count. -/
def HeadwordClass.nearest? : HeadwordClass → Option String
  | regular _ => none
  | irregular nearest =>
    let line := Text.line nearest.toList
    if '\n' ∈ line then none else some (String.ofList line)

/-- One declined word. -/
structure Segment where
  decl : String
  headword : HeadwordClass
  isAdj : Bool
  stem : String
  oblique : Option String
  /-- The lemma as shown, and with its links. -/
  word : String
  linkedWord : String
  gender : Option Gender
  num : Option Number
  loc : Bool
  tags : TagSet
  /-- The plain text before the word, as shown and with its links. -/
  lead : String := ""
  linkedLead : String := ""
  deriving DecidableEq, Repr

/-- Plain text at the end of a run. -/
structure Literal where
  text : String
  linkedText : String
  deriving DecidableEq, Repr

inductive Piece where
  | word (s : Segment)
  | literal (l : Literal)
  deriving DecidableEq, Repr

/-- What a headword line says of one declined word. -/
structure DeclProp where
  decl : String
  headword : String
  tags : TagSet
  deriving DecidableEq, Repr

def Segment.prop (s : Segment) : DeclProp := ⟨s.decl, s.headword.text, s.tags⟩

namespace Piece

/-- The declined word of a piece; a word without a class is not declined. -/
def declined? : Piece → Option Segment
  | word s => if s.decl = "" then none else some s
  | literal _ => none

def segment? : Piece → Option Segment
  | word s => some s
  | literal _ => none

def isNoun : Piece → Bool
  | word s => !s.isAdj
  | literal _ => false

end Piece

/-- What the words of a run have in common. -/
structure Summary where
  gender : Option Gender := none
  num : Option NumberUse := none
  loc : Bool := false
  isAdj : Option Bool := none
  propses : List (List DeclProp) := []
  deriving DecidableEq, Repr

/-- A run without alternants. -/
structure PlainRun where
  pieces : List Piece
  summary : Summary
  /-- A run of adjectives has no noun in it. -/
  kind : summary.isAdj = some true → ∀ p ∈ pieces, p.isNoun = false
  deriving DecidableEq, Repr

structure Alternant where
  branches : List PlainRun
  summary : Summary
  deriving DecidableEq, Repr

inductive Node where
  | piece (p : Piece)
  | alternant (a : Alternant)
  deriving DecidableEq, Repr

structure Run where
  nodes : List Node
  summary : Summary
  deriving DecidableEq, Repr

namespace Summary

/-- Adds the next word: number and gender come from the first word that has one, and the whole is
an adjective only if every word is. -/
def addSegment (a : Summary) (s : Segment) : Summary where
  gender := a.gender <|> s.gender
  num := a.num <|> s.num.map NumberUse.ofNumber
  loc := a.loc || s.loc
  isAdj := some (match a.isAdj with
    | none => s.isAdj
    | some b => b && s.isAdj)
  propses := a.propses

theorem isAdj_foldl_of_noun {a : Summary} (h : a.isAdj = some false) (segments : List Segment) :
    (segments.foldl addSegment a).isAdj = some false := by
  induction segments generalizing a with
  | nil => exact h
  | cons s segments ih =>
    apply ih
    simp [addSegment, h]

theorem isAdj_foldl_addSegment {segments : List Segment} {a : Summary}
    (h : (segments.foldl addSegment a).isAdj = some true) : ∀ s ∈ segments, s.isAdj := by
  induction segments generalizing a with
  | nil => exact fun _ hs => nomatch hs
  | cons s segments ih =>
    refine List.forall_mem_cons.mpr ⟨?_, ih h⟩
    cases hs : s.isAdj with
    | true => rfl
    | false =>
      have hfirst : (a.addSegment s).isAdj = some false := by
        cases ha : a.isAdj <;> simp [addSegment, ha, hs]
      rw [List.foldl_cons, isAdj_foldl_of_noun hfirst] at h
      cases h

/-- The summary of words, their properties in one group. -/
def ofSegments (segments : List Segment) : Summary :=
  let props := segments.map Segment.prop
  { segments.foldl addSegment {} with propses := if props.isEmpty then [] else [props] }

/-- Adds the next part of a run. A part without words says nothing about the kind. -/
def addPart (a b : Summary) : Summary where
  gender := a.gender <|> b.gender
  num := a.num <|> b.num
  loc := a.loc || b.loc
  isAdj := match a.isAdj, b.isAdj with
    | none, k => k
    | some k, none => some k
    | some k, some l => some (k && l)
  propses := a.propses ++ b.propses

/-- The summary of two branches of one kind; differing numbers make both. -/
def join (isAdj : Option Bool) (a b : Summary) : Summary where
  gender := a.gender <|> b.gender
  num := if a.num = b.num then a.num else some .both
  loc := a.loc || b.loc
  isAdj := isAdj
  propses := a.propses ++ b.propses

/-- Adds a further branch of an alternant, whose kind must agree with the others. -/
def addBranch (a b : Summary) : Except Fault Summary :=
  match a.isAdj, b.isAdj with
  | some k, some l => if k = l then .ok (join (some k) a b) else .error .mixedAlternant
  | none, kind => .ok (join kind a b)
  | some k, none => .ok (join (some k) a b)

end Summary

namespace PlainRun

theorem isNoun_of_mem_words {segments : List Segment}
    (h : (Summary.ofSegments segments).isAdj = some true) :
    ∀ p ∈ segments.map Piece.word, p.isNoun = false := by
  intro p hp
  obtain ⟨s, hs, rfl⟩ := List.mem_map.mp hp
  simp [Piece.isNoun, Summary.isAdj_foldl_addSegment h s hs]

theorem isNoun_of_mem_words_append {segments : List Segment} (l : Literal)
    (h : (Summary.ofSegments segments).isAdj = some true) :
    ∀ p ∈ segments.map Piece.word ++ [.literal l], p.isNoun = false := by
  intro p hp
  rcases List.mem_append.mp hp with hp | hp
  · exact isNoun_of_mem_words h p hp
  · rw [List.mem_singleton.mp hp]
    rfl

def segments (r : PlainRun) : List Segment := r.pieces.filterMap Piece.segment?

end PlainRun
end Declension
