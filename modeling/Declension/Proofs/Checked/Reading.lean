import Declension.Proofs.Checked.Access
import Declension.Proofs.Scan
import Declension.Run.Reader

/-!
# Runs read by places

A plain run is cut into one row of pieces: text, word, text, and so on. Words and the text before
them are read by their places in that row, the parts of a word by theirs, and what is read is looked
at once more before it is taken. Main statement: `readRun_refines`, by which no place is missing and
nothing is turned down.
-/
namespace Declension.Checked

/-- A text cut where something is recognised, all pieces in one row. -/
def splitAt (find : List Char → Option (List Char × ℕ)) (s : List Char) : List (List Char) :=
  let (front, found) := Text.cut find s
  front :: found.flatMap fun (piece, after) => [piece, after]

/-- The pieces of a plain run: at even places text, at odd ones words. -/
def wordPieces (s : List Char) : List (List Char) :=
  (splitAt findLinkedWord s).zipIdx.flatMap fun (chunk, place) =>
    if place % 2 = 1 then [chunk] else splitAt (findWord (s.head? = some '-')) chunk

/-- The stems of a word. -/
def readStems (stems : List Char) (text : String) : Except Crash (String × Option String) := do
  let fields := Text.fieldsChars '/' stems
  if 2 < fields.length then throw (.fault (.tooManyStems (String.ofList stems)))
  let word ← item fields 0
  if word.isEmpty then throw (.fault (.missingWord text))
  let oblique ← if 1 < fields.length then given <$> some <$> String.ofList <$> item fields 1
    else .ok none
  return (String.ofList word, oblique)

/-- Takes what is said of gender and number only if it is known. -/
def checkUse (gender : Option Gender) (num : Option NumberUse) : Except Crash Unit := do
  let _ ← valid Gender.ofLetter? (gender.map Gender.letter)
  let _ ← valid NumberUse.ofName? (num.map NumberUse.name)

/-- Reads one word with its specification. -/
def readSegment (t : Tables) (text : String) : Except Crash Segment := do
  let (stems, spec) ← match splitSpec? text.toList with
    | some parts => .ok parts
    | none => .error (.fault (.missingSpec text))
  let (linkedWord, oblique) ← readStems stems text
  let specs := Text.fieldsChars '.' spec
  let decl ← item specs 0
  let tags ← (specs.drop 1).mapM fun s => liftFault (readTag (String.ofList s))
  let word := Text.unlink linkedWord
  let s ← liftFault <|
    if '+' ∈ decl then
      adjectiveSegment t word linkedWord oblique (String.ofList (decl.filter (· ≠ '+')))
        (.ofList tags)
    else if decl.isEmpty then .error (.missingClass text)
    else nounSegment t word linkedWord oblique (String.ofList decl) (.ofList tags)
  checkUse s.gender (s.num.map NumberUse.ofNumber)
  return s

/-- Reads the word at a place of the row, with the text before it. -/
def readAt (t : Tables) (pieces : List (List Char)) (place : ℕ) : Except Crash Segment := do
  let l ← liftFault (readLiteral (← item pieces (place - 1)))
  let s ← readSegment t (String.ofList (← item pieces place))
  return { s with lead := l.text, linkedLead := l.linkedText }

/-- Reads a run without alternants. -/
def readPlain (t : Tables) (text : List Char) : Except Crash PlainRun := do
  let pieces := wordPieces text
  let segments ← (List.range' 1 (pieces.length / 2) 2).mapM (readAt t pieces)
  let last ← if pieces.length % 2 = 1 then lastItem pieces else .ok []
  let summary := Summary.ofSegments segments
  if last.isEmpty then
    checkUse summary.gender summary.num
    return ⟨segments.map .word, summary, PlainRun.isNoun_of_mem_words⟩
  else
    let l ← liftFault (readLiteral last)
    checkUse summary.gender summary.num
    return ⟨segments.map .word ++ [.literal l], summary, PlainRun.isNoun_of_mem_words_append l⟩

/-- Reads the branches of an alternant one after the other. -/
def readBranches (t : Tables) (done : Alternant) : List (List Char) → Except Crash Alternant
  | [] => do
    checkUse done.summary.gender done.summary.num
    return done
  | text :: rest => do
    let branch ← readPlain t text
    let summary ← liftFault (done.summary.addBranch branch.summary)
    readBranches t ⟨done.branches ++ [branch], summary⟩ rest

def readAlternant (t : Tables) (text : List Char) : Except Crash Alternant :=
  match alternantInside? text with
  | none => .error (.fault (.invalidAlternant (String.ofList text)))
  | some inside =>
    match Text.fieldsChars ',' inside with
    | [] => .ok ⟨[], {}⟩
    | first :: rest => do
      let branch ← readPlain t first
      readBranches t ⟨[branch], branch.summary⟩ rest

/-- Adds a plain part to a run; an empty one adds nothing. -/
def addPlain (t : Tables) (done : Run) (text : List Char) : Except Crash Run :=
  if text.isEmpty then .ok done
  else do
    let part ← readPlain t text
    return ⟨done.nodes ++ part.pieces.map .piece, done.summary.addPart part.summary⟩

def addAlternant (t : Tables) (done : Run) (part : List Char × List Char) :
    Except Crash Run := do
  let alternant ← readAlternant t part.1
  addPlain t ⟨done.nodes ++ [.alternant alternant], done.summary.addPart alternant.summary⟩ part.2

/-- Reads a run. -/
def readRun (t : Tables) (text : String) : Except Crash Run := do
  let chars := text.toList
  if Text.occurs ['(', '('] chars && !Text.occurs [')', ')'] chars then
    throw (.fault (.unterminatedAlternant text))
  let (front, parts) := Text.cut findAlternant chars
  let done ← addPlain t ⟨[], {}⟩ front
  let r ← parts.foldlM (addAlternant t) done
  checkUse r.summary.gender r.summary.num
  return r

section Pieces

/-- Words with the text before them, and the text after the last, in one row. -/
def row (cut : List (List Char × List Char) × List Char) : List (List Char) :=
  (cut.1.flatMap fun (lead, word) => [lead, word]) ++ [cut.2]

theorem row_pairUp (lead : List Char) (found : List (List Char × List Char)) :
    row (cutWords.pairUp lead found) =
      lead :: found.flatMap fun (piece, after) => [piece, after] := by
  induction found generalizing lead with
  | nil => rfl
  | cons pair found ih =>
    obtain ⟨word, after⟩ := pair
    have hrest := ih after
    rw [row] at hrest
    rw [cutWords.pairUp, row, List.flatMap_cons, List.flatMap_cons, List.append_assoc, hrest]
    rfl

theorem row_chunk (isSuffix : Bool) (s : List Char) :
    row (cutWords.chunk isSuffix s) = splitAt (findWord isSuffix) s :=
  row_pairUp _ _

/-- What stands between linked words is cut on its own. -/
theorem flatMap_zipIdx (cut : List Char → List (List Char)) (found : List (List Char × List Char))
    (k : ℕ) :
    ((found.flatMap fun (piece, after) => [piece, after]).zipIdx (2 * k + 1)).flatMap
        (fun (chunk, place) => if place % 2 = 1 then [chunk] else cut chunk) =
      found.flatMap fun (piece, after) => piece :: cut after := by
  induction found generalizing k with
  | nil => rfl
  | cons pair found ih =>
    have hrest := ih (k + 1)
    have hodd : (2 * k + 1) % 2 = 1 := by omega
    have heven : ¬ (2 * k + 1 + 1) % 2 = 1 := by omega
    rw [Nat.mul_add_one] at hrest
    simp only [List.flatMap_cons, List.cons_append, List.nil_append, List.zipIdx_cons,
      if_pos hodd, if_neg heven]
    rw [hrest]

theorem row_foldl_chunk (isSuffix : Bool) (found : List (List Char × List Char))
    (done : List (List Char × List Char) × List Char) :
    row (found.foldl (fun (done, lead) (word, between) =>
        let (words, after) := cutWords.chunk isSuffix between
        (done ++ (lead, word) :: words, after)) done) =
      row done ++ found.flatMap fun (word, between) =>
        word :: splitAt (findWord isSuffix) between := by
  induction found generalizing done with
  | nil => simp
  | cons pair found ih =>
    obtain ⟨words, lead⟩ := done
    obtain ⟨word, between⟩ := pair
    have hchunk := row_chunk isSuffix between
    rw [List.foldl_cons, ih, List.flatMap_cons, ← List.append_assoc]
    simp only [← hchunk]
    simp [row]

/-- The row of pieces is that of the words with the text before them. -/
theorem wordPieces_eq (s : List Char) : wordPieces s = row (cutWords s) := by
  unfold wordPieces cutWords
  rw [row_foldl_chunk, row_chunk, splitAt, List.zipIdx_cons, List.flatMap_cons]
  exact congrArg (_ ++ ·) (flatMap_zipIdx _ _ 0)

theorem length_row (cut : List (List Char × List Char) × List Char) :
    (row cut).length = 2 * cut.1.length + 1 := by
  have hwords : (cut.1.flatMap fun (lead, word) => [lead, word]).length = 2 * cut.1.length := by
    induction cut.1 with
    | nil => rfl
    | cons pair words ih =>
      rw [List.flatMap_cons, List.length_append, ih, List.length_cons]
      simp only [List.length_cons, List.length_nil]
      omega
  rw [row, List.length_append, hwords, List.length_singleton]

theorem lastItem_row (cut : List (List Char × List Char) × List Char) :
    lastItem (row cut) = .ok cut.2 :=
  lastItem_append _ _

/-- Going through the odd places of a row, behind pieces gone through already, meets every word with
the text before it. -/
theorem mapM_readAt_row (t : Tables) (words : List (List Char × List Char)) (last : List Char)
    (before : List (List Char)) :
    (List.range' (before.length + 1) words.length 2).mapM
        (readAt t (before ++ row (words, last))) =
      words.mapM fun (lead, word) => do
        let l ← liftFault (readLiteral lead)
        let s ← readSegment t (String.ofList word)
        return { s with lead := l.text, linkedLead := l.linkedText } := by
  induction words generalizing before with
  | nil => rfl
  | cons pair words ih =>
    obtain ⟨lead, word⟩ := pair
    have hrow : before ++ row ((lead, word) :: words, last) =
        (before ++ [lead, word]) ++ row (words, last) := by
      simp [row]
    have hrest := ih (before ++ [lead, word])
    rw [List.length_append] at hrest
    have hlead : item (before ++ row ((lead, word) :: words, last)) (before.length + 1 - 1) =
        .ok lead := by
      apply item_eq_ok
      simp [row]
    have hword : item (before ++ row ((lead, word) :: words, last)) (before.length + 1) =
        .ok word := by
      apply item_eq_ok
      simp [row]
    have hread : readAt t (before ++ row ((lead, word) :: words, last)) (before.length + 1) = do
        let l ← liftFault (readLiteral lead)
        let s ← readSegment t (String.ofList word)
        return { s with lead := l.text, linkedLead := l.linkedText } := by
      rw [readAt, hlead, hword]
      rfl
    rw [List.length_cons, List.range'_succ, List.mapM_cons, List.mapM_cons, hread, hrow]
    exact congrArg _ (funext fun s => congrArg (· >>= _) hrest)

end Pieces

section Reading
variable (t : Tables)

theorem checkUse_eq (gender : Option Gender) (num : Option NumberUse) :
    checkUse gender num = .ok () := by
  have hgender : valid Gender.ofLetter? (gender.map Gender.letter) = .ok gender :=
    valid_map (by intro g; cases g <;> decide) gender
  have hnum : valid NumberUse.ofName? (num.map NumberUse.name) = .ok num :=
    valid_map (by intro n; cases n <;> decide) num
  exact bind_eq_ok.mpr ⟨_, hgender, bind_eq_ok.mpr ⟨_, hnum, rfl⟩⟩

/-- What is looked at once more before it is taken is taken. -/
theorem refines_checkUse {α β : Type} {R : α → β → Prop} {x : Except Crash α} {y : Except Fault β}
    (h : Refines R x y) (gender : α → Option Gender) (num : α → Option NumberUse) :
    Refines R (x >>= fun a => checkUse (gender a) (num a) >>= fun _ => .ok a) y := by
  cases h with
  | ok hab => exact .bind_left (checkUse_eq _ _) (.ok hab)
  | error f => exact .error f

theorem readStems_refines (stems : List Char) (text : String) :
    Refines Eq (readStems stems text) (splitStems stems text) := by
  unfold readStems splitStems
  obtain ⟨word, rest, hfields, -⟩ := Text.exists_fieldsChars '/' stems
  rw [hfields]
  match word, rest with
  | [], [] => exact .error _
  | [], [_] => exact .error _
  | _ :: _, [] => exact .ok rfl
  | _ :: _, [_] => exact .ok rfl
  | [], _ :: _ :: _ => exact .error _
  | _ :: _, _ :: _ :: _ => exact .error _

theorem readSegment_refines (text : String) :
    Refines Eq (readSegment t text) (Segment.read t text) := by
  unfold readSegment Segment.read
  cases splitSpec? text.toList with
  | none => exact .error _
  | some parts =>
    obtain ⟨stems, spec⟩ := parts
    refine (readStems_refines stems text).bind_eq fun words => ?_
    obtain ⟨decl, specs, hspecs, -⟩ := Text.exists_fieldsChars '.' spec
    rw [hspecs]
    refine .bind_left (item_eq_ok rfl) ?_
    refine (Refines.mapM_eq (fun s => .refl (readTag (String.ofList s))) specs).bind_eq
      fun tags => ?_
    exact refines_checkUse (.refl _) Segment.gender fun s => s.num.map NumberUse.ofNumber

theorem readPlain_refines (text : List Char) :
    Refines Eq (readPlain t text) (PlainRun.read t text) := by
  unfold readPlain PlainRun.read
  simp only [wordPieces_eq]
  generalize cutWords text = cut
  obtain ⟨words, last⟩ := cut
  have hlength : (row (words, last)).length = 2 * words.length + 1 := length_row (words, last)
  have hcount : (row (words, last)).length / 2 = words.length := by omega
  have hodd : (row (words, last)).length % 2 = 1 := by omega
  have hwords := mapM_readAt_row t words last []
  rw [List.nil_append, List.length_nil, Nat.zero_add] at hwords
  rw [hcount, hwords]
  have hread : ∀ pair : List Char × List Char, Refines Eq
      (do
        let l ← liftFault (readLiteral pair.1)
        let s ← readSegment t (String.ofList pair.2)
        return { s with lead := l.text, linkedLead := l.linkedText })
      (readWord t pair.1 pair.2) := fun pair =>
    (Refines.refl (readLiteral pair.1)).bind_eq fun l =>
      (readSegment_refines t _).bind_eq fun s => .ok rfl
  refine (Refines.mapM_eq hread words).bind_eq fun segments => ?_
  rw [if_pos hodd, lastItem_row]
  refine .bind_left rfl ?_
  simp only [checkUse_eq]
  cases last with
  | nil => exact .ok rfl
  | cons c last => exact (Refines.refl (readLiteral (c :: last))).bind_eq fun l => .ok rfl

theorem readBranches_refines (done : Alternant) (texts : List (List Char)) :
    Refines Eq (readBranches t done texts) (Declension.readBranches t done texts) := by
  induction texts generalizing done with
  | nil =>
    rw [readBranches, checkUse_eq]
    exact .ok rfl
  | cons text texts ih =>
    exact (readPlain_refines t text).bind_eq fun branch =>
      (Refines.refl (done.summary.addBranch branch.summary)).bind_eq fun _ => ih _

theorem readAlternant_refines (text : List Char) :
    Refines Eq (readAlternant t text) (Alternant.read t text) := by
  unfold readAlternant Alternant.read
  cases alternantInside? text with
  | none => exact .error _
  | some inside =>
    obtain ⟨first, rest, hfields, -⟩ := Text.exists_fieldsChars ',' inside
    simp only [hfields]
    exact (readPlain_refines t first).bind_eq fun branch => readBranches_refines t _ rest

theorem addPlain_refines (done : Run) (text : List Char) :
    Refines Eq (addPlain t done text) (Declension.addPlain t done text) := by
  unfold addPlain Declension.addPlain
  cases text.isEmpty with
  | true => exact .ok rfl
  | false => exact (readPlain_refines t text).bind_eq fun _ => .ok rfl

theorem addAlternant_refines (done : Run) (part : List Char × List Char) :
    Refines Eq (addAlternant t done part) (Declension.addAlternant t done part) :=
  (readAlternant_refines t part.1).bind_eq fun _ => addPlain_refines t _ part.2

theorem readRun_refines (text : String) : Refines Eq (readRun t text) (Run.read t text) := by
  unfold readRun Run.read
  dsimp only
  split
  · exact .error _
  · have hparts : ∀ done parts, Refines Eq (List.foldlM (addAlternant t) done parts)
        (List.foldlM (Declension.addAlternant t) done parts) := by
      intro done parts
      refine .foldlM (List.forall₂_same.mpr ?_) rfl
      rintro part _ done _ rfl
      exact addAlternant_refines t done part
    exact (addPlain_refines t _ _).bind_eq fun done =>
      refines_checkUse (hparts done _) (fun r => r.summary.gender) fun r => r.summary.num

end Reading

end Declension.Checked
