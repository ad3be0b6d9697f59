import Declension.Wikitext.Guard
import Declension.Wikitext.Item
import Declension.Wikitext.Library

/-!
Reading wikitext. What stands inside brackets of one kind is closed before the brackets around it;
brackets that do not close, or whose inside does not fit, are plain text. Brackets are recognised
to a limited depth only, and a place that was tried in vain is not tried again. Brackets are all
the markup that is read: anything else counts as plain text.
-/
namespace Declension.Wikitext

/-- A place that was tried in vain: the length of the text from there on, and what was tried.
For the name of a template, whether braces before it already belong to it. -/
structure Attempt where
  left : Nat
  place : Place
  hasBraces : Bool := false
  deriving DecidableEq, Repr

/-- What was read, if it fits, and the attempts that were in vain so far. -/
abbrev Result (α : Type) := Option α × List Attempt

/-- Tries what was not tried in vain before. -/
def attempt {α : Type} (a : Attempt) (read : List Attempt → Result α) (failed : List Attempt) :
    Result α :=
  if a ∈ failed then (none, failed)
  else match read failed with
    | (none, failed) => (none, a :: failed)
    | found => found

/-- Goes on behind what was read. -/
def andThen {α β : Type} (r : Result α) (next : α → List Attempt → Result β) : Result β :=
  match r with
  | (some a, failed) => next a failed
  | (none, failed) => (none, failed)

/-- The items of a place, what they say about the text behind them, and that text. -/
structure Section where
  items : List Item
  guard : Guard
  rest : List Char

/-- What braces hold: how many of them open nothing, the item that the others open, and the text
behind it. -/
structure Braced where
  plain : Nat
  found : List Item
  rest : List Char

/-- The longest run of opening braces that is read as one. -/
def longestRun : Nat := 255

mutual

/-- Reads items up to what ends the place; `done` holds the items read so far, last first, and
`room` tells how much deeper brackets may go. -/
def items : Nat → Nat → Place → Guard → List Item → List Char → List Attempt → Result Section
  | 0, _, _, _, _, _, failed => (none, failed)
  | fuel + 1, room, place, guard, done, s, failed =>
    match s with
    | [] => (if place = .page then some ⟨done.reverse, guard, []⟩ else none, failed)
    | c :: r =>
      match guard.pass place c with
      | none => (none, failed)
      | some guard =>
        if place.endsAt s then (some ⟨done.reverse, guard, s⟩, failed)
        else if 0 < room && ['\x7b', '\x7b'].isPrefixOf s then
          let more := ((s.take longestRun).drop 2).takeWhile (· = '\x7b')
          let n := more.length + 2
          let (b, failed) := braces fuel room n [] (s.drop n) failed
          items fuel room place (guard.afterBraces b.plain (!b.found.isEmpty))
            (b.found.reverse ++ plains b.plain '\x7b' ++ done) b.rest failed
        else if 0 < room && place.hasLinks && ['[', '['].isPrefixOf s then
          match link fuel (room - 1) (s.drop 2) failed with
          | (some (l, rest), failed) =>
            items fuel room place guard.afterLink (l :: done) rest failed
          | (none, failed) =>
            items fuel room place guard.afterLink (plains 2 '[' ++ done) (s.drop 2) failed
        else items fuel room place (guard.after c) (.plain c :: done) r failed

/-- Reads behind `open_` opening braces: an argument if there are three, else a template. What was
read starts the name of what the braces before it open. -/
def braces : Nat → Nat → Nat → List Item → List Char → List Attempt → Braced × List Attempt
  | 0, _, open_, done, s, failed => (⟨open_, done, s⟩, failed)
  | fuel + 1, room, open_, done, s, failed =>
    match if 3 ≤ open_ then argument fuel room done s failed else (none, failed) with
    | (some (found, rest), failed) => braces fuel room (open_ - 3) [found] rest failed
    | (none, failed) =>
      match if 2 ≤ open_ then template fuel room done s failed else (none, failed) with
      | (some (found, rest), failed) => braces fuel room (open_ - 2) [found] rest failed
      | (none, failed) => (⟨open_, done, s⟩, failed)

/-- Reads a template behind its opening braces; its name starts with the items `done`. -/
def template : Nat → Nat → List Item → List Char → List Attempt → Result (Item × List Char)
  | 0, _, _, _, failed => (none, failed)
  | fuel + 1, room, done, s, failed =>
    attempt ⟨s.length, .templateName, !done.isEmpty⟩ (fun failed =>
      andThen (items fuel (room - 2) .templateName { hasBraces := !done.isEmpty } [] s failed)
        fun name failed =>
          if !name.guard.isName then (none, failed)
          else andThen (parameters fuel room name.rest failed) fun (params, rest) failed =>
            (some (templateItem (done ++ name.items) params, rest), failed)) failed

/-- Reads the parameters of a template and its closing braces. -/
def parameters :
    Nat → Nat → List Char → List Attempt → Result (List RawParameter × List Char)
  | 0, _, _, failed => (none, failed)
  | fuel + 1, room, s, failed =>
    match s with
    | '|' :: r =>
      andThen (items fuel (room - 3) .key {} [] r failed) fun key failed =>
        match key.rest with
        | '=' :: r =>
          andThen (items fuel (room - 2) .value {} [] r failed) fun value failed =>
            andThen (parameters fuel room value.rest failed) fun (more, rest) failed =>
              (some (⟨some key.items, value.items⟩ :: more, rest), failed)
        | _ =>
          andThen (parameters fuel room key.rest failed) fun (more, rest) failed =>
            (some (⟨none, key.items⟩ :: more, rest), failed)
    | _ => (some ([], s.drop 2), failed)

/-- Reads a template argument behind its opening braces; its name starts with the items `done`. -/
def argument : Nat → Nat → List Item → List Char → List Attempt → Result (Item × List Char)
  | 0, _, _, _, failed => (none, failed)
  | fuel + 1, room, done, s, failed =>
    attempt ⟨s.length, .argumentName, false⟩ (fun failed =>
      let guard : Guard := { braces := if done.isEmpty then 3 else 0 }
      andThen (items fuel (room - 2) .argumentName guard [] s failed) fun name failed =>
        match name.rest with
        | '|' :: r =>
          andThen (items fuel (room - 2) .argumentDefault {} [] r failed) fun default failed =>
            (some (argumentItem (done ++ name.items) (some default.items),
              default.rest.drop 3), failed)
        | _ => (some (argumentItem (done ++ name.items) none, name.rest.drop 3), failed)) failed

/-- Reads a link behind its opening brackets. -/
def link : Nat → Nat → List Char → List Attempt → Result (Item × List Char)
  | 0, _, _, failed => (none, failed)
  | fuel + 1, room, s, failed =>
    attempt ⟨s.length, .linkTitle, false⟩ (fun failed =>
      andThen (items fuel room .linkTitle {} [] s failed) fun title failed =>
        match title.rest with
        | '|' :: r =>
          andThen (items fuel room .linkText {} [] r failed) fun text failed =>
            (some (linkItem title.items (some text.items), text.rest.drop 2), failed)
        | _ => (some (linkItem title.items none, title.rest.drop 2), failed)) failed

end

/-- How much deeper than a page brackets may go: a link takes one, a template or argument two, and
a parameter without a name, or before its equals sign, three. -/
def depth : Nat := 99

/-- The items of a text, which ends at the first null character. Every step of the reader takes a
character or a pair of brackets, so twice the length of the text suffices. -/
def read (s : List Char) : List Item :=
  let s := s.takeWhile (· ≠ '\x00')
  match (items (2 * s.length + 2) depth .page {} [] s []).1 with
  | some page => page.items
  | none => s.map .plain

/-- The templates of a text that stand in no link, argument or other template. -/
def outerTemplates (s : List Char) : List Template := (read s).filterMap Item.template?

/-- All templates of a text, an outer one before those inside it. -/
def allTemplates (s : List Char) : List Template := templates (read s)

/-- Parameters as a library tells them; those without a name are numbered from `next` on. -/
def numbered (next : Nat) : List Parameter → List Field
  | [] => []
  | ⟨some name, value⟩ :: rest =>
    ⟨String.ofList name, String.ofList value, true⟩ :: numbered next rest
  | ⟨none, value⟩ :: rest => ⟨toString next, String.ofList value, false⟩ :: numbered (next + 1) rest

def Template.call (t : Template) : Call where
  source := String.ofList t.source
  name := String.ofList t.name
  fields := numbered 1 t.params

/-- This reader as a library. -/
@[reducible] def reader : Library where
  outerCalls text := (outerTemplates text.toList).map Template.call
  allCalls text := (allTemplates text.toList).map Template.call

end Declension.Wikitext
