/-!
What wikitext is made of: plain characters, links, template arguments in three braces, and
templates with their parameters. Every item knows how it is written.
-/
namespace Declension.Wikitext

/-- A parameter of a template: a value, with a name or without. -/
structure Parameter where
  name : Option (List Char)
  value : List Char
  deriving DecidableEq, Repr

structure Template where
  /-- The whole template as written. -/
  source : List Char
  name : List Char
  params : List Parameter
  deriving DecidableEq, Repr

/-- An item of a text; the templates inside it are listed in the order of the text. -/
inductive Item where
  | plain (c : Char)
  | link (source : List Char) (inner : List Template)
  | argument (source : List Char) (inner : List Template)
  | template (t : Template) (inner : List Template)
  deriving DecidableEq, Repr

namespace Item

def source : Item → List Char
  | plain c => [c]
  | link source _ => source
  | argument source _ => source
  | template t _ => t.source

/-- The template that the item is. -/
def template? : Item → Option Template
  | template t _ => some t
  | _ => none

/-- All templates of an item, an outer one before those inside it. -/
def templates : Item → List Template
  | plain _ => []
  | link _ inner => inner
  | argument _ inner => inner
  | template t inner => t :: inner

end Item

def source (items : List Item) : List Char := items.flatMap Item.source

def templates (items : List Item) : List Template := items.flatMap Item.templates

def plains (n : Nat) (c : Char) : List Item := List.replicate n (.plain c)

/-- A parameter as read, not yet without its items. -/
structure RawParameter where
  name : Option (List Item)
  value : List Item

namespace RawParameter

def source (p : RawParameter) : List Char :=
  match p.name with
  | some name => '|' :: Wikitext.source name ++ '=' :: Wikitext.source p.value
  | none => '|' :: Wikitext.source p.value

def templates (p : RawParameter) : List Template :=
  Wikitext.templates (p.name.getD []) ++ Wikitext.templates p.value

def parameter (p : RawParameter) : Parameter :=
  ⟨p.name.map Wikitext.source, Wikitext.source p.value⟩

end RawParameter

/-- A template with its name and parameters. -/
def templateItem (name : List Item) (params : List RawParameter) : Item :=
  .template
    { source := ['\x7b', '\x7b'] ++ source name ++ params.flatMap RawParameter.source
        ++ ['\x7d', '\x7d']
      name := source name
      params := params.map RawParameter.parameter }
    (templates name ++ params.flatMap RawParameter.templates)

/-- An argument with its name and what stands behind the bar. -/
def argumentItem (name : List Item) (default? : Option (List Item)) : Item :=
  .argument
    (['\x7b', '\x7b', '\x7b'] ++ source name ++ (match default? with
      | some items => '|' :: source items
      | none => []) ++ ['\x7d', '\x7d', '\x7d'])
    (templates name ++ templates (default?.getD []))

/-- A link with its title and its text. -/
def linkItem (title : List Item) (text? : Option (List Item)) : Item :=
  .link
    (['[', '['] ++ source title ++ (match text? with
      | some items => '|' :: source items
      | none => []) ++ [']', ']'])
    (templates title ++ templates (text?.getD []))

end Declension.Wikitext
