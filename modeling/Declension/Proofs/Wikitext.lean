import Declension.Wikitext
import Mathlib.Data.List.TakeWhile

/-!
# Wikitext as it was written

Reading wikitext loses nothing. Main statements: `reads_read`, by which the items of a text make up
the text again, and `isIn_of_mem_allTemplates`, by which every template that is found stands in the
text as written, its name right behind its opening braces.
-/
namespace Declension.Wikitext

@[simp] theorem source_nil : source [] = [] := rfl

@[simp] theorem source_cons (i : Item) (l : List Item) : source (i :: l) = i.source ++ source l :=
  List.flatMap_cons

@[simp] theorem source_append (k l : List Item) : source (k ++ l) = source k ++ source l :=
  List.flatMap_append

@[simp] theorem source_plains (n : ℕ) (c : Char) : source (plains n c) = List.replicate n c := by
  induction n with
  | zero => rfl
  | succ n ih =>
    rw [plains, List.replicate_succ, source_cons, ← plains, ih]
    rfl

/-- The text of an argument or a link behind the bar, with the bar. -/
def barred : Option (List Item) → List Char
  | some l => '|' :: source l
  | none => []

theorem source_argumentItem (name : List Item) (text? : Option (List Item)) :
    (argumentItem name text?).source =
      ['\x7b', '\x7b', '\x7b'] ++ source name ++ barred text? ++ ['\x7d', '\x7d', '\x7d'] := by
  cases text? <;> rfl

theorem source_linkItem (title : List Item) (text? : Option (List Item)) :
    (linkItem title text?).source =
      ['[', '['] ++ source title ++ barred text? ++ [']', ']'] := by
  cases text? <;> rfl

theorem source_templateItem (name : List Item) (params : List RawParameter) :
    (templateItem name params).source =
      ['\x7b', '\x7b'] ++ source name ++ params.flatMap RawParameter.source ++ ['\x7d', '\x7d'] :=
  rfl

/-- A template stands in a text as written, its name behind the braces that open it. -/
def Template.IsIn (t : Template) (s : List Char) : Prop :=
  t.source <:+: s ∧ '\x7b' :: '\x7b' :: t.name <+: t.source

theorem Template.IsIn.mono {t : Template} {s u : List Char} (h : t.IsIn s) (hs : s <:+: u) :
    t.IsIn u :=
  ⟨h.1.trans hs, h.2⟩

/-- The templates that an item lists stand in it. -/
def Item.ListsOwn (i : Item) : Prop := ∀ t ∈ i.templates, t.IsIn i.source

theorem Item.listsOwn_plain (c : Char) : (Item.plain c).ListsOwn := fun _ h => nomatch h

theorem listsOwn_plains (n : ℕ) (c : Char) : ∀ i ∈ plains n c, i.ListsOwn := by
  intro i hi
  rw [List.eq_of_mem_replicate hi]
  exact Item.listsOwn_plain c

theorem infix_flatMap {α β : Type} {a : α} {l : List α} (h : a ∈ l) (f : α → List β) :
    f a <:+: l.flatMap f := by
  rw [List.flatMap_def]
  exact List.infix_of_mem_flatten (List.mem_map_of_mem h)

theorem isIn_of_mem_templates {l : List Item} (hl : ∀ i ∈ l, i.ListsOwn) {t : Template}
    (ht : t ∈ templates l) : t.IsIn (source l) := by
  obtain ⟨i, hi, ht⟩ := List.mem_flatMap.mp ht
  exact (hl i hi t ht).mono (infix_flatMap hi Item.source)

theorem isIn_of_mem_barred {front name back : List Char} {text? : Option (List Item)}
    (htext : ∀ i ∈ text?.getD [], i.ListsOwn) {t : Template} (ht : t ∈ templates (text?.getD [])) :
    t.IsIn (front ++ name ++ barred text? ++ back) := by
  cases text? with
  | none => cases ht
  | some l =>
    have hin : source l <:+: front ++ name ++ barred (some l) ++ back :=
      ⟨front ++ name ++ ['|'], back, by simp [barred]⟩
    exact (isIn_of_mem_templates htext ht).mono hin

theorem listsOwn_argumentItem {name : List Item} {text? : Option (List Item)}
    (hname : ∀ i ∈ name, i.ListsOwn) (htext : ∀ i ∈ text?.getD [], i.ListsOwn) :
    (argumentItem name text?).ListsOwn := by
  intro t ht
  rw [source_argumentItem]
  rcases List.mem_append.mp ht with ht | ht
  · exact (isIn_of_mem_templates hname ht).mono ⟨_, _, (List.append_assoc _ _ _).symm⟩
  · exact isIn_of_mem_barred htext ht

theorem listsOwn_linkItem {title : List Item} {text? : Option (List Item)}
    (htitle : ∀ i ∈ title, i.ListsOwn) (htext : ∀ i ∈ text?.getD [], i.ListsOwn) :
    (linkItem title text?).ListsOwn := by
  intro t ht
  rw [source_linkItem]
  rcases List.mem_append.mp ht with ht | ht
  · exact (isIn_of_mem_templates htitle ht).mono ⟨_, _, (List.append_assoc _ _ _).symm⟩
  · exact isIn_of_mem_barred htext ht

namespace RawParameter

/-- The templates that a parameter lists stand in its name and its value. -/
structure ListsOwn (p : RawParameter) : Prop where
  name : ∀ i ∈ p.name.getD [], i.ListsOwn
  value : ∀ i ∈ p.value, i.ListsOwn

theorem ListsOwn.isIn {p : RawParameter} (hp : p.ListsOwn) {t : Template}
    (ht : t ∈ p.templates) : t.IsIn p.source := by
  obtain ⟨name?, value⟩ := p
  cases name? with
  | none =>
    exact (isIn_of_mem_templates hp.value ht).mono (List.suffix_cons _ _).isInfix
  | some name =>
    rcases List.mem_append.mp ht with ht | ht
    · exact (isIn_of_mem_templates hp.name ht).mono
        ⟨['|'], '=' :: Wikitext.source value, by simp [source]⟩
    · exact (isIn_of_mem_templates hp.value ht).mono
        ⟨'|' :: Wikitext.source name ++ ['='], [], by simp [source]⟩

end RawParameter

theorem listsOwn_templateItem {name : List Item} {params : List RawParameter}
    (hname : ∀ i ∈ name, i.ListsOwn) (hparams : ∀ p ∈ params, p.ListsOwn) :
    (templateItem name params).ListsOwn := by
  intro t ht
  rw [source_templateItem]
  rcases List.mem_cons.mp ht with rfl | ht
  · exact ⟨List.infix_rfl, params.flatMap RawParameter.source ++ ['\x7d', '\x7d'], by simp⟩
  rcases List.mem_append.mp ht with ht | ht
  · exact (isIn_of_mem_templates hname ht).mono
      ⟨['\x7b', '\x7b'], params.flatMap RawParameter.source ++ ['\x7d', '\x7d'], by simp⟩
  · obtain ⟨p, hp, ht⟩ := List.mem_flatMap.mp ht
    have hin := infix_flatMap hp RawParameter.source
    exact ((hparams p hp).isIn ht).mono (hin.trans ⟨_, _, rfl⟩)

/-- Items with a text behind them, read from others with a text behind these: nothing is lost of
what is written, and templates are listed as they stand there. -/
structure Reads (k : List Item) (s : List Char) (l : List Item) (r : List Char) : Prop where
  text : source l ++ r = source k ++ s
  listsOwn : (∀ i ∈ k, i.ListsOwn) → ∀ i ∈ l, i.ListsOwn

namespace Reads
variable {j k l m : List Item} {s r u : List Char}

theorem refl (k : List Item) (s : List Char) : Reads k s k s := ⟨rfl, id⟩

theorem trans (h : Reads k s l r) (h' : Reads l r m u) : Reads k s m u :=
  ⟨h'.text.trans h.text, h'.listsOwn ∘ h.listsOwn⟩

theorem append_left (j : List Item) (h : Reads k s l r) : Reads (j ++ k) s (j ++ l) r where
  text := by simp [h.text]
  listsOwn hjk := by
    obtain ⟨hj, hk⟩ := List.forall_mem_append.mp hjk
    exact List.forall_mem_append.mpr ⟨hj, h.listsOwn hk⟩

theorem plains (n : ℕ) (c : Char) (s : List Char) :
    Reads [] (List.replicate n c ++ s) (plains n c) s where
  text := by simp
  listsOwn _ := listsOwn_plains n c

theorem templateItem {done name : List Item} {params : List RawParameter}
    (hs : s = source name ++ (params.flatMap RawParameter.source ++ '\x7d' :: '\x7d' :: r))
    (hname : ∀ i ∈ name, i.ListsOwn) (hparams : ∀ p ∈ params, p.ListsOwn) :
    Reads (Wikitext.plains 2 '\x7b' ++ done) s [Wikitext.templateItem (done ++ name) params] r where
  text := by
    rw [hs, source_cons, source_templateItem]
    simp
  listsOwn hdone := List.forall_mem_singleton.mpr <| listsOwn_templateItem
    (List.forall_mem_append.mpr ⟨(List.forall_mem_append.mp hdone).2, hname⟩) hparams

theorem argumentItem {done name : List Item} {text? : Option (List Item)}
    (hs : s = source name ++ (barred text? ++ '\x7d' :: '\x7d' :: '\x7d' :: r))
    (hname : ∀ i ∈ name, i.ListsOwn) (htext : ∀ i ∈ text?.getD [], i.ListsOwn) :
    Reads (Wikitext.plains 3 '\x7b' ++ done) s [Wikitext.argumentItem (done ++ name) text?] r where
  text := by
    rw [hs, source_cons, source_argumentItem]
    simp
  listsOwn hdone := List.forall_mem_singleton.mpr <| listsOwn_argumentItem
    (List.forall_mem_append.mpr ⟨(List.forall_mem_append.mp hdone).2, hname⟩) htext

theorem linkItem {title : List Item} {text? : Option (List Item)}
    (hs : s = source title ++ (barred text? ++ ']' :: ']' :: r))
    (htitle : ∀ i ∈ title, i.ListsOwn) (htext : ∀ i ∈ text?.getD [], i.ListsOwn) :
    Reads (Wikitext.plains 2 '[') s [Wikitext.linkItem title text?] r where
  text := by
    rw [hs, source_cons, source_linkItem]
    simp
  listsOwn _ := List.forall_mem_singleton.mpr (listsOwn_linkItem htitle htext)

theorem eq_of_nil (h : Reads [] s l r) : s = source l ++ r ∧ ∀ i ∈ l, i.ListsOwn :=
  ⟨h.text.symm, h.listsOwn (by simp)⟩

end Reads

theorem Place.endsAt_iff {p : Place} {s : List Char} :
    p.endsAt s ↔ ∃ w ∈ p.closers, w <+: s := by
  simp [endsAt]

theorem Place.endsAt_value {s : List Char} :
    Place.value.endsAt s ↔ (∃ r, s = '|' :: r) ∨ ∃ r, s = '\x7d' :: '\x7d' :: r := by
  have hbar : (∃ r, s = '|' :: r) ↔ ['|'] <+: s := exists_congr fun _ => eq_comm
  have hbraces : (∃ r, s = '\x7d' :: '\x7d' :: r) ↔ ['\x7d', '\x7d'] <+: s :=
    exists_congr fun _ => eq_comm
  simp [endsAt_iff, closers, hbar, hbraces]

theorem Place.endsAt_key {s : List Char} :
    Place.key.endsAt s ↔ (∃ r, s = '=' :: r) ∨ Place.value.endsAt s := by
  have hequals : (∃ r, s = '=' :: r) ↔ ['='] <+: s := exists_congr fun _ => eq_comm
  simp [endsAt_iff, closers, hequals, or_left_comm]

theorem Place.eq_closed {p : Place} {w s : List Char} (hp : p.closers = [w])
    (h : p.endsAt s) : s = w ++ s.drop w.length := by
  have hw : w <+: s := by simpa [endsAt_iff, hp] using h
  exact (List.prefix_iff_eq_append.mp hw).symm

theorem Place.eq_closed_of_not_barred {p : Place} {w s : List Char}
    (hp : p.closers = [['|'], w]) (h : p.endsAt s) (hbar : ∀ r, s ≠ '|' :: r) :
    s = w ++ s.drop w.length := by
  have hends : ['|'] <+: s ∨ w <+: s := by simpa [endsAt_iff, hp] using h
  rcases hends with ⟨r, hr⟩ | hw
  · exact absurd hr.symm (hbar r)
  · exact (List.prefix_iff_eq_append.mp hw).symm

/-- Where a list of items stops: a page at the end of the text, another place where it ends. -/
def Place.StopsAt (p : Place) (s : List Char) : Prop := p = .page ∧ s = [] ∨ p.endsAt s

theorem Place.StopsAt.endsAt {p : Place} {s : List Char} (h : p.StopsAt s) (hp : p ≠ .page) :
    p.endsAt s :=
  h.resolve_left fun hpage => hp hpage.1

/-- What the reader does up to a depth of `n` steps. -/
structure IsLossless (n : ℕ) : Prop where
  items : ∀ {room place guard done s failed page},
    (items n room place guard done s failed).1 = some page →
    Reads done.reverse s page.items page.rest ∧ place.StopsAt page.rest
  braces : ∀ room open_ done s failed,
    Reads (plains open_ '\x7b' ++ done) s
      (plains (braces n room open_ done s failed).1.plain '\x7b' ++
        (braces n room open_ done s failed).1.found)
      (braces n room open_ done s failed).1.rest
  template : ∀ {room done s failed i r}, (template n room done s failed).1 = some (i, r) →
    Reads (plains 2 '\x7b' ++ done) s [i] r
  parameters : ∀ {room s failed params r}, (parameters n room s failed).1 = some (params, r) →
    Place.value.endsAt s →
    s = params.flatMap RawParameter.source ++ '\x7d' :: '\x7d' :: r ∧ ∀ p ∈ params, p.ListsOwn
  argument : ∀ {room done s failed i r}, (argument n room done s failed).1 = some (i, r) →
    Reads (plains 3 '\x7b' ++ done) s [i] r
  link : ∀ {room s failed i r}, (link n room s failed).1 = some (i, r) →
    Reads (plains 2 '[') s [i] r

theorem andThen_eq_some {α β : Type} {x : Result α} {next : α → List Attempt → Result β} {b : β}
    (h : (andThen x next).1 = some b) : ∃ a, x.1 = some a ∧ (next a x.2).1 = some b := by
  obtain ⟨a?, failed⟩ := x
  cases a? with
  | none => cases h
  | some a => exact ⟨a, rfl, h⟩

theorem attempt_eq_some {α : Type} {a : Attempt} {read : List Attempt → Result α}
    {failed : List Attempt} {b : α} (h : (attempt a read failed).1 = some b) :
    (read failed).1 = some b := by
  unfold attempt at h
  split at h
  · cases h
  · split at h
    · cases h
    · exact h

theorem isLossless_zero : IsLossless 0 where
  items h := by simp [Wikitext.items] at h
  braces room open_ done s failed := by
    simp only [Wikitext.braces]
    exact .refl _ _
  template h := by simp [Wikitext.template] at h
  parameters h := by simp [Wikitext.parameters] at h
  argument h := by simp [Wikitext.argument] at h
  link h := by simp [Wikitext.link] at h

/-- A run of opening braces as it stands in the text. -/
theorem exists_run {s : List Char} (h : ['\x7b', '\x7b'].isPrefixOf s) (n : ℕ) :
    s = List.replicate ((((s.take n).drop 2).takeWhile (· = '\x7b')).length + 2) '\x7b' ++
      s.drop ((((s.take n).drop 2).takeWhile (· = '\x7b')).length + 2) := by
  obtain ⟨r, rfl⟩ := List.isPrefixOf_iff_prefix.mp h
  rw [List.drop_take, show (['\x7b', '\x7b'] ++ r).drop 2 = r from rfl]
  generalize hmore : (r.take (n - 2)).takeWhile _ = more
  have hall : more = List.replicate more.length '\x7b' := by
    refine List.eq_replicate_of_mem fun c hc => ?_
    rw [← hmore] at hc
    simpa using List.mem_takeWhile_imp hc
  obtain ⟨u, hu⟩ : more <+: r :=
    hmore ▸ (List.takeWhile_prefix _).trans (List.take_prefix _ r)
  rw [← hu]
  simp [List.replicate_succ, ← hall]

section Step
variable {n : ℕ} (ih : IsLossless n)
include ih

theorem reads_items {room : ℕ} {place : Place} {guard : Guard}
    {done : List Item} {s : List Char} {failed : List Attempt} {page : Section}
    (h : (items (n + 1) room place guard done s failed).1 = some page) :
    Reads done.reverse s page.items page.rest ∧ place.StopsAt page.rest := by
  rw [items.eq_def] at h
  dsimp only at h
  split at h
  · split at h
    · cases h
      exact ⟨.refl _ _, .inl ⟨‹_›, rfl⟩⟩
    · cases h
  next c r =>
  split at h
  · cases h
  next guard' _ =>
  split at h
  · cases h
    exact ⟨.refl _ _, .inr ‹_›⟩
  split at h
  next hopen =>
    have hrun := exists_run (Bool.and_eq_true_iff.mp hopen).2 longestRun
    generalize (List.takeWhile _ _).length + 2 = k at h hrun
    obtain ⟨hrest, hend⟩ := ih.items h
    refine ⟨?_, hend⟩
    have hbraces := ih.braces room k [] ((c :: r).drop k) failed
    rw [List.append_nil] at hbraces
    have hread := (Reads.plains k '\x7b' ((c :: r).drop k)).trans hbraces
    rw [← hrun] at hread
    simpa [plains] using (hread.append_left done.reverse).trans (by simpa [plains] using hrest)
  split at h
  next hlink =>
    obtain ⟨u, hu⟩ := List.isPrefixOf_iff_prefix.mp (Bool.and_eq_true_iff.mp hlink).2
    have hopened : Reads [] (c :: r) (plains 2 '[') u := hu ▸ Reads.plains 2 '[' u
    rw [show (c :: r).drop 2 = u by rw [← hu]; rfl] at h
    split at h
    next l rest failed' hl =>
      obtain ⟨hrest, hend⟩ := ih.items h
      have hread := hopened.trans (ih.link (congrArg Prod.fst hl))
      exact ⟨by simpa using (hread.append_left done.reverse).trans (by simpa using hrest), hend⟩
    next failed' _ =>
      obtain ⟨hrest, hend⟩ := ih.items h
      have hread := hopened.append_left done.reverse
      exact ⟨by simpa [plains] using hread.trans (by simpa [plains] using hrest), hend⟩
  · obtain ⟨hrest, hend⟩ := ih.items h
    have hread : Reads [] (c :: r) [.plain c] r := Reads.plains 1 c r
    exact ⟨by simpa using (hread.append_left done.reverse).trans (by simpa using hrest), hend⟩

theorem reads_braces (room open_ : ℕ) (done : List Item) (s : List Char) (failed : List Attempt) :
    Reads (plains open_ '\x7b' ++ done) s
      (plains (braces (n + 1) room open_ done s failed).1.plain '\x7b' ++
        (braces (n + 1) room open_ done s failed).1.found)
      (braces (n + 1) room open_ done s failed).1.rest := by
  have hsplit : ∀ k ≤ open_,
      plains open_ '\x7b' = plains (open_ - k) '\x7b' ++ plains k '\x7b' := by
    intro k hk
    rw [plains, plains, plains, List.replicate_append_replicate, Nat.sub_add_cancel hk]
  rw [braces.eq_def]
  dsimp only
  split
  next found rest failed' harg =>
    split at harg
    next hopen =>
      have hread := ih.argument (congrArg Prod.fst harg)
      rw [hsplit 3 hopen, List.append_assoc]
      exact (hread.append_left _).trans (ih.braces ..)
    · cases harg
  next failed' harg =>
  split
  next found rest failed'' htemplate =>
    split at htemplate
    next hopen =>
      have hread := ih.template (congrArg Prod.fst htemplate)
      rw [hsplit 2 hopen, List.append_assoc]
      exact (hread.append_left _).trans (ih.braces ..)
    · cases htemplate
  · exact .refl _ _

theorem reads_parameters {room : ℕ} {s r : List Char} {failed : List Attempt}
    {params : List RawParameter} (h : (parameters (n + 1) room s failed).1 = some (params, r))
    (hs : Place.value.endsAt s) :
    s = params.flatMap RawParameter.source ++ '\x7d' :: '\x7d' :: r ∧ ∀ p ∈ params, p.ListsOwn := by
  rcases Place.endsAt_value.mp hs with ⟨u, rfl⟩ | ⟨u, rfl⟩
  · simp only [parameters] at h
    obtain ⟨key, hkey, h⟩ := andThen_eq_some h
    obtain ⟨hread, hend⟩ := ih.items hkey
    obtain ⟨hkeytext, hkeylists⟩ := hread.eq_of_nil
    split at h
    next v hrest =>
      obtain ⟨value, hvalue, h⟩ := andThen_eq_some h
      obtain ⟨⟨more, rest⟩, hmore, h⟩ := andThen_eq_some h
      cases h
      obtain ⟨hreadValue, hendValue⟩ := ih.items hvalue
      obtain ⟨hvaluetext, hvaluelists⟩ := hreadValue.eq_of_nil
      obtain ⟨htext, hlists⟩ := ih.parameters hmore (hendValue.endsAt (by decide))
      refine ⟨?_, List.forall_mem_cons.mpr ⟨⟨hkeylists, hvaluelists⟩, hlists⟩⟩
      rw [hkeytext, hrest, hvaluetext, htext]
      simp [RawParameter.source]
    next hne =>
      obtain ⟨⟨more, rest⟩, hmore, h⟩ := andThen_eq_some h
      cases h
      have hend : Place.value.endsAt key.rest :=
        (Place.endsAt_key.mp (hend.endsAt (by decide))).resolve_left (not_exists.mpr hne)
      obtain ⟨htext, hlists⟩ := ih.parameters hmore hend
      refine ⟨?_, List.forall_mem_cons.mpr ⟨⟨by simp, hkeylists⟩, hlists⟩⟩
      rw [hkeytext, htext]
      simp [RawParameter.source]
  · simp [parameters] at h
    obtain ⟨rfl, rfl⟩ := h
    exact ⟨rfl, by simp⟩

theorem reads_template {room : ℕ} {done : List Item} {s r : List Char} {failed : List Attempt}
    {i : Item} (h : (template (n + 1) room done s failed).1 = some (i, r)) :
    Reads (plains 2 '\x7b' ++ done) s [i] r := by
  rw [template] at h
  obtain ⟨name, hname, h⟩ := andThen_eq_some (attempt_eq_some h)
  obtain ⟨hread, hend⟩ := ih.items hname
  obtain ⟨hnametext, hnamelists⟩ := hread.eq_of_nil
  split at h
  · cases h
  obtain ⟨⟨params, rest⟩, hparams, h⟩ := andThen_eq_some h
  cases h
  have hclosed : Place.templateName.endsAt name.rest := hend.endsAt (by decide)
  obtain ⟨htext, hlists⟩ := ih.parameters hparams hclosed
  exact .templateItem (hnametext.trans (congrArg _ htext)) hnamelists hlists

theorem reads_argument {room : ℕ} {done : List Item} {s r : List Char} {failed : List Attempt}
    {i : Item} (h : (argument (n + 1) room done s failed).1 = some (i, r)) :
    Reads (plains 3 '\x7b' ++ done) s [i] r := by
  rw [argument] at h
  obtain ⟨name, hname, h⟩ := andThen_eq_some (attempt_eq_some h)
  obtain ⟨hread, hend⟩ := ih.items hname
  obtain ⟨hnametext, hnamelists⟩ := hread.eq_of_nil
  split at h
  next v hrest =>
    obtain ⟨text, htext, h⟩ := andThen_eq_some h
    cases h
    obtain ⟨hreadText, hendText⟩ := ih.items htext
    obtain ⟨hv, hlists⟩ := hreadText.eq_of_nil
    have hclosed := Place.eq_closed rfl (hendText.endsAt (by decide))
    refine .argumentItem ?_ hnamelists hlists
    rw [hnametext, hrest, hv, hclosed]
    simp [barred]
  next hne =>
    cases h
    have hclosed := Place.eq_closed_of_not_barred rfl (hend.endsAt (by decide)) hne
    exact .argumentItem (hnametext.trans (congrArg _ hclosed)) hnamelists (by simp)

theorem reads_link {room : ℕ} {s r : List Char} {failed : List Attempt} {i : Item}
    (h : (link (n + 1) room s failed).1 = some (i, r)) : Reads (plains 2 '[') s [i] r := by
  rw [link] at h
  obtain ⟨title, htitle, h⟩ := andThen_eq_some (attempt_eq_some h)
  obtain ⟨hread, hend⟩ := ih.items htitle
  obtain ⟨htitletext, htitlelists⟩ := hread.eq_of_nil
  split at h
  next v hrest =>
    obtain ⟨text, htext, h⟩ := andThen_eq_some h
    cases h
    obtain ⟨hreadText, hendText⟩ := ih.items htext
    obtain ⟨hv, hlists⟩ := hreadText.eq_of_nil
    have hclosed := Place.eq_closed rfl (hendText.endsAt (by decide))
    refine .linkItem ?_ htitlelists hlists
    rw [htitletext, hrest, hv, hclosed]
    simp [barred]
  next hne =>
    cases h
    have hclosed := Place.eq_closed_of_not_barred rfl (hend.endsAt (by decide)) hne
    exact .linkItem (htitletext.trans (congrArg _ hclosed)) htitlelists (by simp)

end Step

theorem isLossless (n : ℕ) : IsLossless n := by
  induction n with
  | zero => exact isLossless_zero
  | succ n ih =>
    exact ⟨reads_items ih, reads_braces ih, reads_template ih, reads_parameters ih,
      reads_argument ih, reads_link ih⟩

/-- The items of a text make up the text, up to where it ends. -/
theorem reads_read (s : List Char) :
    source (read s) = s.takeWhile (· ≠ '\x00') ∧ ∀ i ∈ read s, i.ListsOwn := by
  unfold read
  dsimp only
  generalize s.takeWhile _ = u
  split
  next page hpage =>
    obtain ⟨hread, hend⟩ := (isLossless _).items hpage
    obtain ⟨htext, hlists⟩ := hread.eq_of_nil
    have hrest : page.rest = [] := (hend.resolve_right (by simp [Place.endsAt, Place.closers])).2
    exact ⟨by simpa [hrest] using htext.symm, hlists⟩
  next =>
    refine ⟨?_, fun i hi => ?_⟩
    · simp [source, Item.source, List.flatMap_map]
    · obtain ⟨c, _, rfl⟩ := List.mem_map.mp hi
      exact Item.listsOwn_plain c

theorem isIn_of_mem_allTemplates {s : List Char} {t : Template} (h : t ∈ allTemplates s) :
    t.IsIn s := by
  obtain ⟨htext, hlists⟩ := reads_read s
  have hin := isIn_of_mem_templates hlists h
  rw [htext] at hin
  exact hin.mono (List.takeWhile_prefix _).isInfix

end Declension.Wikitext
