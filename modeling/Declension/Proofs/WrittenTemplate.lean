import Declension.Proofs.Dispatch
import Declension.Proofs.Wikitext

/-!
# Templates as they are written

A template is written as its name and its parameters between braces, each parameter behind a bar.
Main statement: `Arguments.read_template`, by which reading a text in which the library finds such a
template gives back its arguments: the name under zero, a parameter without a name under its number,
and a named one, trimmed, under its name; of several for one key the first tells the place and the
last the value.
-/
namespace Declension

namespace Wikitext

/-- None of some characters stands in a text. -/
def IsFreeOf (bad u : List Char) : Prop := ∀ c ∈ u, c ∉ bad

instance (bad u : List Char) : Decidable (IsFreeOf bad u) := List.decidableBAll _ _

theorem isFreeOf_cons {bad u : List Char} {c : Char} :
    IsFreeOf bad (c :: u) ↔ c ∉ bad ∧ IsFreeOf bad u :=
  List.forall_mem_cons

theorem isFreeOf_append {bad u v : List Char} :
    IsFreeOf bad (u ++ v) ↔ IsFreeOf bad u ∧ IsFreeOf bad v :=
  List.forall_mem_append

theorem IsFreeOf.anti {bad worse u : List Char} (h : IsFreeOf worse u) (hbad : bad ⊆ worse) :
    IsFreeOf bad u :=
  fun c hc hmem => h c hc (hbad hmem)

theorem IsFreeOf.sublist {bad u v : List Char} (h : IsFreeOf bad u) (hv : v.Sublist u) :
    IsFreeOf bad v :=
  fun c hc => h c (hv.subset hc)

/-- The characters with which an end of a place begins. -/
def Place.ends (p : Place) : List Char := p.closers.filterMap List.head?

/-- The characters that are not plain text in a place: brackets, what begins an end of the place,
and where no link may stand, angle brackets and line breaks. -/
def Place.reserved (p : Place) : List Char :=
  ['\x7b', '\x7d', '[', ']'] ++ p.ends ++ if p.hasLinks then [] else ['<', '>', '\n']

theorem Place.ne_of_not_mem_reserved {p : Place} {c : Char} (hc : c ∉ p.reserved) :
    c ≠ '\x7b' ∧ c ≠ '[' := by
  simp only [reserved, List.mem_append, List.mem_cons, not_or] at hc
  exact ⟨hc.1.1.1, hc.1.1.2.2.1⟩

theorem Place.ne_nil_of_mem_closers (p : Place) : ∀ w ∈ p.closers, w ≠ [] := by
  cases p <;> decide

theorem Place.exists_of_endsAt {p : Place} {s : List Char} (h : p.endsAt s) :
    ∃ c ∈ p.ends, ∃ r, s = c :: r := by
  obtain ⟨w, hw, r, rfl⟩ := endsAt_iff.mp h
  obtain ⟨c, w, rfl⟩ := List.exists_cons_of_ne_nil (p.ne_nil_of_mem_closers w hw)
  exact ⟨c, List.mem_filterMap.mpr ⟨_, hw, rfl⟩, w ++ r, rfl⟩

theorem Place.not_endsAt_cons {p : Place} {c : Char} (hc : c ∉ p.reserved) (s : List Char) :
    ¬ p.endsAt (c :: s) := by
  intro h
  obtain ⟨d, hd, r, heq⟩ := exists_of_endsAt h
  obtain ⟨rfl, rfl⟩ := List.cons.inj heq
  exact hc (by simp [reserved, hd])

/-- The guard behind plain text, which may have given the name of a template its text. -/
def Guard.plain (hasText : Bool) : Guard := { hasText }

theorem Guard.pass_plain {p : Place} {c : Char} (hc : c ∉ p.reserved) (b : Bool) :
    (Guard.plain b).pass p c =
      some (Guard.plain (b || (p = .templateName && !Text.isBlank c))) := by
  cases p <;> cases b <;>
    simp [Place.reserved, Place.ends, Place.closers, Place.hasLinks] at hc <;>
    simp [Guard.pass, Guard.plain, passName, passTitle, passKey, hc]

theorem Guard.after_plain {p : Place} {c : Char} (hc : c ∉ p.reserved) (b : Bool) :
    (Guard.plain b).after c = Guard.plain b := by
  simp [after, plain, (Place.ne_of_not_mem_reserved hc).1]

theorem Guard.pass_end (p : Place) (b : Bool) :
    ∀ c ∈ p.ends, ∃ g, (Guard.plain b).pass p c = some g ∧ g.hasText = b := by
  cases p <;>
    simp [Place.ends, Place.closers, Guard.pass, Guard.plain, passName, passTitle, passKey]

variable {n room : ℕ} {p : Place} {b : Bool} {done : List Item} {failed : List Attempt}

theorem items_cons {c : Char} (hc : c ∉ p.reserved) (s : List Char) :
    items (n + 1) room p (.plain b) done (c :: s) failed =
      items n room p (.plain (b || (p = .templateName && !Text.isBlank c))) (.plain c :: done) s
        failed := by
  obtain ⟨hbrace, hbracket⟩ := Place.ne_of_not_mem_reserved hc
  rw [items]
  simp [Guard.pass_plain hc, Guard.after_plain hc, Place.not_endsAt_cons hc, hbrace.symm,
    hbracket.symm]

/-- Plain text is read character by character. -/
theorem items_append {u : List Char} (hu : IsFreeOf p.reserved u) (s : List Char) :
    items (u.length + n) room p (.plain b) done (u ++ s) failed =
      items n room p (.plain (b || (p = .templateName && u.any (!Text.isBlank ·))))
        ((u.map .plain).reverse ++ done) s failed := by
  induction u generalizing b done with
  | nil => simp
  | cons c u ih =>
    obtain ⟨hc, hrest⟩ := isFreeOf_cons.mp hu
    rw [List.length_cons, Nat.add_right_comm, List.cons_append, items_cons hc, ih hrest]
    simp [Bool.and_or_distrib_left, Bool.or_assoc]

/-- A place that holds plain text only is read up to its end. -/
theorem items_section (n room : ℕ) (failed : List Attempt) {u s : List Char}
    (hu : IsFreeOf p.reserved u) (hs : p.endsAt s) (hn : u.length < n) :
    ∃ g, items n room p {} [] (u ++ s) failed = (some ⟨u.map .plain, g, s⟩, failed) ∧
      g.hasText = (p = .templateName && u.any (!Text.isBlank ·)) := by
  obtain ⟨k, rfl⟩ := Nat.exists_eq_add_of_lt hn
  obtain ⟨c, hc, r, rfl⟩ := Place.exists_of_endsAt hs
  obtain ⟨g, hg, htext⟩ := Guard.pass_end p (p = .templateName && u.any (!Text.isBlank ·)) c hc
  refine ⟨g, ?_, htext⟩
  rw [show ({} : Guard) = .plain false from rfl, Nat.add_assoc, items_append hu, items]
  simp [hg, hs]

theorem items_last {u : List Char} (hu : IsFreeOf Place.page.reserved u) :
    items (u.length + (n + 1)) room .page (.plain b) done u failed =
      (some ⟨done.reverse ++ u.map .plain, .plain b, []⟩, failed) := by
  have hread : items (u.length + (n + 1)) room .page (.plain b) done (u ++ []) failed = _ :=
    items_append hu []
  rw [List.append_nil] at hread
  rw [hread, items]
  simp

@[simp] theorem source_map_plain (u : List Char) : source (u.map .plain) = u := by
  simp [source, Item.source, List.flatMap_map]

/-- Text on one line that opens, closes and parts nothing. -/
def IsInline (u : List Char) : Prop :=
  IsFreeOf ['\x7b', '\x7d', '[', ']', '|', '=', '\r', '\n', '\x00'] u

instance (u : List Char) : Decidable (IsInline u) := inferInstanceAs (Decidable (IsFreeOf _ u))

namespace Parameter

/-- A parameter as it is written. -/
def source (p : Parameter) : List Char :=
  match p.name with
  | some name => '|' :: name ++ '=' :: p.value
  | none => '|' :: p.value

structure IsInline (p : Parameter) : Prop where
  name : ∀ name ∈ p.name, Wikitext.IsInline name
  value : Wikitext.IsInline p.value

instance (p : Parameter) : Decidable p.IsInline :=
  decidable_of_iff ((∀ name ∈ p.name, Wikitext.IsInline name) ∧ Wikitext.IsInline p.value)
    ⟨fun h => ⟨h.1, h.2⟩, fun h => ⟨h.name, h.value⟩⟩

/-- A parameter as read, character by character. -/
def raw (p : Parameter) : RawParameter := ⟨p.name.map (·.map .plain), p.value.map .plain⟩

@[simp] theorem source_raw (p : Parameter) : p.raw.source = p.source := by
  obtain ⟨name?, value⟩ := p
  cases name? <;> simp [raw, source, RawParameter.source]

@[simp] theorem parameter_raw (p : Parameter) : p.raw.parameter = p := by
  obtain ⟨name?, value⟩ := p
  cases name? <;> simp [raw, RawParameter.parameter]

end Parameter

theorem endsAt_parameters (params : List Parameter) (r : List Char) :
    Place.value.endsAt (params.flatMap Parameter.source ++ '\x7d' :: '\x7d' :: r) := by
  rw [Place.endsAt_value]
  cases params with
  | nil => exact .inr ⟨r, rfl⟩
  | cons p params =>
    obtain ⟨name?, value⟩ := p
    cases name? <;> exact .inl ⟨_, rfl⟩

theorem parameters_written {n : ℕ} (room : ℕ) (failed : List Attempt) {params : List Parameter}
    (h : ∀ p ∈ params, p.IsInline) (r : List Char)
    (hn : (params.flatMap Parameter.source).length < n) :
    parameters n room (params.flatMap Parameter.source ++ '\x7d' :: '\x7d' :: r) failed =
      (some (params.map Parameter.raw, r), failed) := by
  induction params generalizing n with
  | nil =>
    obtain ⟨n, rfl⟩ := Nat.exists_eq_succ_of_ne_zero (Nat.ne_of_gt hn)
    simp [parameters]
  | cons p params ih =>
    obtain ⟨hp, hrest⟩ := List.forall_mem_cons.mp h
    obtain ⟨n, rfl⟩ := Nat.exists_eq_succ_of_ne_zero (Nat.ne_zero_of_lt hn)
    have hend := endsAt_parameters params r
    rw [List.flatMap_cons, List.length_append] at hn
    rw [List.flatMap_cons, List.append_assoc]
    obtain ⟨name?, value⟩ := p
    have hvalue : IsInline value := hp.value
    cases name? with
    | none =>
      simp only [Parameter.source, List.length_cons] at hn
      have hkeyEnd := Place.endsAt_key.mpr (.inr hend)
      obtain ⟨g, hkey, -⟩ := items_section n (room - 3) failed
        (hvalue.anti (by decide)) hkeyEnd (by omega)
      simp only [Parameter.source, List.cons_append, parameters, hkey, andThen]
      split
      next v hv =>
        rcases Place.endsAt_value.mp hend with ⟨u, hu⟩ | ⟨u, hu⟩ <;> cases hv.symm.trans hu
      next =>
        rw [ih hrest (by omega)]
        rfl
    | some name =>
      simp only [Parameter.source, List.length_cons, List.length_append] at hn
      have hkeyEnd := Place.endsAt_key.mpr
        (.inl ⟨value ++ (params.flatMap Parameter.source ++ '\x7d' :: '\x7d' :: r), rfl⟩)
      obtain ⟨g, hkey, -⟩ := items_section n (room - 3) failed
        ((hp.name name rfl).anti (by decide)) hkeyEnd (by omega)
      obtain ⟨g', hread, -⟩ := items_section n (room - 2) failed
        (hvalue.anti (by decide)) hend (by omega)
      simp only [Parameter.source, List.cons_append, List.append_assoc, parameters, hkey, hread,
        andThen]
      rw [ih hrest (by omega)]
      rfl

/-- A template as it is written. -/
def writtenTemplate (name : List Char) (params : List Parameter) : List Char :=
  '\x7b' :: '\x7b' :: name ++ params.flatMap Parameter.source ++ ['\x7d', '\x7d']

/-- The name of a template that is more than white space and holds no angle brackets either. -/
structure IsName (name : List Char) : Prop where
  inline : IsInline name
  unangled : IsFreeOf ['<', '>'] name
  visible : name.any (!Text.isBlank ·)

instance (name : List Char) : Decidable (IsName name) :=
  decidable_of_iff
    (IsInline name ∧ IsFreeOf ['<', '>'] name ∧ name.any (!Text.isBlank ·))
    ⟨fun h => ⟨h.1, h.2.1, h.2.2⟩, fun h => ⟨h.inline, h.unangled, h.visible⟩⟩

theorem IsName.isFreeOf_reserved {name : List Char} (h : IsName name) :
    IsFreeOf Place.templateName.reserved name := by
  have hreserved : Place.templateName.reserved ⊆
      ['\x7b', '\x7d', '[', ']', '|', '=', '\r', '\n', '\x00'] ++ ['<', '>'] := by
    decide
  intro c hc hmem
  rcases List.mem_append.mp (hreserved hmem) with hbad | hbad
  · exact h.inline c hc hbad
  · exact h.unangled c hc hbad

/-- The item that a written template is read as. -/
def writtenItem (name : List Char) (params : List Parameter) : Item :=
  templateItem (name.map .plain) (params.map Parameter.raw)

@[simp] theorem template?_writtenItem (name : List Char) (params : List Parameter) :
    (writtenItem name params).template? = some ⟨writtenTemplate name params, name, params⟩ := by
  have hparams : params.map (RawParameter.parameter ∘ Parameter.raw) = params :=
    List.map_id'' Parameter.parameter_raw params
  simp [writtenItem, templateItem, Item.template?, writtenTemplate, List.flatMap_map, hparams]

theorem attempt_of_read {α : Type} {a : Attempt} {read : List Attempt → Result α}
    {failed failed' : List Attempt} {b : α} (ha : a ∉ failed)
    (h : read failed = (some b, failed')) : attempt a read failed = (some b, failed') := by
  rw [attempt, if_neg ha, h]

theorem template_written {n : ℕ} (room : ℕ) {name : List Char} (hname : IsName name)
    {params : List Parameter} (hparams : ∀ p ∈ params, p.IsInline) (r : List Char)
    (hn : name.length + (params.flatMap Parameter.source).length + 1 < n) :
    template n room [] (name ++ (params.flatMap Parameter.source ++ '\x7d' :: '\x7d' :: r)) [] =
      (some (writtenItem name params, r), []) := by
  obtain ⟨n, rfl⟩ := Nat.exists_eq_succ_of_ne_zero (Nat.ne_zero_of_lt hn)
  have hend : Place.templateName.endsAt
      (params.flatMap Parameter.source ++ '\x7d' :: '\x7d' :: r) :=
    endsAt_parameters params r
  obtain ⟨g, hread, htext⟩ := items_section n (room - 2) [] hname.isFreeOf_reserved hend (by omega)
  have hvisible : g.isName := by simp [Guard.isName, htext, hname.visible]
  have hparameters := parameters_written (n := n) room [] hparams r (by omega)
  rw [template]
  refine attempt_of_read (by simp) ?_
  have hstart : ({ hasBraces := !([] : List Item).isEmpty } : Guard) = {} := rfl
  rw [hstart, hread]
  simp only [andThen, hvisible, hparameters]
  rfl

theorem braces_written {n : ℕ} (room : ℕ) {name : List Char} (hname : IsName name)
    {params : List Parameter} (hparams : ∀ p ∈ params, p.IsInline) (r : List Char)
    (hn : name.length + (params.flatMap Parameter.source).length + 2 < n) :
    braces n room 2 [] (name ++ (params.flatMap Parameter.source ++ '\x7d' :: '\x7d' :: r)) [] =
      (⟨0, [writtenItem name params], r⟩, []) := by
  obtain ⟨n, rfl⟩ : ∃ k, n = k + 2 := ⟨n - 2, by omega⟩
  have htemplate := template_written (n := n + 1) room hname hparams r (by omega)
  simp [braces, htemplate]

theorem items_braces {c : Char} (hc : c ≠ '\x7b') {w r : List Char} {i : Item}
    (h : braces n (room + 1) 2 [] (c :: w) failed = (⟨0, [i], r⟩, failed)) :
    items (n + 1) (room + 1) .page (.plain b) done ('\x7b' :: '\x7b' :: c :: w) failed =
      items n (room + 1) .page (.plain b) (i :: done) r failed := by
  rw [items]
  simp [Guard.pass, Guard.afterBraces, Guard.plain, Place.endsAt, Place.closers, longestRun, plains,
    hc, h]

theorem items_written {name : List Char} (hname : IsName name) {params : List Parameter}
    (hparams : ∀ p ∈ params, p.IsInline) {before after : List Char}
    (hbefore : IsFreeOf Place.page.reserved before) (hafter : IsFreeOf Place.page.reserved after)
    (hn : (before ++ (writtenTemplate name params ++ after)).length < n) :
    (items n (room + 1) .page {} [] (before ++ (writtenTemplate name params ++ after)) []).1 =
      some ⟨before.map .plain ++ writtenItem name params :: after.map .plain, {}, []⟩ := by
  simp only [writtenTemplate, List.length_append, List.length_cons, List.length_nil] at hn
  obtain ⟨k, rfl⟩ : ∃ k, n = before.length + (k + 1) := ⟨n - before.length - 1, by omega⟩
  obtain ⟨m, rfl⟩ : ∃ m, k = after.length + (m + 1) := ⟨k - after.length - 1, by omega⟩
  have hbraces := braces_written (n := after.length + (m + 1)) (room + 1) hname hparams after
    (by omega)
  obtain ⟨c, u, rfl⟩ : ∃ c u, name = c :: u := by
    obtain ⟨c, hc, -⟩ := List.any_eq_true.mp hname.visible
    exact List.exists_cons_of_ne_nil (List.ne_nil_of_mem hc)
  rw [List.cons_append] at hbraces
  have hc : c ≠ '\x7b' := (Place.ne_of_not_mem_reserved (hname.isFreeOf_reserved c (by simp))).1
  have hsplit : writtenTemplate (c :: u) params ++ after = '\x7b' :: '\x7b' :: c ::
      (u ++ (params.flatMap Parameter.source ++ '\x7d' :: '\x7d' :: after)) := by
    simp [writtenTemplate]
  have hstart : ({} : Guard) = .plain false := rfl
  rw [hsplit, hstart, items_append hbefore, items_braces hc hbraces, items_last hafter]
  simp

theorem Parameter.isFreeOf_source {p : Parameter} (hp : p.IsInline) :
    IsFreeOf ['\r', '\n', '\x00'] p.source := by
  have hvalue : IsFreeOf ['\r', '\n', '\x00'] p.value := hp.value.anti (by decide)
  obtain ⟨name?, value⟩ := p
  cases name? with
  | none => exact isFreeOf_cons.mpr ⟨by decide, hvalue⟩
  | some name =>
    have hname : IsFreeOf ['\r', '\n', '\x00'] name := (hp.name name rfl).anti (by decide)
    have hequals : IsFreeOf ['\r', '\n', '\x00'] ('=' :: value) :=
      isFreeOf_cons.mpr ⟨by decide, hvalue⟩
    exact isFreeOf_cons.mpr ⟨by decide, isFreeOf_append.mpr ⟨hname, hequals⟩⟩

/-- A written template holds no line break and no null character. -/
theorem isFreeOf_writtenTemplate {name : List Char} (hname : IsInline name)
    {params : List Parameter} (hparams : ∀ p ∈ params, p.IsInline) :
    IsFreeOf ['\r', '\n', '\x00'] (writtenTemplate name params) := by
  have hopen : IsFreeOf ['\r', '\n', '\x00'] ('\x7b' :: '\x7b' :: name) :=
    isFreeOf_cons.mpr ⟨by decide, isFreeOf_cons.mpr ⟨by decide, hname.anti (by decide)⟩⟩
  have hsources : IsFreeOf ['\r', '\n', '\x00'] (params.flatMap Parameter.source) := by
    intro c hc
    obtain ⟨p, hp, hc⟩ := List.mem_flatMap.mp hc
    exact Parameter.isFreeOf_source (hparams p hp) c hc
  exact isFreeOf_append.mpr ⟨isFreeOf_append.mpr ⟨hopen, hsources⟩, by decide⟩

/-- Between texts without brackets a written template is read as one item. -/
theorem read_eq_of_written {name : List Char} (hname : IsName name) {params : List Parameter}
    (hparams : ∀ p ∈ params, p.IsInline) {before after : List Char}
    (hbefore : IsFreeOf ['\x7b', '\x7d', '[', ']', '\x00'] before)
    (hafter : IsFreeOf ['\x7b', '\x7d', '[', ']'] after) :
    read (before ++ (writtenTemplate name params ++ after)) =
      before.map .plain ++
        writtenItem name params :: (after.takeWhile (· ≠ '\x00')).map .plain := by
  have hkept : ∀ {bad u : List Char}, IsFreeOf bad u → '\x00' ∈ bad → ∀ c ∈ u, c ≠ '\x00' :=
    fun hu hbad c hc heq => hu c hc (heq ▸ hbad)
  have hwritten := isFreeOf_writtenTemplate hname.inline hparams
  have hcut : (before ++ (writtenTemplate name params ++ after)).takeWhile (· ≠ '\x00') =
      before ++ (writtenTemplate name params ++ after.takeWhile (· ≠ '\x00')) := by
    rw [List.takeWhile_append_of_pos (by simpa using hkept hbefore (by decide)),
      List.takeWhile_append_of_pos (by simpa using hkept hwritten (by decide))]
  have hrest := hafter.sublist (List.takeWhile_sublist (· ≠ '\x00'))
  rw [read, hcut, depth,
    items_written hname hparams (hbefore.anti (by decide)) hrest (by omega)]

theorem outerTemplates_written {name : List Char} (hname : IsName name) {params : List Parameter}
    (hparams : ∀ p ∈ params, p.IsInline) {before after : List Char}
    (hbefore : IsFreeOf ['\x7b', '\x7d', '[', ']', '\x00'] before)
    (hafter : IsFreeOf ['\x7b', '\x7d', '[', ']'] after) :
    outerTemplates (before ++ (writtenTemplate name params ++ after)) =
      [⟨writtenTemplate name params, name, params⟩] := by
  have hplain : ∀ u : List Char, (u.map Item.plain).filterMap Item.template? = [] := by
    intro u
    rw [List.filterMap_map]
    exact List.filterMap_eq_nil_iff.mpr fun _ _ => rfl
  rw [outerTemplates, read_eq_of_written hname hparams hbefore hafter, List.filterMap_append,
    hplain, List.filterMap_cons_some (template?_writtenItem name params), hplain]
  rfl

/-- What a parameter gives behind others: its value under its name, both trimmed, or as written
under its number among those without a name. -/
def Parameter.argument (others : List Parameter) (p : Parameter) : String × String :=
  match p.name with
  | some name => (Text.trim (String.ofList name), Text.trim (String.ofList p.value))
  | none => (toString (others.countP (·.name.isNone) + 1), String.ofList p.value)

/-- What a template gives in the order in which it is written. -/
def writtenArguments (name : List Char) (params : List Parameter) : List (String × String) :=
  ("0", Text.trim (String.ofList name)) :: params.mapIdx fun i p => p.argument (params.take i)

/-- A written template as a library tells it that takes its name and its parameters as they are
written. -/
def writtenCall (name : List Char) (params : List Parameter) : Call :=
  Template.call ⟨writtenTemplate name params, name, params⟩

theorem trim_repr (n : ℕ) : Text.trim n.repr = n.repr := by
  have hblank : ∀ c ∈ n.repr.toList, ¬ Text.isBlank c := by
    intro c hc
    have hdigit := Nat.isDigit_of_mem_toDigits (b := 10) (by decide) (by decide)
      (by simpa [Nat.repr] using hc)
    rw [Char.isDigit_iff_toNat] at hdigit
    have hlow : 48 ≤ c.toNat := hdigit.1
    have hhigh : c.toNat ≤ 57 := hdigit.2
    simp [Text.isBlank]
    omega
  have hdrop : ∀ s : List Char, (∀ c ∈ s, ¬ Text.isBlank c) → s.dropWhile Text.isBlank = s := by
    intro s hs
    cases s with
    | nil => rfl
    | cons c s => exact List.dropWhile_cons_of_neg (hs c (by simp))
  rw [Text.trim, Text.trimChars, hdrop _ hblank, hdrop _ (by simpa using hblank),
    List.reverse_reverse, String.ofList_toList]

theorem arguments_numbered (others params : List Parameter) :
    (numbered (others.countP (·.name.isNone) + 1) params).map Field.argument =
      params.mapIdx fun i p => p.argument (others ++ params.take i) := by
  induction params generalizing others with
  | nil => rfl
  | cons p params ih =>
    have hrest := ih (others ++ [p])
    obtain ⟨name?, value⟩ := p
    cases name? <;>
      simpa [numbered, Field.argument, Parameter.argument, List.mapIdx_cons, trim_repr] using hrest

theorem arguments_writtenCall (name : List Char) (params : List Parameter) :
    (writtenCall name params).arguments = .ofList (writtenArguments name params) := by
  have hnumbered := arguments_numbered [] params
  simp only [List.countP_nil, Nat.zero_add, List.nil_append] at hnumbered
  rw [writtenCall, Template.call, Call.arguments, hnumbered]
  rfl

/-- A library finds a written template: the first that it tells of in the text is this one, as it is
written. -/
def Library.Finds [Library] (name : List Char) (params : List Parameter)
    (before after : List Char) : Prop :=
  (Library.outerCalls (String.ofList (before ++ (writtenTemplate name params ++ after)))).head? =
    some (writtenCall name params)

theorem finds_reader {name : List Char} (hname : IsName name) {params : List Parameter}
    (hparams : ∀ p ∈ params, p.IsInline) {before after : List Char}
    (hbefore : IsFreeOf ['\x7b', '\x7d', '[', ']', '\x00'] before)
    (hafter : IsFreeOf ['\x7b', '\x7d', '[', ']'] after) :
    @Library.Finds reader name params before after := by
  change ((outerTemplates (String.ofList _).toList).map Template.call).head? = _
  rw [String.toList_ofList, outerTemplates_written hname hparams hbefore hafter]
  rfl

/-- A text on one line: without its line breaks. -/
def unbroken (s : List Char) : List Char := s.filter fun c => c ≠ '\r' && c ≠ '\n'

theorem unbroken_writtenTemplate {name : List Char} (hname : IsInline name)
    {params : List Parameter} (hparams : ∀ p ∈ params, p.IsInline) :
    unbroken (writtenTemplate name params) = writtenTemplate name params := by
  refine List.filter_eq_self.mpr fun c hc => ?_
  have hbreak := isFreeOf_writtenTemplate hname hparams c hc
  simp only [List.mem_cons, not_or] at hbreak
  simp [hbreak]

end Wikitext

open Wikitext

/-- Reading a text with one written template gives its arguments back, if the library finds it in
the text on one line. A key stands where it is first given, with the value that is last given for
it. -/
theorem Arguments.read_template [Library] {name : List Char} (hname : IsInline name)
    {params : List Parameter} (hparams : ∀ p ∈ params, p.IsInline) {before after : List Char}
    (hfound : Library.Finds name params (unbroken before) (unbroken after)) :
    ∃ args, Arguments.read (String.ofList (before ++ (writtenTemplate name params ++ after))) =
        .ok args ∧
      args = .ofList (writtenArguments name params) ∧
      args.keys = ((writtenArguments name params).map Prod.fst).eraseDups ∧
      ∀ key, args.get? key =
        (((writtenArguments name params).filter (·.1 = key)).map Prod.snd).getLast? := by
  have hunbroken :
      Text.unbroken (String.ofList (before ++ (writtenTemplate name params ++ after))) =
        String.ofList (unbroken before ++ (writtenTemplate name params ++ unbroken after)) := by
    rw [Text.unbroken, String.toList_ofList, List.filter_append, List.filter_append,
      ← unbroken, ← unbroken, ← unbroken, unbroken_writtenTemplate hname hparams]
  refine ⟨_, Arguments.read_eq_ok (c := writtenCall name params) ?_,
    arguments_writtenCall name params, ?_, ?_⟩
  · rw [hunbroken]
    exact hfound
  · rw [arguments_writtenCall, OrderedMap.keys_ofList]
  · intro key
    rw [arguments_writtenCall, OrderedMap.get?_ofList_eq_getLast?]

/-- The second parameter without a name takes the place of one that is named two before it. -/
theorem Arguments.read_template_of_twice :
    letI : Library := reader
    let name := "la-ndecl ".toList
    let params : List Parameter := [⟨none, " a<1> ".toList⟩, ⟨some " b ".toList, " c ".toList⟩,
      ⟨some "2".toList, "d".toList⟩, ⟨none, []⟩, ⟨some "b".toList, "f".toList⟩]
    let before := "x = y\n| z".toList
    let after := "\x00".toList
    IsInline name ∧ (∀ p ∈ params, p.IsInline) ∧
      Library.Finds name params (unbroken before) (unbroken after) ∧
      Arguments.read (String.ofList (before ++ (writtenTemplate name params ++ after))) =
        .ok ⟨[("0", "la-ndecl"), ("1", " a<1> "), ("b", "f"), ("2", "")]⟩ := by
  let _ : Library := reader
  intro name params before after
  have hname : IsName name := by decide +kernel
  have hparams : ∀ p ∈ params, p.IsInline := by decide +kernel
  have hfound : Library.Finds name params (unbroken before) (unbroken after) :=
    finds_reader hname hparams (by decide +kernel) (by decide +kernel)
  obtain ⟨args, hread, hargs, -⟩ := Arguments.read_template hname.inline hparams hfound
  have hwritten : OrderedMap.ofList (writtenArguments name params) =
      ⟨[("0", "la-ndecl"), ("1", " a<1> "), ("b", "f"), ("2", "")]⟩ := by
    decide +kernel
  exact ⟨hname.inline, hparams, hfound, by rw [hread, hargs, hwritten]⟩

/-- Behind a null character no template is read. -/
theorem Arguments.not_read_template_of_null :
    letI : Library := reader
    let name := ['x']
    let params : List Parameter := [⟨none, ['a']⟩]
    let before := ['\x00']
    IsName name ∧ (∀ p ∈ params, p.IsInline) ∧ IsFreeOf ['\x7b', '\x7d', '[', ']'] before ∧
      Arguments.read (String.ofList (before ++ (writtenTemplate name params ++ []))) ≠
        .ok (.ofList (writtenArguments name params)) := by
  intro name params before
  refine ⟨by decide, by decide, by decide, fun h => ?_⟩
  have hnone : (@Arguments.read reader
      (String.ofList (before ++ (writtenTemplate name params ++ [])))).toOption = none := by
    decide +kernel
  rw [h] at hnone
  cases hnone

end Declension
