import Declension.OrderedMap
import Declension.Proofs.Distinct

/-!
# Ordered maps

A key that is given again keeps its place, so the keys of a map that was filled by insertion are
distinct. On such maps changing a value in place and giving its key anew are the same. A map filled
by insertion has its keys in the order in which they were first given, each with the last value.
-/
namespace Declension.OrderedMap
variable {κ α β : Type} [DecidableEq κ]

theorem find_append (k : κ) (m l : List (κ × α)) :
    find k (m ++ l) = (find k m).or (find k l) := by
  induction m with
  | nil => rfl
  | cons e m ih =>
    obtain ⟨a, v⟩ := e
    by_cases h : a = k <;> simp [find, h, ih]

/-- Looking up a place in what is stored for the places below `n`. -/
theorem find_filterMap_range (g : ℕ → Option (ℕ × α)) (hg : ∀ p e, g p = some e → e.1 = p)
    (n k : ℕ) :
    find k ((List.range n).filterMap g) = if k < n then (g k).map Prod.snd else none := by
  induction n with
  | zero => simp [find]
  | succ n ih =>
    rw [List.range_succ, List.filterMap_append, find_append, ih]
    have hlast : find k ([n].filterMap g) = if k = n then (g n).map Prod.snd else none := by
      cases he : g n with
      | none => simp [he, find]
      | some e =>
        have hn := hg n e he
        simp [he, find, hn, eq_comm]
    rw [hlast]
    by_cases hk : k < n
    · have hne : k ≠ n := by omega
      simp [hk, hne, Nat.lt_succ_of_lt hk]
    · by_cases he : k = n
      · simp [he]
      · have hnot : ¬ k < n + 1 := by omega
        simp [hk, he, hnot]

theorem mem_keys_put {k l : κ} {v : α} {entries : List (κ × α)} :
    l ∈ (put k v entries).map Prod.fst ↔ l = k ∨ l ∈ entries.map Prod.fst := by
  induction entries with
  | nil => simp [put]
  | cons e entries ih =>
    obtain ⟨a, w⟩ := e
    by_cases h : a = k
    · simp [put, h]
    · simp only [put, h, if_false, List.map_cons, List.mem_cons, ih]
      exact or_left_comm

theorem nodup_put (k : κ) (v : α) {entries : List (κ × α)}
    (h : (entries.map Prod.fst).Nodup) : ((put k v entries).map Prod.fst).Nodup := by
  induction entries with
  | nil => simp [put]
  | cons e entries ih =>
    obtain ⟨a, w⟩ := e
    obtain ⟨hnot, hrest⟩ := List.nodup_cons.mp h
    by_cases ha : a = k
    · simpa [put, ha] using h
    · rw [put, if_neg ha, List.map_cons, List.nodup_cons, mem_keys_put, not_or]
      exact ⟨⟨ha, hnot⟩, ih hrest⟩

theorem nodup_keys_insert {m : OrderedMap κ α} (h : m.keys.Nodup) (k : κ) (v : α) :
    (m.insert k v).keys.Nodup :=
  nodup_put k v h

theorem nodup_keys_insertMany {m : OrderedMap κ α} (h : m.keys.Nodup) (pairs : List (κ × α)) :
    (m.insertMany pairs).keys.Nodup := by
  unfold insertMany
  induction pairs generalizing m with
  | nil => exact h
  | cons e pairs ih => exact ih (nodup_keys_insert h e.1 e.2)

theorem nodup_keys_ofList (pairs : List (κ × α)) : (ofList pairs).keys.Nodup :=
  nodup_keys_insertMany (m := ∅) List.nodup_nil pairs

theorem mem_keys_insertMany {m : OrderedMap κ α} {pairs : List (κ × α)} {k : κ} :
    k ∈ (m.insertMany pairs).keys ↔ k ∈ m.keys ∨ k ∈ pairs.map Prod.fst := by
  unfold insertMany
  induction pairs generalizing m with
  | nil => simp
  | cons e pairs ih =>
    have hkeys : k ∈ (m.insert e.1 e.2).keys ↔ k = e.1 ∨ k ∈ m.keys := mem_keys_put
    rw [List.foldl_cons, ih, hkeys, List.map_cons, List.mem_cons, or_comm (a := k = e.1),
      or_assoc]

@[simp] theorem keys_modify (m : OrderedMap κ α) (k : κ) (f : α → α) :
    (m.modify k f).keys = m.keys := by
  unfold keys modify
  rw [List.map_map]
  apply List.map_congr_left
  intro e _
  by_cases h : e.1 = k <;> simp [h]

theorem contains_insert (m : OrderedMap κ α) (k l : κ) (v : α) :
    (m.insert k v).contains l ↔ k = l ∨ m.contains l := by
  rw [contains, get?_insert]
  by_cases h : k = l <;> simp [h, contains]

theorem keys_insert_of_mem {m : OrderedMap κ α} {k : κ} (h : k ∈ m.keys) (v : α) :
    (m.insert k v).keys = m.keys := by
  obtain ⟨entries⟩ := m
  unfold keys insert at *
  induction entries with
  | nil => cases h
  | cons e entries ih =>
    obtain ⟨a, w⟩ := e
    by_cases ha : a = k
    · simp [put, ha]
    · have hrest : k ∈ entries.map (·.1) := by simpa [Ne.symm ha] using h
      simpa [put, ha] using ih hrest

theorem entries_eq_filterMap {m : OrderedMap κ α} (h : m.keys.Nodup) :
    m.entries = m.keys.filterMap fun k => (m.get? k).map (k, ·) := by
  obtain ⟨entries⟩ := m
  unfold keys get? at *
  induction entries with
  | nil => rfl
  | cons e entries ih =>
    obtain ⟨a, w⟩ := e
    obtain ⟨hnot, hrest⟩ := List.nodup_cons.mp h
    have htail : ∀ k ∈ entries.map (·.1),
        (find k ((a, w) :: entries)).map (k, ·) = (find k entries).map (k, ·) := by
      intro k hk
      have hne : a ≠ k := fun heq => hnot (heq ▸ hk)
      simp [find, hne]
    rw [List.map_cons, List.filterMap_cons, List.filterMap_congr htail, ← ih hrest]
    simp [find]

/-- Maps with the same distinct keys in the same order are told by their values. -/
theorem ext_get? {m l : OrderedMap κ α} (h : m.keys.Nodup) (hkeys : m.keys = l.keys)
    (hget : ∀ k, m.get? k = l.get? k) : m = l := by
  have hentries : m.entries = l.entries := by
    rw [entries_eq_filterMap h, entries_eq_filterMap (hkeys ▸ h), hkeys]
    apply List.filterMap_congr
    intro k _
    rw [hget k]
  obtain ⟨entries⟩ := m
  obtain ⟨entries'⟩ := l
  exact congrArg mk hentries

theorem find_map_self (f : κ → α) (keys : List κ) (k : κ) :
    find k (keys.map fun k => (k, f k)) = if k ∈ keys then some (f k) else none := by
  induction keys with
  | nil => rfl
  | cons a keys ih =>
    by_cases h : a = k
    · simp [find, h]
    · simp [find, h, Ne.symm h, ih]

theorem find_eq_none {k : κ} {entries : List (κ × α)} :
    find k entries = none ↔ k ∉ entries.map Prod.fst := by
  induction entries with
  | nil => simp [find]
  | cons e entries ih =>
    obtain ⟨a, w⟩ := e
    by_cases h : a = k
    · simp [find, h]
    · simp [find, h, ih, Ne.symm h]

theorem isSome_find {k : κ} {entries : List (κ × α)} :
    (find k entries).isSome ↔ k ∈ entries.map Prod.fst := by
  rw [Option.isSome_iff_ne_none, ne_eq, find_eq_none, not_not]

theorem contains_iff_mem_keys {m : OrderedMap κ α} {k : κ} : m.contains k ↔ k ∈ m.keys :=
  isSome_find

theorem mem_of_find {k : κ} {v : α} {entries : List (κ × α)} (h : find k entries = some v) :
    (k, v) ∈ entries := by
  induction entries with
  | nil => cases h
  | cons e entries ih =>
    obtain ⟨a, w⟩ := e
    by_cases ha : a = k
    · simp_all [find]
    · exact List.mem_cons_of_mem _ (ih (by simpa [find, ha] using h))

theorem mem_of_mem_put {k : κ} {v : α} {entries : List (κ × α)} {e : κ × α}
    (h : e ∈ put k v entries) : e = (k, v) ∨ e ∈ entries := by
  induction entries with
  | nil => exact .inl (List.mem_singleton.mp h)
  | cons entry entries ih =>
    obtain ⟨a, w⟩ := entry
    rw [put] at h
    split at h
    · exact (List.mem_cons.mp h).imp_right (List.mem_cons_of_mem _)
    · rcases List.mem_cons.mp h with rfl | h
      · exact .inr List.mem_cons_self
      · exact (ih h).imp_right (List.mem_cons_of_mem _)

theorem mem_of_mem_insertMany {m : OrderedMap κ α} {pairs : List (κ × α)} {e : κ × α}
    (h : e ∈ (m.insertMany pairs).entries) : e ∈ pairs ∨ e ∈ m.entries := by
  induction pairs generalizing m with
  | nil => exact .inr h
  | cons pair pairs ih =>
    have hstep : m.insertMany (pair :: pairs) = (m.insert pair.1 pair.2).insertMany pairs := rfl
    rw [hstep] at h
    rcases ih h with hpairs | hinsert
    · exact .inl (List.mem_cons_of_mem pair hpairs)
    · rcases mem_of_mem_put hinsert with rfl | hm
      · exact .inl List.mem_cons_self
      · exact .inr hm

theorem mem_of_mem_ofList {pairs : List (κ × α)} {e : κ × α} (h : e ∈ (ofList pairs).entries) :
    e ∈ pairs :=
  (mem_of_mem_insertMany h).resolve_right List.not_mem_nil

/-- What is gathered from entries does not change with an entry that nothing is gathered from. -/
theorem filterMap_put {f : κ × α → Option β} {k : κ} (h : ∀ v, f (k, v) = none) (v : α)
    (entries : List (κ × α)) : (put k v entries).filterMap f = entries.filterMap f := by
  induction entries with
  | nil => simp [put, h]
  | cons entry entries ih =>
    obtain ⟨l, w⟩ := entry
    rw [put]
    split
    · rename_i hl
      simp [hl, h]
    · rw [List.filterMap_cons, List.filterMap_cons, ih]

theorem put_of_not_mem {k : κ} (v : α) {entries : List (κ × α)}
    (h : k ∉ entries.map Prod.fst) : put k v entries = entries ++ [(k, v)] := by
  induction entries with
  | nil => rfl
  | cons e entries ih =>
    obtain ⟨a, w⟩ := e
    rw [List.map_cons, List.mem_cons, not_or] at h
    rw [put, if_neg (Ne.symm h.1), ih h.2, List.cons_append]

theorem map_of_not_mem {k : κ} (f : α → α) {entries : List (κ × α)}
    (h : k ∉ entries.map Prod.fst) :
    (entries.map fun (l, v) => if l = k then (l, f v) else (l, v)) = entries := by
  induction entries with
  | nil => rfl
  | cons e entries ih =>
    obtain ⟨a, w⟩ := e
    rw [List.map_cons, List.mem_cons, not_or] at h
    have ha : a ≠ k := Ne.symm h.1
    rw [List.map_cons, ih h.2]
    simp only [ha, if_false]

theorem put_eq_map {k : κ} {v : α} (f : α → α) {entries : List (κ × α)}
    (h : (entries.map Prod.fst).Nodup) (hv : find k entries = some v) :
    put k (f v) entries = entries.map fun (l, v) => if l = k then (l, f v) else (l, v) := by
  induction entries with
  | nil => cases hv
  | cons e entries ih =>
    obtain ⟨a, w⟩ := e
    obtain ⟨hnot, hrest⟩ := List.nodup_cons.mp h
    by_cases ha : a = k
    · have hw : w = v := by simpa [find, ha] using hv
      rw [List.map_cons, map_of_not_mem f (ha ▸ hnot), put, if_pos ha]
      simp only [ha, hw, if_true]
    · have hrestv : find k entries = some v := by simpa [find, ha] using hv
      rw [List.map_cons, put, if_neg ha, ih hrest hrestv]
      simp only [ha, if_false]

theorem insert_eq_modify {m : OrderedMap κ α} (h : m.keys.Nodup) {k : κ} {v : α}
    (hv : m.get? k = some v) (f : α → α) : m.insert k (f v) = m.modify k f := by
  rw [insert, modify, put_eq_map f h hv]

theorem modify_of_get?_eq_none {m : OrderedMap κ α} {k : κ} (h : m.get? k = none) (f : α → α) :
    m.modify k f = m := by
  rw [modify, map_of_not_mem f (find_eq_none.mp h)]

/-- Distinct keys keep the order in which they are inserted. -/
theorem entries_insertMany {m : OrderedMap κ α} {pairs : List (κ × α)}
    (h : ((m.entries ++ pairs).map Prod.fst).Nodup) :
    (m.insertMany pairs).entries = m.entries ++ pairs := by
  induction pairs generalizing m with
  | nil => simp [insertMany]
  | cons e pairs ih =>
    have hnew : e.1 ∉ m.entries.map Prod.fst := by
      rw [List.map_append, List.nodup_append] at h
      exact fun hmem => h.2.2 e.1 hmem e.1 (by simp) rfl
    have hentries : (m.insert e.1 e.2).entries = m.entries ++ [e] := put_of_not_mem e.2 hnew
    have hstep : (m.insertMany (e :: pairs)).entries =
        ((m.insert e.1 e.2).insertMany pairs).entries := rfl
    rw [hstep, ih, hentries, List.append_assoc]
    · rfl
    · rw [hentries, List.append_assoc]
      exact h

theorem ofList_of_nodup {pairs : List (κ × α)} (h : (pairs.map Prod.fst).Nodup) :
    ofList pairs = ⟨pairs⟩ := by
  have hentries : (ofList pairs).entries = pairs := entries_insertMany (m := ∅) h
  cases hm : ofList pairs with
  | mk entries => rw [← hentries, hm]

/-- Of the values given for a key the last one holds. -/
theorem get?_insertMany (m : OrderedMap κ α) (pairs : List (κ × α)) (k : κ) :
    (m.insertMany pairs).get? k = (find k pairs.reverse).or (m.get? k) := by
  induction pairs generalizing m with
  | nil => rfl
  | cons e pairs ih =>
    obtain ⟨a, v⟩ := e
    have hstep : (m.insertMany ((a, v) :: pairs)).get? k =
        ((m.insert a v).insertMany pairs).get? k := rfl
    rw [hstep, ih, List.reverse_cons, find_append, Option.or_assoc, get?_insert]
    by_cases h : a = k <;> simp [find, h]

theorem get?_ofList (pairs : List (κ × α)) (k : κ) :
    (ofList pairs).get? k = find k pairs.reverse :=
  (get?_insertMany ∅ pairs k).trans (Option.or_none)

theorem find_eq_head? (k : κ) (entries : List (κ × α)) :
    find k entries = ((entries.filter (·.1 = k)).map Prod.snd).head? := by
  induction entries with
  | nil => rfl
  | cons e entries ih =>
    by_cases h : e.1 = k <;> simp [find, h, ih]

theorem get?_ofList_eq_getLast? (pairs : List (κ × α)) (k : κ) :
    (ofList pairs).get? k = ((pairs.filter (·.1 = k)).map Prod.snd).getLast? := by
  rw [get?_ofList, find_eq_head?, List.filter_reverse, List.map_reverse, List.head?_reverse]

/-- New keys go behind the keys that are there. -/
theorem keys_insertMany (m : OrderedMap κ α) (pairs : List (κ × α)) :
    (m.insertMany pairs).keys = addNew m.keys (pairs.map Prod.fst) := by
  induction pairs generalizing m with
  | nil => rfl
  | cons e pairs ih =>
    have hstep : m.insertMany (e :: pairs) = (m.insert e.1 e.2).insertMany pairs := rfl
    rw [hstep, ih, List.map_cons, addNew_cons]
    split
    next h => rw [keys_insert_of_mem h]
    next h =>
      have hkeys : (m.insert e.1 e.2).keys = m.keys ++ [e.1] := by
        unfold keys insert
        rw [put_of_not_mem e.2 h, List.map_append]
        rfl
      rw [hkeys]

theorem keys_ofList (pairs : List (κ × α)) :
    (ofList pairs).keys = (pairs.map Prod.fst).eraseDups := by
  have hkeys : (ofList pairs).keys = addNew [] (pairs.map Prod.fst) := keys_insertMany ∅ pairs
  rw [hkeys, addNew_eq]
  simp

theorem ofList_append (pairs more : List (κ × α)) :
    ofList (pairs ++ more) = (ofList pairs).insertMany more :=
  List.foldl_append

/-- The map with every value changed in the way of its key. -/
def mapWithKey (f : κ → α → β) (m : OrderedMap κ α) : OrderedMap κ β :=
  ⟨m.entries.map fun (k, v) => (k, f k v)⟩

theorem find_map_with_key (f : κ → α → β) (k : κ) (entries : List (κ × α)) :
    find k (entries.map fun (l, v) => (l, f l v)) = (find k entries).map (f k) := by
  induction entries with
  | nil => rfl
  | cons e entries ih =>
    obtain ⟨a, w⟩ := e
    by_cases h : a = k
    · subst h
      simp [find]
    · simp [find, h, ih]

theorem get?_mapWithKey (f : κ → α → β) (m : OrderedMap κ α) (k : κ) :
    (m.mapWithKey f).get? k = (m.get? k).map (f k) :=
  find_map_with_key f k m.entries

theorem put_map_with_key (f : κ → α → β) (k : κ) (v : α) (entries : List (κ × α)) :
    put k (f k v) (entries.map fun (l, v) => (l, f l v)) =
      (put k v entries).map fun (l, v) => (l, f l v) := by
  induction entries with
  | nil => rfl
  | cons e entries ih =>
    obtain ⟨a, w⟩ := e
    by_cases h : a = k
    · subst h
      simp [put]
    · simp [put, h, ih]

theorem mapWithKey_insert (f : κ → α → β) (m : OrderedMap κ α) (k : κ) (v : α) :
    (m.insert k v).mapWithKey f = (m.mapWithKey f).insert k (f k v) := by
  rw [mapWithKey, insert, insert, mapWithKey, put_map_with_key]

omit [DecidableEq κ] in
theorem mapWithKey_mapWithKey {γ : Type} (f : κ → α → β) (g : κ → β → γ) (m : OrderedMap κ α) :
    (m.mapWithKey f).mapWithKey g = m.mapWithKey fun k v => g k (f k v) := by
  simp [mapWithKey, Function.comp_def]

/-- Changing the values of distinct keys one by one is changing them all at once. -/
theorem foldl_modify_eq (f : α → α) {keys : List κ} (h : keys.Nodup) (m : OrderedMap κ α) :
    keys.foldl (fun m k => m.modify k f) m =
      m.mapWithKey fun k v => if k ∈ keys then f v else v := by
  induction keys generalizing m with
  | nil => simp [mapWithKey]
  | cons key keys ih =>
    obtain ⟨hkey, hkeys⟩ := List.nodup_cons.mp h
    have hfirst : m.modify key f = m.mapWithKey fun k v => if k = key then f v else v := by
      unfold modify mapWithKey
      congr 1
      apply List.map_congr_left
      intro e _
      by_cases he : e.1 = key <;> simp [he]
    rw [List.foldl_cons, ih hkeys, hfirst, mapWithKey_mapWithKey]
    congr 1
    funext k v
    by_cases hk : k = key
    · subst hk
      simp [hkey]
    · simp [hk]

/-- The map with every value changed. -/
def mapValues (f : α → β) (m : OrderedMap κ α) : OrderedMap κ β :=
  ⟨m.entries.map fun (k, v) => (k, f v)⟩

theorem find_map_values (f : α → β) (k : κ) (entries : List (κ × α)) :
    find k (entries.map fun (l, v) => (l, f v)) = (find k entries).map f :=
  find_map_with_key (fun _ => f) k entries

@[simp] theorem get?_mapValues (f : α → β) (m : OrderedMap κ α) (k : κ) :
    (m.mapValues f).get? k = (m.get? k).map f :=
  find_map_values f k m.entries

theorem put_map_values (f : α → β) (k : κ) (v : α) (entries : List (κ × α)) :
    put k (f v) (entries.map fun (l, v) => (l, f v)) =
      (put k v entries).map fun (l, v) => (l, f v) :=
  put_map_with_key (fun _ => f) k v entries

theorem mapValues_insert (f : α → β) (m : OrderedMap κ α) (k : κ) (v : α) :
    (m.insert k v).mapValues f = (m.mapValues f).insert k (f v) := by
  rw [mapValues, insert, insert, mapValues, put_map_values]

theorem mapValues_insertMany (f : α → β) (m : OrderedMap κ α) (pairs : List (κ × α)) :
    (m.insertMany pairs).mapValues f =
      (m.mapValues f).insertMany (pairs.map fun (k, v) => (k, f v)) := by
  induction pairs generalizing m with
  | nil => rfl
  | cons e pairs ih =>
    have hstep : m.insertMany (e :: pairs) = (m.insert e.1 e.2).insertMany pairs := rfl
    rw [hstep, ih, mapValues_insert]
    rfl

theorem mapValues_ofList (f : α → β) (pairs : List (κ × α)) :
    (ofList pairs).mapValues f = ofList (pairs.map fun (k, v) => (k, f v)) :=
  mapValues_insertMany f ∅ pairs

theorem mapValues_modify {f : α → β} {g : α → α} {h : β → β} (hcomm : ∀ v, f (g v) = h (f v))
    (m : OrderedMap κ α) (k : κ) : (m.modify k g).mapValues f = (m.mapValues f).modify k h := by
  simp only [mapValues, modify, List.map_map]
  congr 1
  apply List.map_congr_left
  intro e _
  by_cases he : e.1 = k <;> simp [he, hcomm]

section MapKeys
variable {ι : Type} [DecidableEq ι] {f : κ → ι}

/-- The map with its keys renamed. -/
def mapKeys (f : κ → ι) (m : OrderedMap κ α) : OrderedMap ι α :=
  ⟨m.entries.map fun (k, v) => (f k, v)⟩

omit [DecidableEq κ] [DecidableEq ι] in
theorem keys_mapKeys (f : κ → ι) (m : OrderedMap κ α) : (m.mapKeys f).keys = m.keys.map f := by
  simp [keys, mapKeys]

theorem find_map_keys (hf : Function.Injective f) (k : κ) (entries : List (κ × α)) :
    find (f k) (entries.map fun (l, v) => (f l, v)) = find k entries := by
  induction entries with
  | nil => rfl
  | cons e entries ih =>
    obtain ⟨a, w⟩ := e
    by_cases h : a = k <;> simp [find, h, hf.eq_iff, ih]

theorem get?_mapKeys (hf : Function.Injective f) (m : OrderedMap κ α) (k : κ) :
    (m.mapKeys f).get? (f k) = m.get? k :=
  find_map_keys hf k m.entries

theorem put_map_keys (hf : Function.Injective f) (k : κ) (v : α) (entries : List (κ × α)) :
    put (f k) v (entries.map fun (l, v) => (f l, v)) =
      (put k v entries).map fun (l, v) => (f l, v) := by
  induction entries with
  | nil => rfl
  | cons e entries ih =>
    obtain ⟨a, w⟩ := e
    by_cases h : a = k <;> simp [put, h, hf.eq_iff, ih]

theorem mapKeys_insert (hf : Function.Injective f) (m : OrderedMap κ α) (k : κ) (v : α) :
    (m.insert k v).mapKeys f = (m.mapKeys f).insert (f k) v := by
  rw [mapKeys, insert, insert, mapKeys, put_map_keys hf]

theorem mapKeys_erase (hf : Function.Injective f) (m : OrderedMap κ α) (k : κ) :
    (m.erase k).mapKeys f = (m.mapKeys f).erase (f k) := by
  simp only [mapKeys, erase, List.filter_map, Function.comp_def, ne_eq, hf.eq_iff]

end MapKeys

theorem erase_of_not_mem {m : OrderedMap κ α} {k : κ} (h : k ∉ m.keys) : m.erase k = m := by
  have hkept : (m.entries.filter fun (l, _) => l ≠ k) = m.entries := by
    rw [List.filter_eq_self]
    intro e he
    have hne : e.1 ≠ k := fun heq => h (heq ▸ List.mem_map_of_mem he)
    simpa using hne
  rw [erase, hkept]

theorem nodup_keys_erase {m : OrderedMap κ α} (h : m.keys.Nodup) (k : κ) :
    (m.erase k).keys.Nodup :=
  h.sublist (List.filter_sublist.map _)

/-- Giving a key the value it has changes nothing. -/
theorem insert_of_get? {m : OrderedMap κ α} {k : κ} {v : α} (h : m.get? k = some v) :
    m.insert k v = m := by
  obtain ⟨entries⟩ := m
  unfold get? insert at *
  congr 1
  induction entries with
  | nil => cases h
  | cons e entries ih =>
    obtain ⟨a, w⟩ := e
    by_cases ha : a = k
    · have hw : w = v := by simpa [find, ha] using h
      rw [put, if_pos ha, ha, hw]
    · have hrest : find k entries = some v := by simpa [find, ha] using h
      rw [put, if_neg ha, ih hrest]

end Declension.OrderedMap
