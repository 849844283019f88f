namespace Flowchart

@[ext]
structure Table (κ ν : Type) where
  entries : List (κ × ν) := []
  distinct : (entries.map (·.1)).Nodup := by exact List.nodup_nil
  deriving DecidableEq

namespace Table

variable {κ ν : Type}

def empty : Table κ ν := {}

def keys (t : Table κ ν) : List κ := t.entries.map (·.1)

def values (t : Table κ ν) : List ν := t.entries.map (·.2)

def size (t : Table κ ν) : Nat := t.entries.length

def mapPlaces (t : Table κ ν) (f : Nat → ν → ν) : Table κ ν where
  entries := t.entries.mapIdx fun i (k, v) => (k, f i v)
  distinct := by
    have hkeys : (t.entries.mapIdx fun i (k, v) => (k, f i v)).map (·.1) = t.entries.map (·.1) := by
      apply List.ext_getElem
      · simp
      · simp
    rw [hkeys]
    exact t.distinct

@[simp] theorem keys_empty : (empty : Table κ ν).keys = [] := rfl

@[simp] theorem keys_mapPlaces (t : Table κ ν) (f : Nat → ν → ν) :
    (t.mapPlaces f).keys = t.keys := by
  apply List.ext_getElem
  · simp [keys, mapPlaces]
  · simp [keys, mapPlaces]

theorem entries_mapPlaces_const (t : Table κ ν) (f : ν → ν) :
    (t.mapPlaces fun _ => f).entries = t.entries.map fun e => (e.1, f e.2) := by
  apply List.ext_getElem
  · simp [mapPlaces]
  · simp [mapPlaces]

theorem values_mapPlaces_const (t : Table κ ν) (f : ν → ν) :
    (t.mapPlaces fun _ => f).values = t.values.map f := by
  rw [values, entries_mapPlaces_const, values, List.map_map, List.map_map]
  rfl

theorem getElem?_keys {t : Table κ ν} {i : Nat} {k : κ} {v : ν}
    (h : t.entries[i]? = some (k, v)) : t.keys[i]? = some k := by
  rw [keys, List.getElem?_map, h]
  rfl

/-- Two entries at which the keys agree are one. -/
theorem place_unique {t : Table κ ν} {i j : Nat} {k : κ} (hi : t.keys[i]? = some k)
    (hj : t.keys[j]? = some k) : i = j := by
  obtain ⟨hlt, _⟩ := List.getElem?_eq_some_iff.1 hi
  exact (List.getElem?_inj hlt t.distinct).1 (hi.trans hj.symm)

variable [DecidableEq κ]

def find? (t : Table κ ν) (k : κ) : Option ν := (t.entries.find? (·.1 = k)).map (·.2)

def contains (t : Table κ ν) (k : κ) : Bool := t.entries.any (·.1 = k)

def place? (t : Table κ ν) (k : κ) : Option Nat := t.entries.findIdx? (·.1 = k)

theorem contains_iff {t : Table κ ν} {k : κ} : t.contains k = true ↔ k ∈ t.keys := by
  simp only [contains, keys, List.any_eq_true, List.mem_map, decide_eq_true_eq]

def modify (t : Table κ ν) (k : κ) (f : ν → ν) : Table κ ν where
  entries := t.entries.map fun (k', v) => if k' = k then (k', f v) else (k', v)
  distinct := by
    have hkey : ((·.1) ∘ fun (k', v) => if k' = k then (k', f v) else (k', v)) =
        (Prod.fst : κ × ν → κ) := by
      funext ⟨k', v⟩
      simp only [Function.comp]
      split <;> rfl
    rw [List.map_map, hkey]
    exact t.distinct

def append (t : Table κ ν) (k : κ) (v : ν) (h : t.contains k ≠ true) : Table κ ν where
  entries := t.entries ++ [(k, v)]
  distinct := by
    have hk : k ∉ t.entries.map (·.1) := fun hmem => h (contains_iff.2 hmem)
    rw [List.map_append, List.nodup_append]
    refine ⟨t.distinct, List.pairwise_singleton _ _, ?_⟩
    intro a ha b hb hab
    have hak : a = k := hab.trans (List.mem_singleton.1 hb)
    exact hk (hak ▸ ha)

/-- A value for a key, in the place that the key has or at the end. -/
def insert (t : Table κ ν) (k : κ) (v : ν) : Table κ ν :=
  if h : t.contains k = true then t.modify k fun _ => v else t.append k v h

def insertNew (t : Table κ ν) (k : κ) (v : ν) : Table κ ν :=
  if h : t.contains k = true then t else t.append k v h

/-- The value of a key changed by `f`, which starts from a given value if the key has none. -/
def update (t : Table κ ν) (k : κ) (start : ν) (f : ν → ν) : Table κ ν :=
  (t.insertNew k start).modify k f

def insertAll (t u : Table κ ν) : Table κ ν :=
  u.entries.foldl (fun t (k, v) => t.insert k v) t

def erase (t : Table κ ν) (k : κ) : Table κ ν where
  entries := t.entries.filter (·.1 ≠ k)
  distinct := List.Nodup.sublist (List.filter_sublist.map _) t.distinct

@[simp] theorem keys_modify (t : Table κ ν) (k : κ) (f : ν → ν) :
    (t.modify k f).keys = t.keys := by
  simp only [keys, modify, List.map_map]
  apply List.map_congr_left
  intro e _
  simp only [Function.comp]
  split <;> rfl

theorem insertNew_of_mem {t : Table κ ν} {k : κ} (h : k ∈ t.keys) (v : ν) :
    t.insertNew k v = t := by
  rw [insertNew, dif_pos (contains_iff.2 h)]

theorem entries_insertNew_of_not_mem {t : Table κ ν} {k : κ} (h : k ∉ t.keys) (v : ν) :
    (t.insertNew k v).entries = t.entries ++ [(k, v)] := by
  rw [insertNew, dif_neg (mt contains_iff.1 h)]
  rfl

theorem entries_modify (t : Table κ ν) (k : κ) (f : ν → ν) :
    (t.modify k f).entries = t.entries.map fun e => if e.1 = k then (e.1, f e.2) else e := rfl

theorem entries_modify_of_not_mem {t : Table κ ν} {k : κ} (h : k ∉ t.keys) (f : ν → ν) :
    (t.modify k f).entries = t.entries := by
  rw [entries_modify]
  refine (List.map_congr_left fun e he => ?_).trans (List.map_id t.entries)
  have hne : e.1 ≠ k := fun hk => h (hk ▸ List.mem_map_of_mem he)
  rw [if_neg hne]
  rfl

theorem entries_modify_insertNew {t : Table κ ν} {k : κ} (h : k ∉ t.keys) (v : ν) (f : ν → ν) :
    ((t.insertNew k v).modify k f).entries = t.entries ++ [(k, f v)] := by
  rw [entries_modify, entries_insertNew_of_not_mem h, List.map_append, ← entries_modify,
    entries_modify_of_not_mem h, List.map_singleton, if_pos rfl]

theorem mem_entries_of_find? {t : Table κ ν} {k : κ} {v : ν} (h : t.find? k = some v) :
    (k, v) ∈ t.entries := by
  obtain ⟨e, he, rfl⟩ := Option.map_eq_some_iff.1 h
  have hk : e.1 = k := by simpa using List.find?_some he
  exact hk ▸ List.mem_of_find?_eq_some he

theorem place?_eq_some_iff {t : Table κ ν} {k : κ} {i : Nat} :
    t.place? k = some i ↔ t.keys[i]? = some k := by
  have hplace {j : Nat} (h : t.place? k = some j) : t.keys[j]? = some k := by
    obtain ⟨hlt, hk, _⟩ := List.findIdx?_eq_some_iff_getElem.1 h
    simp [keys, List.getElem?_eq_getElem hlt, of_decide_eq_true hk]
  constructor
  · exact hplace
  · intro h
    cases hj : t.place? k with
    | some j => rw [place_unique h (hplace hj)]
    | none =>
      obtain ⟨e, he, hek⟩ := List.mem_map.1 (List.mem_of_getElem? h)
      have hne := List.findIdx?_eq_none_iff.1 hj e he
      exact absurd hek (of_decide_eq_false hne)

/-- The place of a key depends on the keys alone. -/
theorem place?_congr {μ : Type} {t : Table κ ν} {u : Table κ μ} (h : t.keys = u.keys) (k : κ) :
    t.place? k = u.place? k := by
  apply Option.ext
  intro i
  rw [place?_eq_some_iff, place?_eq_some_iff, h]

theorem find?_eq_some_iff {t : Table κ ν} {k : κ} {v : ν} :
    t.find? k = some v ↔ (k, v) ∈ t.entries := by
  constructor
  · exact mem_entries_of_find?
  · intro h
    obtain ⟨i, hi⟩ := List.getElem?_of_mem h
    cases hf : t.find? k with
    | none =>
      have hnone := List.find?_eq_none.1 (Option.map_eq_none_iff.1 hf) _ h
      simp at hnone
    | some w =>
      obtain ⟨j, hj⟩ := List.getElem?_of_mem (mem_entries_of_find? hf)
      have hij : i = j := place_unique (t := t) (k := k) (getElem?_keys hi) (getElem?_keys hj)
      have hvw : (k, v) = (k, w) := Option.some.inj (hi ▸ hij ▸ hj)
      rw [(Prod.mk.inj hvw).2]

theorem find?_eq_some_iff_place? {t : Table κ ν} {k : κ} {v : ν} :
    t.find? k = some v ↔ ∃ i, t.place? k = some i ∧ t.values[i]? = some v := by
  rw [find?_eq_some_iff]
  constructor
  · intro h
    obtain ⟨i, hi⟩ := List.getElem?_of_mem h
    refine ⟨i, place?_eq_some_iff.2 (getElem?_keys hi), ?_⟩
    rw [values, List.getElem?_map, hi]
    rfl
  · rintro ⟨i, hkey, hvalue⟩
    obtain ⟨e, he, rfl⟩ := Option.map_eq_some_iff.1 (List.getElem?_map ▸ hvalue)
    have hek : e.1 = k := Option.some.inj ((getElem?_keys he).symm.trans (place?_eq_some_iff.1 hkey))
    exact hek ▸ List.mem_of_getElem? he

@[simp] theorem find?_empty (k : κ) : (empty : Table κ ν).find? k = none := rfl

theorem find?_eq_none_iff {t : Table κ ν} {k : κ} : t.find? k = none ↔ k ∉ t.keys := by
  constructor
  · intro hnone hmem
    obtain ⟨e, he, rfl⟩ := List.mem_map.1 hmem
    have hsome : t.find? e.1 = some e.2 := find?_eq_some_iff.2 he
    exact absurd (hnone.symm.trans hsome) (by simp)
  · intro hmem
    rw [Option.eq_none_iff_forall_ne_some]
    intro v hsome
    exact hmem (List.mem_map_of_mem (mem_entries_of_find? hsome))

theorem find?_mapPlaces_const (t : Table κ ν) (f : ν → ν) (k : κ) :
    (t.mapPlaces fun _ => f).find? k = (t.find? k).map f := by
  rw [find?, entries_mapPlaces_const, List.find?_map, find?, Option.map_map, Option.map_map]
  rfl

theorem find?_modify (t : Table κ ν) (k k' : κ) (f : ν → ν) :
    (t.modify k f).find? k' = if k' = k then (t.find? k').map f else t.find? k' := by
  have hkeys : ((fun e : κ × ν => decide (e.1 = k')) ∘ fun e => if e.1 = k then (e.1, f e.2) else e) =
      fun e => decide (e.1 = k') := by
    funext e
    simp only [Function.comp]
    split <;> rfl
  rw [find?, entries_modify, List.find?_map, hkeys, find?]
  cases hfound : t.entries.find? (·.1 = k') with
  | none => simp
  | some e =>
    have hkey : e.1 = k' := by simpa using List.find?_some hfound
    by_cases hk : k' = k
    · simp [hkey, hk]
    · simp [hkey, hk]

theorem find?_append (t : Table κ ν) (k k' : κ) (v : ν) (h : t.contains k ≠ true) :
    (t.append k v h).find? k' = if k' = k then some v else t.find? k' := by
  have hlast : (t.append k v h).find? k' = (t.find? k').or (if k' = k then some v else none) := by
    rw [find?, find?, append, List.find?_append, Option.map_or]
    by_cases hk : k' = k
    · simp [hk]
    · simp [hk, Ne.symm hk]
  rw [hlast]
  by_cases hk : k' = k
  · have hnone : t.find? k' = none := find?_eq_none_iff.2 fun hmem => h (contains_iff.2 (hk ▸ hmem))
    simp [hk, hk ▸ hnone]
  · simp [hk]

theorem find?_insert (t : Table κ ν) (k k' : κ) (v : ν) :
    (t.insert k v).find? k' = if k' = k then some v else t.find? k' := by
  unfold insert
  split
  next h =>
    rw [find?_modify]
    by_cases hk : k' = k
    · obtain ⟨w, hw⟩ := Option.ne_none_iff_exists'.1 fun hnone =>
        find?_eq_none_iff.1 hnone (contains_iff.1 h)
      simp [hk, hw]
    · rw [if_neg hk, if_neg hk]
  next h => exact find?_append t k k' v h

theorem find?_update (t : Table κ ν) (k k' : κ) (start : ν) (f : ν → ν) :
    (t.update k start f).find? k' =
      if k' = k then some (f ((t.find? k).getD start)) else t.find? k' := by
  have hnew : (t.insertNew k start).find? k' =
      if k' = k then some ((t.find? k).getD start) else t.find? k' := by
    unfold insertNew
    split
    next h =>
      obtain ⟨w, hw⟩ := Option.ne_none_iff_exists'.1 fun hnone =>
        find?_eq_none_iff.1 hnone (contains_iff.1 h)
      by_cases hk : k' = k
      · simp [hk, hw]
      · rw [if_neg hk]
    next h =>
      have hnone : t.find? k = none := find?_eq_none_iff.2 fun hmem => h (contains_iff.2 hmem)
      rw [find?_append, hnone]
      rfl
  rw [update, find?_modify, hnew]
  by_cases hk : k' = k
  · simp [hk]
  · rw [if_neg hk, if_neg hk, if_neg hk]

/-- No key occurs twice, so at most one entry is read under a key. -/
theorem filterMap_entries {β : Type} (t : Table κ ν) (k : κ) (read : ν → Option β) :
    (t.entries.filterMap fun e => if e.1 = k then read e.2 else none) =
      ((t.find? k).bind read).toList := by
  unfold find?
  have hdistinct := t.distinct
  revert hdistinct
  generalize t.entries = entries
  intro hdistinct
  induction entries with
  | nil => rfl
  | cons e rest ih =>
    obtain ⟨hfirst, hrest⟩ := List.nodup_cons.1 hdistinct
    rw [List.filterMap_cons]
    by_cases hk : e.1 = k
    · have hnone : rest.filterMap (fun e => if e.1 = k then read e.2 else none) = [] := by
        rw [List.filterMap_eq_nil_iff]
        intro d hd
        exact if_neg fun hkey => hfirst (List.mem_map.2 ⟨d, hd, hkey.trans hk.symm⟩)
      rw [hnone, List.find?_cons_of_pos (by simp [hk]), if_pos hk]
      cases hread : read e.2 <;> simp [hread]
    · rw [List.find?_cons_of_neg (by simp [hk]), if_neg hk]
      exact ih hrest

end Table
end Flowchart
