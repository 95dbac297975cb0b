import SeriesStream.OrderedMap

namespace SeriesStream

variable {κ ν μ σ : Type}

/-- A scan over two parts one after the other begins the second with the state after the first. -/
theorem scanEntries_append (f : σ → κ → ν → σ × Option μ) (s : σ) (xs ys : List (κ × ν)) :
    scanEntries f s (xs ++ ys) =
      ((scanEntries f (scanEntries f s xs).1 ys).1,
        (scanEntries f s xs).2 ++ (scanEntries f (scanEntries f s xs).1 ys).2) := by
  induction xs generalizing s with
  | nil => rfl
  | cons head xs ih => simp [scanEntries, ih]

/-- Entries on which a scan keeps its state and yields nothing may be left out. -/
theorem scanEntries_filter {f : σ → κ → ν → σ × Option μ} {p : κ → ν → Bool}
    (idle : ∀ s k v, p k v = false → f s k v = (s, none)) (s : σ) (entries : List (κ × ν)) :
    scanEntries f s (entries.filter fun e => p e.1 e.2) = scanEntries f s entries := by
  induction entries generalizing s with
  | nil => rfl
  | cons e rest ih =>
    cases hp : p e.1 e.2 with
    | true => simp only [List.filter_cons, hp, ↓reduceIte, scanEntries, ih]
    | false =>
      simp only [List.filter_cons, hp, Bool.false_eq_true, ↓reduceIte, scanEntries, ih, idle s _ _ hp]
      rfl

variable [Ord κ]

theorem find_nil (k : κ) : findEntry? k ([] : List (κ × ν)) = none := rfl

theorem find_cons (k : κ) (e : κ × ν) (rest : List (κ × ν)) :
    findEntry? k (e :: rest) = if compare k e.1 = .eq then some e.2 else findEntry? k rest := rfl

namespace OrderedMap

/-- The same keys with other values under them. -/
def mapValues (m : OrderedMap κ ν) (f : ν → μ) : OrderedMap κ μ :=
  ⟨m.entries.map fun e => (e.1, f e.2), List.pairwise_map.mpr (m.ascending.imp id)⟩

theorem get?_mapValues (m : OrderedMap κ ν) (f : ν → μ) (k : κ) :
    (m.mapValues f).get? k = (m.get? k).map f := by
  have hfind (entries : List (κ × ν)) :
      findEntry? k (entries.map fun e => (e.1, f e.2)) = ( findEntry? k entries).map f := by
    induction entries with
    | nil => rfl
    | cons head rest ih =>
      simp only [List.map_cons, find_cons, ih]
      split <;> rfl
  exact hfind m.entries

theorem mem_scan_keys {f : σ → κ → ν → σ × Option μ} {m : OrderedMap κ ν} {s : σ} {e : κ × μ}
    (h : e ∈ (m.scan f s).2.entries) : ∃ v, (e.1, v) ∈ m.entries :=
  mem_keys_of_scanEntries h

theorem scan_filter {f : σ → κ → ν → σ × Option μ} {p : κ → ν → Bool}
    (idle : ∀ s k v, p k v = false → f s k v = (s, none)) (m : OrderedMap κ ν) (s : σ) :
    (m.filter p).scan f s = m.scan f s := by
  have hentries := scanEntries_filter idle s m.entries
  exact Prod.ext (congrArg (·.1) hentries) (OrderedMap.ext (congrArg (·.2) hentries))

end OrderedMap

variable [Std.TransOrd κ] [Std.LawfulEqOrd κ]

theorem findEntry?_insertEntry (k l : κ) (v : ν) (entries : List (κ × ν)) :
    findEntry? l (insertEntry k v entries) =
      if compare l k = .eq then some v else findEntry? l entries := by
  induction entries with
  | nil => rfl
  | cons head rest ih =>
    obtain ⟨k', v'⟩ := head
    rw [insertEntry]
    split
    next => rfl
    next heq =>
      obtain rfl : k = k' := Std.LawfulEqCmp.eq_of_compare heq
      by_cases hl : compare l k = .eq
      · simp [find_cons, hl]
      · simp [find_cons, hl]
    next hgt =>
      by_cases hl : compare l k' = .eq
      · obtain rfl : l = k' := Std.LawfulEqCmp.eq_of_compare hl
        have hlt : compare l k = .lt := Std.OrientedCmp.lt_of_gt hgt
        simp [find_cons, hlt]
      · simp [find_cons, hl, ih]

omit [Std.TransOrd κ] in
theorem mem_of_found {k : κ} {v : ν} {entries : List (κ × ν)} (h : findEntry? k entries = some v) :
    (k, v) ∈ entries := by
  induction entries with
  | nil => simp [find_nil] at h
  | cons head rest ih =>
    obtain ⟨k', v'⟩ := head
    rw [find_cons] at h
    split at h
    next heq =>
      obtain rfl : k = k' := Std.LawfulEqCmp.eq_of_compare heq
      obtain rfl : v' = v := Option.some.inj h
      simp
    next => exact List.mem_cons_of_mem _ (ih h)

theorem findEntry?_of_mem {k : κ} {v : ν} {entries : List (κ × ν)} (ascending : Ascending entries)
    (h : (k, v) ∈ entries) : findEntry? k entries = some v := by
  induction entries with
  | nil => simp at h
  | cons head rest ih =>
    obtain ⟨above, tail⟩ := List.pairwise_cons.mp ascending
    rcases List.mem_cons.mp h with rfl | h
    · simp [find_cons]
    · have hgt : compare k head.1 = .gt := Std.OrientedCmp.gt_of_lt (above _ h)
      rw [find_cons, hgt]
      exact ih tail h

/-- There is only one way to put entries in order. -/
theorem Ascending.eq_of_mem_iff {xs ys : List (κ × ν)} (hxs : Ascending xs) (hys : Ascending ys)
    (h : ∀ e, e ∈ xs ↔ e ∈ ys) : xs = ys := by
  induction xs generalizing ys with
  | nil => exact (List.eq_nil_iff_forall_not_mem.mpr fun e he => by simpa using (h e).mpr he).symm
  | cons x xs ih =>
    cases ys with
    | nil => simpa using (h x).mp List.mem_cons_self
    | cons y ys =>
      obtain ⟨hx, hxrest⟩ := List.pairwise_cons.mp hxs
      obtain ⟨hy, hyrest⟩ := List.pairwise_cons.mp hys
      -- the least entry of either list is in the other one, where nothing is below its least entry
      have hhead : x = y := by
        rcases List.mem_cons.mp ((h x).mp List.mem_cons_self) with rfl | hxmem
        · rfl
        rcases List.mem_cons.mp ((h y).mpr List.mem_cons_self) with rfl | hymem
        · rfl
        have hgt := Std.OrientedCmp.gt_of_lt (hx y hymem)
        rw [hy x hxmem] at hgt
        cases hgt
      subst hhead
      have hself : compare x.1 x.1 = .eq := Std.ReflCmp.compare_self
      have hout {zs : List (κ × ν)} (above : ∀ z ∈ zs, compare x.1 z.1 = .lt) : x ∉ zs := fun hmem =>
        absurd (hself.symm.trans (above x hmem)) (by decide)
      refine congrArg (x :: ·) (ih hxrest hyrest fun e => ?_)
      by_cases he : e = x
      · subst he
        simp [hout hx, hout hy]
      · simpa [he] using h e

namespace OrderedMap

theorem get?_insert (m : OrderedMap κ ν) (k l : κ) (v : ν) :
    (m.insert k v).get? l = if compare l k = .eq then some v else m.get? l :=
  findEntry?_insertEntry k l v m.entries

theorem get?_insert_self (m : OrderedMap κ ν) (k : κ) (v : ν) : (m.insert k v).get? k = some v := by
  simp [get?_insert]

theorem get?_insert_other (m : OrderedMap κ ν) {k l : κ} (v : ν) (h : l ≠ k) :
    (m.insert k v).get? l = m.get? l := by
  rw [get?_insert, if_neg fun heq => h (Std.LawfulEqCmp.eq_of_compare heq)]

theorem get?_eq_some_iff {m : OrderedMap κ ν} {k : κ} {v : ν} :
    m.get? k = some v ↔ (k, v) ∈ m.entries :=
  ⟨mem_of_found, findEntry?_of_mem m.ascending⟩

/-- A map is all that a look-up tells of it. -/
theorem ext_get? {m n : OrderedMap κ ν} (h : ∀ k, m.get? k = n.get? k) : m = n := by
  refine OrderedMap.ext (m.ascending.eq_of_mem_iff n.ascending fun e => ?_)
  rw [← get?_eq_some_iff, ← get?_eq_some_iff, h]

/-- A map is made again by its own entries. -/
theorem ofList_entries (m : OrderedMap κ ν) : ofList m.entries = m := by
  have hinsert {entries : List (κ × ν)} {k : κ} {v : ν} (h : ∀ e ∈ entries, compare e.1 k = .lt) :
      insertEntry k v entries = entries ++ [(k, v)] := by
    induction entries with
    | nil => rfl
    | cons head rest ih =>
      obtain ⟨hhead, hrest⟩ := List.forall_mem_cons.mp h
      rw [insertEntry, Std.OrientedCmp.gt_of_lt hhead]
      exact congrArg (head :: ·) (ih hrest)
  have hfold (entries : List (κ × ν)) (m : OrderedMap κ ν) (h : Ascending (m.entries ++ entries)) :
      (entries.foldl (fun m e => m.insert e.1 e.2) m).entries = m.entries ++ entries := by
    induction entries generalizing m with
    | nil => simp
    | cons e rest ih =>
      obtain ⟨-, -, hbelow⟩ := List.pairwise_append.mp h
      have hlast : (m.insert e.1 e.2).entries = m.entries ++ [e] :=
        hinsert fun a ha => hbelow a ha e List.mem_cons_self
      have happend : m.entries ++ e :: rest = (m.insert e.1 e.2).entries ++ rest := by
        rw [hlast, List.append_assoc]
        rfl
      rw [happend] at h ⊢
      exact ih _ h
  exact OrderedMap.ext (hfold m.entries empty m.ascending)

/-- A table of some keys tells of each of them what was put under it. -/
theorem get?_ofList_map (f : κ → ν) {keys : List κ} {k : κ} (h : k ∈ keys) :
    (ofList (keys.map fun k => (k, f k))).get? k = some (f k) := by
  have hfold (m : OrderedMap κ ν) (hk : k ∈ keys ∨ m.get? k = some (f k)) :
      ((keys.map fun k => (k, f k)).foldl (fun m e => m.insert e.1 e.2) m).get? k = some (f k) := by
    clear h
    induction keys generalizing m with
    | nil => simpa using hk
    | cons l keys ih =>
      refine ih (m.insert l (f l)) ?_
      by_cases hkl : k = l
      · exact Or.inr (hkl ▸ m.get?_insert_self k (f k))
      · rw [m.get?_insert_other _ hkl]
        exact hk.imp_left fun hk => (List.mem_cons.mp hk).resolve_left hkl
  exact hfold empty (Or.inl h)

theorem mem_keys_ofList {keys : List κ} {k : κ} (h : k ∈ keys) : k ∈ (ofList (keys.map (·, ()))).keys :=
  List.mem_map.mpr ⟨(k, ()), get?_eq_some_iff.mp (get?_ofList_map (fun _ => ()) h), rfl⟩

theorem mem_of_mem_ofList {entries : List (κ × ν)} {e : κ × ν} (h : e ∈ (ofList entries).entries) :
    e ∈ entries := by
  have hfold (m : OrderedMap κ ν) (he : e ∈ (entries.foldl (fun m e => m.insert e.1 e.2) m).entries) :
      e ∈ m.entries ∨ e ∈ entries := by
    clear h
    induction entries generalizing m with
    | nil => exact Or.inl he
    | cons head entries ih =>
      rcases ih (m.insert head.1 head.2) he with hm | hrest
      · rcases mem_insertEntry hm with rfl | hm
        · exact Or.inr List.mem_cons_self
        · exact Or.inl hm
      · exact Or.inr (List.mem_cons_of_mem _ hrest)
  exact (hfold empty h).resolve_left (by simp [empty])

theorem mem_keys_ofList_iff {keys : List κ} {k : κ} : k ∈ (ofList (keys.map (·, ()))).keys ↔ k ∈ keys := by
  refine ⟨fun h => ?_, mem_keys_ofList⟩
  obtain ⟨e, he, rfl⟩ := List.mem_map.mp h
  obtain ⟨k, hk, rfl⟩ := List.mem_map.mp (mem_of_mem_ofList he)
  exact hk

omit [Std.TransOrd κ] [Std.LawfulEqOrd κ] in
theorem keys_ascending (m : OrderedMap κ ν) : m.keys.Pairwise fun k l => compare k l = .lt :=
  List.pairwise_map.mpr m.ascending

end OrderedMap

end SeriesStream
