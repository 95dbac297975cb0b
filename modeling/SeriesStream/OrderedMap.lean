namespace SeriesStream

/-- Puts `v` under `k`, keeping the keys in ascending order. -/
def insertEntry {κ ν : Type} [Ord κ] (k : κ) (v : ν) : List (κ × ν) → List (κ × ν)
  | [] => [(k, v)]
  | (k', v') :: rest =>
    match compare k k' with
    | .lt => (k, v) :: (k', v') :: rest
    | .eq => (k, v) :: rest
    | .gt => (k', v') :: insertEntry k v rest

/-- The value under the first entry whose key is `k`. -/
def findEntry? {κ ν : Type} [Ord κ] (k : κ) : List (κ × ν) → Option ν
  | [] => none
  | (k', v) :: rest => if compare k k' = .eq then some v else findEntry? k rest

/-- The keys of the entries rise from left to right. -/
def Ascending {κ ν : Type} [Ord κ] (entries : List (κ × ν)) : Prop :=
  entries.Pairwise fun a b => compare a.1 b.1 = .lt

theorem mem_insertEntry {κ ν : Type} [Ord κ] {k : κ} {v : ν} {e : κ × ν} {entries : List (κ × ν)}
    (h : e ∈ insertEntry k v entries) : e = (k, v) ∨ e ∈ entries := by
  induction entries with
  | nil => simpa [insertEntry] using h
  | cons head rest ih =>
    rw [insertEntry] at h
    split at h
    · simpa using h
    · rcases List.mem_cons.mp h with rfl | h
      · exact Or.inl rfl
      · exact Or.inr (List.mem_cons_of_mem _ h)
    · rcases List.mem_cons.mp h with rfl | h
      · exact Or.inr (by simp)
      · exact (ih h).imp_right (List.mem_cons_of_mem _)

theorem Ascending.insertEntry {κ ν : Type} [Ord κ] [Std.TransOrd κ] [Std.LawfulEqOrd κ]
    {entries : List (κ × ν)} (h : Ascending entries) (k : κ) (v : ν) :
    Ascending (insertEntry k v entries) := by
  induction entries with
  | nil => simp [SeriesStream.insertEntry, Ascending]
  | cons head rest ih =>
    obtain ⟨above, tail⟩ := List.pairwise_cons.mp h
    rw [SeriesStream.insertEntry]
    split
    next hlt =>
      refine List.pairwise_cons.mpr ⟨fun e he => ?_, h⟩
      rcases List.mem_cons.mp he with rfl | he
      · exact hlt
      · exact Std.TransCmp.lt_trans hlt (above e he)
    next heq =>
      refine List.pairwise_cons.mpr ⟨fun e he => ?_, tail⟩
      rw [Std.LawfulEqCmp.eq_of_compare heq]
      exact above e he
    next hgt =>
      refine List.pairwise_cons.mpr ⟨fun e he => ?_, ih tail⟩
      rcases mem_insertEntry he with rfl | he
      · exact Std.OrientedCmp.lt_of_gt hgt
      · exact above e he

/-- Threads a state through the entries and keeps, under its key, each value that `f` yields. -/
def scanEntries {κ ν μ σ : Type} (f : σ → κ → ν → σ × Option μ) :
    σ → List (κ × ν) → σ × List (κ × μ)
  | s, [] => (s, [])
  | s, (k, v) :: rest =>
    let (s', w) := f s k v
    let (s'', kept) := scanEntries f s' rest
    (s'', (w.map (k, ·)).toList ++ kept)

theorem mem_keys_of_scanEntries {κ ν μ σ : Type} {f : σ → κ → ν → σ × Option μ} {s : σ}
    {entries : List (κ × ν)} {e : κ × μ} (h : e ∈ (scanEntries f s entries).2) :
    ∃ v, (e.1, v) ∈ entries := by
  induction entries generalizing s with
  | nil => simp [scanEntries] at h
  | cons head rest ih =>
    simp only [scanEntries, List.mem_append] at h
    rcases h with h | h
    · obtain ⟨w, _, rfl⟩ : ∃ w, (f s head.1 head.2).2 = some w ∧ (head.1, w) = e := by
        simpa using h
      exact ⟨head.2, by simp⟩
    · obtain ⟨v, hv⟩ := ih h
      exact ⟨v, List.mem_cons_of_mem _ hv⟩

theorem Ascending.scanEntries {κ ν μ σ : Type} [Ord κ] {entries : List (κ × ν)}
    (h : Ascending entries) (f : σ → κ → ν → σ × Option μ) (s : σ) :
    Ascending (scanEntries f s entries).2 := by
  induction entries generalizing s with
  | nil => exact List.Pairwise.nil
  | cons head rest ih =>
    obtain ⟨above, tail⟩ := List.pairwise_cons.mp h
    refine List.pairwise_append.mpr ⟨?_, ih tail _, fun a ha b hb => ?_⟩
    · cases (f s head.1 head.2).2 <;> simp
    · obtain ⟨w, _, rfl⟩ : ∃ w, (f s head.1 head.2).2 = some w ∧ (head.1, w) = a := by
        simpa using ha
      obtain ⟨v, hv⟩ := mem_keys_of_scanEntries hb
      exact above _ hv

/-- A finite map held as its entries in ascending key order, so that maps with the same entries
are the same map. -/
@[ext] structure OrderedMap (κ ν : Type) [Ord κ] where
  entries : List (κ × ν)
  ascending : Ascending entries

namespace OrderedMap

variable {κ ν : Type} [Ord κ]

def empty : OrderedMap κ ν := ⟨[], List.Pairwise.nil⟩

instance : Inhabited (OrderedMap κ ν) := ⟨empty⟩

instance [DecidableEq κ] [DecidableEq ν] : DecidableEq (OrderedMap κ ν) := fun a b =>
  decidable_of_iff (a.entries = b.entries) ⟨OrderedMap.ext, congrArg entries⟩

/-- Entrywise equality under the values' own test, so a value that differs from itself makes the
map differ from itself. -/
instance [BEq κ] [BEq ν] : BEq (OrderedMap κ ν) := ⟨fun a b => a.entries == b.entries⟩

def insert [Std.TransOrd κ] [Std.LawfulEqOrd κ] (m : OrderedMap κ ν) (k : κ) (v : ν) :
    OrderedMap κ ν :=
  ⟨insertEntry k v m.entries, m.ascending.insertEntry k v⟩

/-- Of entries with equal keys the last one stays. -/
def ofList [Std.TransOrd κ] [Std.LawfulEqOrd κ] (entries : List (κ × ν)) : OrderedMap κ ν :=
  entries.foldl (fun m e => m.insert e.1 e.2) empty

def get? (m : OrderedMap κ ν) (k : κ) : Option ν := findEntry? k m.entries

def getD (m : OrderedMap κ ν) (k : κ) (v : ν) : ν := (m.get? k).getD v

def size (m : OrderedMap κ ν) : Nat := m.entries.length

def isEmpty (m : OrderedMap κ ν) : Bool := m.entries.isEmpty

def keys (m : OrderedMap κ ν) : List κ := m.entries.map (·.1)

def values (m : OrderedMap κ ν) : List ν := m.entries.map (·.2)

def filter (m : OrderedMap κ ν) (p : κ → ν → Bool) : OrderedMap κ ν :=
  ⟨m.entries.filter fun e => p e.1 e.2, m.ascending.filter _⟩

/-- Threads a state through the entries in key order; each key whose value `f` replaces stays. -/
def scan {μ σ : Type} (m : OrderedMap κ ν) (f : σ → κ → ν → σ × Option μ) (s : σ) :
    σ × OrderedMap κ μ :=
  ((scanEntries f s m.entries).1, ⟨(scanEntries f s m.entries).2, m.ascending.scanEntries f s⟩)

/-- Entries are ordered by key, then by value. -/
def compareEntries [Ord ν] : κ × ν → κ × ν → Ordering :=
  compareLex (compareOn Prod.fst) (compareOn Prod.snd)

instance [Ord ν] [Std.OrientedOrd κ] [Std.OrientedOrd ν] :
    Std.OrientedCmp (@compareEntries κ ν _ _) :=
  inferInstanceAs (Std.OrientedCmp (compareLex (compareOn Prod.fst) (compareOn Prod.snd)))

instance [Ord ν] [Std.TransOrd κ] [Std.TransOrd ν] : Std.TransCmp (@compareEntries κ ν _ _) :=
  inferInstanceAs (Std.TransCmp (compareLex (compareOn Prod.fst) (compareOn Prod.snd)))

instance [Ord ν] [Std.LawfulEqOrd κ] [Std.LawfulEqOrd ν] :
    Std.LawfulEqCmp (@compareEntries κ ν _ _) where
  compare_self := by simp [compareEntries, compareLex, compareOn]
  eq_of_compare h := by
    simp only [compareEntries, compareLex_eq_eq, compareOn] at h
    exact Prod.ext (Std.LawfulEqCmp.eq_of_compare h.1) (Std.LawfulEqCmp.eq_of_compare h.2)

/-- Maps are ordered by their first different entry, and a map comes before those that extend it. -/
instance [Ord ν] : Ord (OrderedMap κ ν) where
  compare a b := List.compareLex compareEntries a.entries b.entries

instance [Ord ν] [Std.TransOrd κ] [Std.TransOrd ν] : Std.TransOrd (OrderedMap κ ν) where
  eq_swap := Std.OrientedCmp.eq_swap (α := List (κ × ν))
  isLE_trans := Std.TransCmp.isLE_trans (α := List (κ × ν))

instance [Ord ν] [Std.LawfulEqOrd κ] [Std.LawfulEqOrd ν] : Std.LawfulEqOrd (OrderedMap κ ν) where
  compare_self := Std.ReflCmp.compare_self (α := List (κ × ν))
  eq_of_compare h := OrderedMap.ext (Std.LawfulEqCmp.eq_of_compare (α := List (κ × ν)) h)

end OrderedMap

end SeriesStream
