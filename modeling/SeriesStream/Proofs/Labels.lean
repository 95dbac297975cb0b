import SeriesStream.Proofs.LastWrite
import SeriesStream.Proofs.RoundTrip

namespace SeriesStream

theorem OrderedMap.beq_iff {κ ν : Type} [Ord κ] [BEq κ] [LawfulBEq κ] [BEq ν] [LawfulBEq ν]
    {m n : OrderedMap κ ν} : (m == n) = true ↔ m = n := by
  have hentries : (m == n) = (m.entries == n.entries) := rfl
  rw [hentries, beq_iff_eq]
  exact ⟨OrderedMap.ext, congrArg entries⟩

namespace TagSet

/-- The tag set with more labels, given one after the other. -/
def addAll (t : TagSet) (labels : List (String × String)) : TagSet :=
  labels.foldl (fun t label => t.insert label.1 label.2) t

/-- The last value that labels give to a key. -/
def lastGiven? (labels : List (String × String)) (key : String) : Option String := labels.reverse.lookup key

theorem addAll_ofPairs (pairs labels : List (String × String)) :
    (ofPairs pairs).addAll labels = ofPairs (pairs ++ labels) :=
  (List.foldl_append ..).symm

theorem get?_ofPairs (labels : List (String × String)) (key : String) :
    (ofPairs labels).get? key = lastGiven? labels key := by
  have hempty : (OrderedMap.empty : TagSet).get? key = none := rfl
  rw [ofPairs, OrderedMap.ofList, OrderedMap.get?_foldl_insert, hempty, Option.or_none]
  rfl

theorem ofPairs_eq_iff {labels labels' : List (String × String)} :
    ofPairs labels = ofPairs labels' ↔ ∀ key, lastGiven? labels key = lastGiven? labels' key := by
  constructor
  · intro h key
    rw [← get?_ofPairs, ← get?_ofPairs, h]
  · intro h
    refine OrderedMap.ext_get? fun key => ?_
    rw [get?_ofPairs, get?_ofPairs, h]

/-- Labels with different keys may be given in any order. -/
theorem ofPairs_perm {labels labels' : List (String × String)} (distinct : (labels.map (·.1)).Nodup)
    (h : labels.Perm labels') : ofPairs labels = ofPairs labels' := by
  refine h.foldl_eq' (fun a ha b hb t => ?_) OrderedMap.empty
  by_cases heq : a = b
  · rw [heq]
  · have hkey : a.1 ≠ b.1 := fun hkey => heq (List.inj_on_of_nodup_map distinct ha hb hkey)
    exact t.insert_insert_other hkey a.2 b.2

theorem mem_keys_ofPairs {labels : List (String × String)} {key : String} :
    key ∈ (ofPairs labels).keys ↔ key ∈ labels.map (·.1) := by
  have hfound : key ∈ (ofPairs labels).keys ↔ (lastGiven? labels key).isSome = true := by
    rw [← get?_ofPairs, Option.isSome_iff_exists]
    simp only [OrderedMap.keys, List.mem_map, OrderedMap.get?_eq_some_iff]
    constructor
    · rintro ⟨e, he, rfl⟩
      exact ⟨e.2, he⟩
    · rintro ⟨value, he⟩
      exact ⟨(key, value), he, rfl⟩
  simp [hfound, lastGiven?, List.lookup_isSome_iff]

/-- A tag set has as many labels as there are different keys. -/
theorem size_ofPairs (labels : List (String × String)) :
    (ofPairs labels).size = (labels.map (·.1)).dedup.length := by
  have hkeys : (ofPairs labels).keys.Perm (labels.map (·.1)).dedup := by
    refine (List.perm_ext_iff_of_nodup (OrderedMap.nodup_keys _) (List.nodup_dedup _)).mpr fun key => ?_
    rw [List.mem_dedup, mem_keys_ofPairs]
  rw [← hkeys.length_eq, OrderedMap.size, OrderedMap.keys, List.length_map]

/-- Whatever is kept by tag set is kept once for the same labels: two of its keys differ in the value of a label. -/
theorem keys_differ {ν : Type} (m : OrderedMap TagSet ν) :
    m.keys.Pairwise fun t t' => ∃ key, t.get? key ≠ t'.get? key := by
  refine m.nodup_keys.imp fun {t t'} hne => ?_
  by_contra hsame
  exact hne (OrderedMap.ext_get? fun key => by_contra fun h => hsame ⟨key, h⟩)

theorem toText_injective {t t' : TagSet} (h : t.toJson.toText = t'.toJson.toText) : t = t' := by
  have hread := Json.Decoder.whole_toText TagSet.ofJson t.printable
  rw [h, Json.Decoder.whole_toText TagSet.ofJson t'.printable, ofJson_toJson, ofJson_toJson] at hread
  exact (Except.ok.inj hread).symm

/-- Tag sets are the same exactly if every key was last given the same value, whether it came with the first labels
or was added later, and labels of different keys may come in any order. Equal tag sets are shown alike and have one
JSON text, which no other tag set has. They are in a total order, and a store has one series of a query for the same
labels. -/
theorem tag_sets_are_canonical :
    (∀ pairs added pairs' added' : List (String × String),
      ((ofPairs pairs).addAll added == (ofPairs pairs').addAll added') = true ↔
        ∀ key, lastGiven? (pairs ++ added) key = lastGiven? (pairs' ++ added') key) ∧
    (∀ labels labels' : List (String × String), (labels.map (·.1)).Nodup → labels.Perm labels' →
      (ofPairs labels == ofPairs labels') = true) ∧
    (∀ t t' : TagSet, ((t == t') = true ↔ t.toJson.toText = t'.toJson.toText) ∧
      ((t == t') = true → t.render = t'.render ∧ t.size = t'.size)) ∧
    (∀ pairs added : List (String × String),
      ((ofPairs pairs).addAll added).size = ((pairs ++ added).map (·.1)).dedup.length) ∧
    (∀ t t' : TagSet, (compare t t' = .eq ↔ (t == t') = true) ∧ compare t' t = (compare t t').swap) ∧
    (∀ t t' t'' : TagSet, (compare t t').isLE → (compare t' t'').isLE → (compare t t'').isLE) ∧
    ∀ (calls : List Store.Call) (q : BaseQuery),
      ((Store.empty.performAll calls).2.seriesOf q).keys.Pairwise fun t t' => ∃ key, t.get? key ≠ t'.get? key := by
  refine ⟨?_, ?_, ?_, ?_, ?_, ?_, ?_⟩
  · intro pairs added pairs' added'
    rw [OrderedMap.beq_iff, addAll_ofPairs, addAll_ofPairs, ofPairs_eq_iff]
  · intro labels labels' distinct h
    exact OrderedMap.beq_iff.mpr (ofPairs_perm distinct h)
  · intro t t'
    rw [OrderedMap.beq_iff]
    refine ⟨⟨fun h => ?_, toText_injective⟩, fun h => ?_⟩
    · rw [h]
    · rw [h]
      exact ⟨rfl, rfl⟩
  · intro pairs added
    rw [addAll_ofPairs, size_ofPairs]
  · intro t t'
    rw [OrderedMap.beq_iff]
    exact ⟨Std.LawfulEqCmp.compare_eq_iff_eq, Std.OrientedCmp.eq_swap⟩
  · intro t t' t'' h h'
    exact Std.TransCmp.isLE_trans h h'
  · intro calls q
    exact keys_differ _

theorem two_labels_in_either_order :
    (([("host", "a"), ("dc", "east")] : List (String × String)).map (·.1)).Nodup ∧
      [("host", "a"), ("dc", "east")].Perm [("dc", "east"), ("host", "a")] ∧
      (ofPairs [("host", "a"), ("dc", "east")] == ofPairs [("dc", "east"), ("host", "a")]) = true ∧
      (ofPairs [("host", "a"), ("dc", "east")]).render = (ofPairs [("dc", "east"), ("host", "a")]).render ∧
      (compare (ofPairs []) (ofPairs [("dc", "east")])).isLE ∧
      (compare (ofPairs [("dc", "east")]) (ofPairs [("dc", "west")])).isLE ∧
      (compare (ofPairs []) (ofPairs [("dc", "west")])).isLE := by
  obtain ⟨-, hperm, hshown, -, -, htrans, -⟩ := tag_sets_are_canonical
  have hdistinct : (([("host", "a"), ("dc", "east")] : List (String × String)).map (·.1)).Nodup := by decide
  have hswap : [("host", "a"), ("dc", "east")].Perm [("dc", "east"), ("host", "a")] := .swap _ _ _
  have hsame := hperm _ _ hdistinct hswap
  have hlow : (compare (ofPairs []) (ofPairs [("dc", "east")])).isLE := by rfl
  have hhigh : (compare (ofPairs [("dc", "east")]) (ofPairs [("dc", "west")])).isLE := by decide
  exact ⟨hdistinct, hswap, hsame, ((hshown _ _).2 hsame).1, hlow, hhigh, htrans _ _ _ hlow hhigh⟩

end TagSet

end SeriesStream
