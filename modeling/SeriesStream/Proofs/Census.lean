import Mathlib.Data.List.Dedup
import SeriesStream.Proofs.Lookup
import SeriesStream.Store

namespace SeriesStream.Store

/-- The pairs of a query and a tag set that were written. -/
def pairs (s : Store) : List (BaseQuery × TagSet) := s.series.entries.flatMap fun e => e.2.keys.map (e.1, ·)

theorem length_pairs (s : Store) : s.pairs.length = s.seriesCount := by
  simp only [pairs, seriesCount, OrderedMap.values, OrderedMap.keys, List.length_flatMap, List.map_map]
  congr 1
  exact List.map_congr_left fun e _ => by simp

theorem mem_pairs_iff {s : Store} {q : BaseQuery} {t : TagSet} :
    (q, t) ∈ s.pairs ↔ ∃ samples, (s.seriesOf q).get? t = some samples := by
  unfold pairs
  rw [List.mem_flatMap]
  constructor
  · rintro ⟨⟨q', series⟩, he, hmem⟩
    obtain ⟨t', ht, heq⟩ := List.mem_map.mp hmem
    obtain ⟨rfl, rfl⟩ := Prod.mk.inj heq
    obtain ⟨⟨t, samples⟩, hsamples, rfl⟩ := List.mem_map.mp ht
    have hfound : s.series.get? q' = some series := OrderedMap.get?_eq_some_iff.mpr he
    refine ⟨samples, ?_⟩
    rw [seriesOf, OrderedMap.getD, hfound]
    exact OrderedMap.get?_eq_some_iff.mpr hsamples
  · rintro ⟨samples, hsamples⟩
    cases hfound : s.series.get? q with
    | none =>
      rw [seriesOf, OrderedMap.getD, hfound] at hsamples
      cases hsamples
    | some series =>
      rw [seriesOf, OrderedMap.getD, hfound] at hsamples
      refine ⟨(q, series), OrderedMap.get?_eq_some_iff.mp hfound, List.mem_map_of_mem ?_⟩
      exact List.mem_map.mpr ⟨(t, samples), OrderedMap.get?_eq_some_iff.mp hsamples, rfl⟩

theorem nodup_pairs (s : Store) : s.pairs.Nodup := by
  have hne {κ : Type} [Ord κ] [Std.ReflOrd κ] {k l : κ} (h : compare k l = .lt) : k ≠ l := by
    rintro rfl
    rw [Std.ReflOrd.compare_self] at h
    cases h
  refine List.nodup_flatMap.mpr ⟨fun e _ => ?_, ?_⟩
  · refine List.Nodup.map (fun t t' h => (Prod.mk.inj h).2) ?_
    exact (OrderedMap.keys_ascending e.2).imp hne
  · refine s.series.ascending.imp fun {e e'} hlt x hx hx' => ?_
    obtain ⟨t, -, rfl⟩ := List.mem_map.mp hx
    obtain ⟨t', -, heq⟩ := List.mem_map.mp hx'
    exact hne hlt (Prod.mk.inj heq).1.symm

theorem mem_pairs_write {s : Store} {q : BaseQuery} {t : TagSet} {points : List (Int × Float)}
    {x : BaseQuery × TagSet} : x ∈ (s.write q t points).2.pairs ↔ x = (q, t) ∨ x ∈ s.pairs := by
  obtain ⟨q', t'⟩ := x
  simp only [mem_pairs_iff, write, seriesOf, OrderedMap.getD, Prod.mk.injEq]
  by_cases hq : q' = q
  · subst hq
    rw [OrderedMap.get?_insert_self, Option.getD_some]
    by_cases ht : t' = t
    · subst ht
      simp [OrderedMap.get?_insert_self]
    · simp [OrderedMap.get?_insert_other _ _ ht, ht]
  · simp [OrderedMap.get?_insert_other _ _ hq, hq]

/-- A store counts the pairs it was written, each once. -/
theorem seriesCount_eq {s : Store} {written : List (BaseQuery × TagSet)}
    (h : ∀ x, x ∈ s.pairs ↔ x ∈ written) : s.seriesCount = written.dedup.length := by
  rw [← length_pairs]
  refine List.Perm.length_eq ((List.perm_ext_iff_of_nodup s.nodup_pairs written.nodup_dedup).mpr fun x => ?_)
  rw [h, List.mem_dedup]

end SeriesStream.Store
