import Mathlib.Data.List.Induction
import SeriesStream.Proofs.Census

namespace SeriesStream

namespace OrderedMap

variable {κ ν : Type} [Ord κ] [Std.TransOrd κ] [Std.LawfulEqOrd κ]

omit [Std.TransOrd κ] in
theorem nodup_keys (m : OrderedMap κ ν) : m.keys.Nodup := by
  refine m.keys_ascending.imp fun {k l} hlt => ?_
  rintro rfl
  rw [Std.ReflOrd.compare_self] at hlt
  cases hlt

/-- The last of the new entries under a key, or else what was there before. -/
theorem get?_foldl_insert [BEq κ] [LawfulBEq κ] (entries : List (κ × ν)) (m : OrderedMap κ ν) (k : κ) :
    (entries.foldl (fun m e => m.insert e.1 e.2) m).get? k = (entries.reverse.lookup k).or (m.get? k) := by
  induction entries generalizing m with
  | nil => rfl
  | cons e rest ih =>
    rw [List.foldl_cons, ih, List.reverse_cons, List.lookup_append, Option.or_assoc]
    congr 1
    by_cases hk : k = e.1
    · rw [hk, get?_insert_self, List.lookup_cons, beq_self_eq_true]
      rfl
    · rw [get?_insert_other m e.2 hk, List.lookup_cons, beq_false_of_ne hk]
      rfl

theorem insert_insert_self (m : OrderedMap κ ν) (k : κ)
    (v v' : ν) : (m.insert k v).insert k v' = m.insert k v' := by
  refine ext_get? fun l => ?_
  simp only [get?_insert]
  split <;> rfl

theorem insert_insert_other (m : OrderedMap κ ν) {k k' : κ}
    (h : k ≠ k') (v v' : ν) : (m.insert k v).insert k' v' = (m.insert k' v').insert k v := by
  refine ext_get? fun l => ?_
  by_cases hk : l = k
  · subst hk
    rw [get?_insert_other _ _ h, get?_insert_self, get?_insert_self]
  · rw [get?_insert_other _ v hk]
    by_cases hk' : l = k'
    · rw [hk', get?_insert_self, get?_insert_self]
    · rw [get?_insert_other _ _ hk', get?_insert_other _ _ hk',
        get?_insert_other _ _ hk]

end OrderedMap

namespace Store

/-- What a caller does with a store. -/
inductive Call
  | write (query : BaseQuery) (tags : TagSet) (points : List (Int × Float))
  | fetch (request : FetchRequest)
  | seriesCount
  | fetchCount

/-- What a call comes back with. -/
inductive Answer
  | number (n : Nat)
  | data (d : RawData)

def perform (s : Store) : Call → Answer × Store
  | .write query tags points => (.number (s.write query tags points).1, (s.write query tags points).2)
  | .fetch r => (.data (s.fetch r).1, (s.fetch r).2)
  | .seriesCount => (.number s.seriesCount, s)
  | .fetchCount => (.number s.fetches, s)

/-- The answers to calls made one after the other, and the store behind them. -/
def performAll (s : Store) : List Call → List Answer × Store
  | [] => ([], s)
  | call :: calls =>
    ((s.perform call).1 :: ((s.perform call).2.performAll calls).1, ((s.perform call).2.performAll calls).2)

theorem performAll_append (s : Store) (before after : List Call) :
    s.performAll (before ++ after) = ((s.performAll before).1 ++ ((s.performAll before).2.performAll after).1,
      ((s.performAll before).2.performAll after).2) := by
  induction before generalizing s with
  | nil => rfl
  | cons call before ih => simp [performAll, ih]

theorem length_performAll (s : Store) (calls : List Call) : (s.performAll calls).1.length = calls.length := by
  induction calls generalizing s with
  | nil => rfl
  | cons call calls ih => simp [performAll, ih]

/-! What the calls made so far say of a store, as one flat map where the last write wins. -/

namespace Call

/-- The pair that the call makes known. -/
def pair? : Call → Option (BaseQuery × TagSet)
  | write query tags _ => some (query, tags)
  | _ => none

/-- The points that the call writes under the pair. -/
def pointsFor (q : BaseQuery) (t : TagSet) : Call → List (Int × Float)
  | write query tags points => if query = q ∧ tags = t then points else []
  | _ => []

def isFetch : Call → Bool
  | fetch _ => true
  | _ => false

/-- The pairs that were written, once for each write. -/
def written (past : List Call) : List (BaseQuery × TagSet) := past.filterMap pair?

/-- The value that the last point of this timestamp gave. -/
def lastValue? (past : List Call) (q : BaseQuery) (t : TagSet) (time : Int) : Option Float :=
  (past.flatMap (pointsFor q t)).reverse.lookup time

def fetches (past : List Call) : Nat := past.countP isFetch

end Call

/-- The series of a query over a window: one for each tag set ever written, in ascending order, with the last values. -/
def Shows (past : List Call) (w : Window) (q : BaseQuery) (series : List TimeSeries) : Prop :=
  (series.map (·.tags)).Pairwise (fun t t' => compare t t' = .lt) ∧
    (∀ t, t ∈ series.map (·.tags) ↔ (q, t) ∈ Call.written past) ∧
    ∀ s ∈ series, ∀ time v, (time, v) ∈ s.values.entries ↔
      w.start ≤ time ∧ time < w.stop ∧ Call.lastValue? past q s.tags time = some v

/-- The answer to a call is the one that the calls before it ask for. -/
def Answers (past : List Call) : Call → Answer → Prop
  | .write _ _ points, .number n => n = points.length
  | .fetch r, .data d =>
    d.keys.Nodup ∧ (∀ q, q ∈ d.keys ↔ q ∈ r.queries) ∧ ∀ e ∈ d.entries, Shows past r.window e.1 e.2
  | .seriesCount, .number n => n = (Call.written past).dedup.length
  | .fetchCount, .number n => n = Call.fetches past
  | _, _ => False

/-- What is stored at a timestamp, whatever maps it is nested in. -/
def valueAt? (s : Store) (q : BaseQuery) (t : TagSet) (time : Int) : Option Float :=
  ((s.seriesOf q).getD t .empty).get? time

/-- The samples of a series with more points on top. -/
def merged (s : Store) (q : BaseQuery) (t : TagSet) (points : List (Int × Float)) : Samples :=
  points.foldl (fun m p => m.insert p.1 p.2) ((s.seriesOf q).getD t .empty)

theorem seriesOf_write_self (s : Store) (q : BaseQuery) (t : TagSet) (points : List (Int × Float)) :
    (s.write q t points).2.seriesOf q = (s.seriesOf q).insert t (s.merged q t points) := by
  simp only [seriesOf, OrderedMap.getD, write, OrderedMap.get?_insert_self, Option.getD_some]
  rfl

theorem seriesOf_write_other (s : Store) {q q' : BaseQuery} (h : q' ≠ q) (t : TagSet) (points : List (Int × Float)) :
    (s.write q t points).2.seriesOf q' = s.seriesOf q' := by
  simp only [seriesOf, OrderedMap.getD, write, OrderedMap.get?_insert_other _ _ h]

theorem get?_merged (s : Store) (q : BaseQuery) (t : TagSet) (points : List (Int × Float)) (time : Int) :
    (s.merged q t points).get? time = (points.reverse.lookup time).or (s.valueAt? q t time) :=
  OrderedMap.get?_foldl_insert points _ time

theorem valueAt?_perform (s : Store) (call : Call) (q : BaseQuery) (t : TagSet) (time : Int) :
    (s.perform call).2.valueAt? q t time = ((call.pointsFor q t).reverse.lookup time).or (s.valueAt? q t time) := by
  cases call with
  | write q' t' points =>
    show (s.write q' t' points).2.valueAt? q t time =
      ((if q' = q ∧ t' = t then points else []).reverse.lookup time).or (s.valueAt? q t time)
    by_cases hq : q = q'
    · subst hq
      rw [valueAt?, seriesOf_write_self]
      by_cases ht : t = t'
      · subst ht
        rw [OrderedMap.getD, OrderedMap.get?_insert_self, Option.getD_some, get?_merged]
        simp
      · rw [OrderedMap.getD, OrderedMap.get?_insert_other _ _ ht, if_neg fun h => ht h.2.symm]
        rfl
    · rw [valueAt?, seriesOf_write_other s hq, if_neg fun h => hq h.1.symm]
      rfl
  | fetch r => rfl
  | seriesCount => rfl
  | fetchCount => rfl

theorem mem_pairs_perform (s : Store) (call : Call) (x : BaseQuery × TagSet) :
    x ∈ (s.perform call).2.pairs ↔ x ∈ s.pairs ∨ call.pair? = some x := by
  cases call with
  | write q t points =>
    have hpair : (Call.write q t points).pair? = some x ↔ x = (q, t) := by simp [Call.pair?, eq_comm]
    rw [hpair]
    exact mem_pairs_write.trans or_comm
  | fetch r => simp [Call.pair?, perform, fetch, pairs]
  | seriesCount => simp [Call.pair?, perform]
  | fetchCount => simp [Call.pair?, perform]

theorem fetches_perform (s : Store) (call : Call) :
    (s.perform call).2.fetches = s.fetches + if call.isFetch then 1 else 0 := by
  cases call <;> rfl

/-- The store holds what the calls made so far say, and nothing else. -/
structure Reflects (past : List Call) (s : Store) : Prop where
  known : ∀ x, x ∈ s.pairs ↔ x ∈ Call.written past
  held : ∀ q t time, s.valueAt? q t time = Call.lastValue? past q t time
  asked : s.fetches = Call.fetches past

theorem reflects_empty : Reflects [] empty where
  known _ := Iff.rfl
  held _ _ _ := rfl
  asked := rfl

theorem Reflects.perform {past : List Call} {s : Store} (h : Reflects past s) (call : Call) :
    Reflects (past ++ [call]) (s.perform call).2 where
  known x := by
    rw [mem_pairs_perform, h.known x, Call.written, Call.written, List.filterMap_append, List.mem_append]
    simp [List.mem_filterMap]
  held q t time := by
    rw [valueAt?_perform, h.held q t time, Call.lastValue?, Call.lastValue?, List.flatMap_append,
      List.flatMap_singleton, List.reverse_append, List.lookup_append]
  asked := by
    rw [fetches_perform, h.asked, Call.fetches, Call.fetches, List.countP_append, List.countP_singleton]

theorem reflects_performAll (calls : List Call) : Reflects calls (empty.performAll calls).2 := by
  induction calls using List.reverseRecOn with
  | nil => exact reflects_empty
  | append_singleton calls call ih =>
    rw [performAll_append]
    exact ih.perform call

theorem Reflects.select {past : List Call} {s : Store} (h : Reflects past s) (w : Window) (q : BaseQuery) :
    Shows past w q (s.select q w.start w.stop) := by
  have htags : (s.select q w.start w.stop).map (·.tags) = (s.seriesOf q).keys := by
    simp [Store.select, OrderedMap.keys]
  refine ⟨?_, fun t => ?_, fun series hseries time v => ?_⟩
  · rw [htags]
    exact (s.seriesOf q).keys_ascending
  · rw [htags, ← h.known, mem_pairs_iff]
    simp only [OrderedMap.get?_eq_some_iff, OrderedMap.keys, List.mem_map]
    constructor
    · rintro ⟨e, he, rfl⟩
      exact ⟨e.2, he⟩
    · rintro ⟨samples, he⟩
      exact ⟨(t, samples), he, rfl⟩
  · obtain ⟨⟨t, samples⟩, he, rfl⟩ := List.mem_map.mp hseries
    have hfound : (s.seriesOf q).get? t = some samples := OrderedMap.get?_eq_some_iff.mpr he
    have hvalue : s.valueAt? q t time = samples.get? time := by
      rw [valueAt?, OrderedMap.getD, hfound]
      rfl
    have hheld : (time, v) ∈ samples.entries ↔ Call.lastValue? past q t time = some v := by
      rw [← h.held q t time, hvalue, OrderedMap.get?_eq_some_iff]
    show (time, v) ∈ samples.entries.filter _ ↔ _
    rw [List.mem_filter, decide_eq_true_iff, hheld]
    tauto

theorem Reflects.answers {past : List Call} {s : Store} (h : Reflects past s) (call : Call) :
    Answers past call (s.perform call).1 := by
  cases call with
  | write q t points => exact rfl
  | fetch r =>
    have hrequested {e : BaseQuery × List TimeSeries} (he : e ∈ (s.answer r).entries) :
        e.1 ∈ r.queries ∧ e.2 = s.select e.1 r.window.start r.window.stop := by
      obtain ⟨q, hq, rfl⟩ := List.mem_map.mp (OrderedMap.mem_of_mem_ofList he)
      exact ⟨hq, rfl⟩
    refine ⟨OrderedMap.nodup_keys _, fun q => ⟨fun hq => ?_, fun hq => ?_⟩, fun e he => ?_⟩
    · obtain ⟨e, he, rfl⟩ := List.mem_map.mp hq
      exact (hrequested he).1
    · have hfound := OrderedMap.get?_ofList_map (fun q => s.select q r.window.start r.window.stop) hq
      exact List.mem_map.mpr ⟨_, OrderedMap.get?_eq_some_iff.mp hfound, rfl⟩
    · rw [(hrequested he).2]
      exact h.select r.window e.1
  | seriesCount => exact seriesCount_eq h.known
  | fetchCount => exact h.asked

/-- Stores that differ at most in how often they were asked answer alike, but for that number. -/
theorem performAll_alike {s s' : Store} (h : s.series = s'.series) (calls : List Call) {i : Nat} {call : Call}
    (hi : calls[i]? = some call) (other : call ≠ .fetchCount) :
    (s.performAll calls).1[i]? = (s'.performAll calls).1[i]? := by
  induction calls generalizing s s' i with
  | nil => simp at hi
  | cons first calls ih =>
    have hseries : (s.perform first).2.series = (s'.perform first).2.series := by
      cases first <;> simp [perform, write, seriesOf, fetch, h]
    cases i with
    | zero =>
      obtain rfl : first = call := by simpa using hi
      have hanswer : (s.perform first).1 = (s'.perform first).1 := by
        cases first with
        | write q t points => rfl
        | fetch r => simp [perform, fetch, answer, select, seriesOf, h]
        | seriesCount => simp [perform, Store.seriesCount, h]
        | fetchCount => exact absurd rfl other
      simp [performAll, hanswer]
    | succ i => simpa [performAll] using ih hseries (by simpa using hi)

theorem get?_series_write (s : Store) (q q' : BaseQuery) (t : TagSet) (points : List (Int × Float)) :
    (s.write q t points).2.series.get? q' =
      if q' = q then some ((s.seriesOf q).insert t (s.merged q t points)) else s.series.get? q' := by
  show (s.series.insert q ((s.seriesOf q).insert t (s.merged q t points))).get? q' = _
  split
  next h => rw [h, OrderedMap.get?_insert_self]
  next h => rw [OrderedMap.get?_insert_other _ _ h]

theorem merged_write_other (s : Store) {q q' : BaseQuery} {t t' : TagSet} (h : (q, t) ≠ (q', t'))
    (p p' : List (Int × Float)) : (s.write q t p).2.merged q' t' p' = s.merged q' t' p' := by
  unfold merged
  by_cases hq : q' = q
  · have ht : t' ≠ t := by
      rintro rfl
      exact h (by rw [hq])
    rw [hq, seriesOf_write_self, OrderedMap.getD, OrderedMap.get?_insert_other _ _ ht]
    rfl
  · rw [seriesOf_write_other s hq]

/-- Points written in two goes are as good as points written in one. -/
theorem write_append (s : Store) (q : BaseQuery) (t : TagSet) (p p' : List (Int × Float)) :
    (s.write q t (p ++ p')).2 = ((s.write q t p).2.write q t p').2 := by
  have hmerged : (s.write q t p).2.merged q t p' = s.merged q t (p ++ p') := by
    unfold merged
    rw [seriesOf_write_self, OrderedMap.getD, OrderedMap.get?_insert_self, Option.getD_some, merged,
      ← List.foldl_append]
  refine congrArg (Store.mk · s.fetches) (OrderedMap.ext_get? fun q' => ?_)
  show (s.write q t (p ++ p')).2.series.get? q' = ((s.write q t p).2.write q t p').2.series.get? q'
  rw [get?_series_write, get?_series_write, get?_series_write, hmerged, seriesOf_write_self,
    OrderedMap.insert_insert_self]
  split <;> rfl

theorem write_comm (s : Store) {q q' : BaseQuery} {t t' : TagSet} (h : (q, t) ≠ (q', t'))
    (p p' : List (Int × Float)) : ((s.write q t p).2.write q' t' p').2 = ((s.write q' t' p').2.write q t p).2 := by
  refine congrArg (Store.mk · s.fetches) (OrderedMap.ext_get? fun a => ?_)
  show ((s.write q t p).2.write q' t' p').2.series.get? a = ((s.write q' t' p').2.write q t p).2.series.get? a
  rw [get?_series_write, get?_series_write, get?_series_write, get?_series_write, merged_write_other s h,
    merged_write_other s h.symm]
  by_cases hq : q = q'
  · subst hq
    have ht : t ≠ t' := fun ht => h (by rw [ht])
    rw [seriesOf_write_self, seriesOf_write_self, OrderedMap.insert_insert_other _ ht]
    split <;> rfl
  · rw [seriesOf_write_other s hq, seriesOf_write_other s (Ne.symm hq)]
    by_cases ha : a = q
    · subst ha
      rw [if_neg hq, if_pos rfl, if_pos rfl]
    · rw [if_neg ha, if_neg ha]

/-- A store is a flat map in which the last write wins: each answer is the one that the calls before it ask for. A
fetch changes no later answer but the number of fetches, writes to different series may be swapped, and points may
be written in parts. -/
theorem store_is_last_write_map :
    (∀ calls : List Call, ∀ i (hi : i < calls.length), ∃ answer, (empty.performAll calls).1[i]? = some answer ∧
        Answers (calls.take i) calls[i] answer) ∧
      (∀ (before after : List Call) (r : FetchRequest) (i : Nat) (call : Call), after[i]? = some call →
        call ≠ .fetchCount → (empty.performAll (before ++ .fetch r :: after)).1[before.length + 1 + i]? =
          (empty.performAll (before ++ after)).1[before.length + i]?) ∧
      (∀ (s : Store) (q q' : BaseQuery) (t t' : TagSet) (p p' : List (Int × Float)), (q, t) ≠ (q', t') →
        ((s.write q t p).2.write q' t' p').2 = ((s.write q' t' p').2.write q t p).2) ∧
      ∀ (s : Store) (q : BaseQuery) (t : TagSet) (p p' : List (Int × Float)),
        (s.write q t (p ++ p')).2 = ((s.write q t p).2.write q t p').2 ∧
          (s.write q t (p ++ p')).1 = (s.write q t p).1 + ((s.write q t p).2.write q t p').1 := by
  refine ⟨?_, ?_, ?_, ?_⟩
  · intro calls i hi
    have hsplit : calls = calls.take i ++ calls[i] :: calls.drop (i + 1) := by
      rw [← List.drop_eq_getElem_cons hi, List.take_append_drop]
    have htaken : (empty.performAll (calls.take i)).1.length = i := by
      rw [length_performAll, List.length_take_of_le (Nat.le_of_lt hi)]
    refine ⟨((empty.performAll (calls.take i)).2.perform calls[i]).1, ?_, ?_⟩
    · conv_lhs => rw [hsplit]
      rw [performAll_append, List.getElem?_append_right (by omega), htaken, Nat.sub_self]
      rfl
    · exact (reflects_performAll (calls.take i)).answers calls[i]
  · intro before after r i call hi other
    have hlength := length_performAll empty before
    have hsame : ((empty.performAll before).2.fetch r).2.series = (empty.performAll before).2.series := rfl
    have halike := performAll_alike hsame after hi other
    rw [performAll_append, performAll_append, List.getElem?_append_right (by omega),
      List.getElem?_append_right (by omega), hlength, Nat.add_sub_cancel_left, Nat.add_right_comm,
      Nat.add_assoc, Nat.add_sub_cancel_left]
    exact halike
  · intro s q q' t t' p p' h
    exact write_comm s h p p'
  · intro s q t p p'
    exact ⟨write_append s q t p p', List.length_append⟩

theorem calls_on_two_queries :
    (("cpu", .empty) : BaseQuery × TagSet) ≠ ("mem", .empty) ∧
      ((empty.write "cpu" .empty [(0, 1.5)]).2.write "mem" .empty []).2 =
        ((empty.write "mem" .empty []).2.write "cpu" .empty [(0, 1.5)]).2 ∧
      (empty.performAll [.write "cpu" .empty [], .fetch ⟨["cpu", "mem", "cpu"], ⟨9, 0, 1⟩⟩, .seriesCount]).1[2]? =
        (empty.performAll [.write "cpu" .empty [], .seriesCount]).1[1]? := by
  have hne : (("cpu", .empty) : BaseQuery × TagSet) ≠ ("mem", .empty) := by simp
  obtain ⟨-, hfetch, hswap, -⟩ := store_is_last_write_map
  refine ⟨hne, hswap empty "cpu" "mem" .empty .empty [(0, 1.5)] [] hne, ?_⟩
  exact hfetch [.write "cpu" .empty []] [.seriesCount] ⟨["cpu", "mem", "cpu"], ⟨9, 0, 1⟩⟩ 0 .seriesCount rfl nofun

end Store

end SeriesStream
