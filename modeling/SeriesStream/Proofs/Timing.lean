import SeriesStream.Proofs.Accounting
import SeriesStream.Proofs.Deadline

namespace SeriesStream

namespace Reply

/-- The answer comes before the deadline, or just then. -/
def InTime (r : Reply) (timeout : Nat) : Prop := ∃ delay, r.delay = some delay ∧ delay ≤ timeout

/-- How long a request is under way: up to its answer, but no longer than to its deadline. -/
def waits (r : Reply) (timeout : Nat) : Nat := r.delay.elim timeout (min · timeout)

theorem within_fst (r : Reply) (timeout : Nat) : (r.within timeout).1 = r.waits timeout := by
  unfold within waits
  cases r.delay with
  | none => rfl
  | some delay =>
    simp only [Option.elim_some]
    split
    · exact (Nat.min_eq_right (by omega)).symm
    · exact (Nat.min_eq_left (by omega)).symm

end Reply

/-- What a consumer is told of an answer of the backend. -/
def Answer.told (w : Window) : Answer → Except QueryError Chunk
  | data d => .ok ⟨w, d⟩
  | refused e => .error e
  | crashed text => .error (FetchFailure.crashed w text).toQueryError

theorem Reply.delivered_of_inTime {r : Reply} {timeout : Nat} (h : r.InTime timeout) (w : Window) :
    (r.within timeout).2.delivered w timeout = r.answer.told w := by
  obtain ⟨delay, hdelay, hle⟩ := h
  unfold within
  simp only [hdelay, if_neg (Nat.not_lt.mpr hle)]
  cases r.answer <;> rfl

theorem Reply.delivered_of_late {r : Reply} {timeout : Nat} (h : ¬r.InTime timeout) (w : Window) :
    (r.within timeout).2.delivered w timeout = .error (FetchFailure.late w timeout).toQueryError := by
  unfold within
  cases hdelay : r.delay with
  | none => rfl
  | some delay =>
    have hlate : timeout < delay := Nat.not_le.mp fun hle => h ⟨delay, hdelay, hle⟩
    simp only [if_pos hlate]
    rfl

/-- When the `n`-th request, sent at `since` for `w`, is over. -/
def Source.due (s : Source) (n : Nat) (w : Window) (since : Nat) : Nat :=
  since + (s.backend n ⟨s.queries, w⟩).waits s.timeout

/-- A call for the next chunk: when it was made, how long the consumer was ready to wait, when it returned and
what it brought. -/
structure FetchCall where
  made : Nat
  patience : Option Nat
  returned : Nat
  result : Poll (Option (Except QueryError Chunk))

namespace FetchCall

/-- The call brought a chunk or an error. -/
def isAnswered (call : FetchCall) : Bool :=
  match call.result with
  | .ready (some _) => true
  | _ => false

def Fails (call : FetchCall) : Prop := ∃ e, call.result = .ready (some (.error e))

/-- The call found at once that there is nothing left. -/
def Ended (call : FetchCall) : Prop := call.result = .ready none ∧ call.returned = call.made

/-- The call brings what became of the request for `w` that was sent at `since`: the backend's own answer if that
came in time, and else that it did not. It returns as soon as there is something to bring. -/
structure Timely (s : Source) (n : Nat) (w : Window) (since : Nat) (call : FetchCall) : Prop where
  returned : call.returned = max call.made (s.due n w since)
  own : (s.backend n ⟨s.queries, w⟩).InTime s.timeout →
    call.result = .ready (some ((s.backend n ⟨s.queries, w⟩).answer.told w))
  late : ¬(s.backend n ⟨s.queries, w⟩).InTime s.timeout →
    call.result = .ready (some (.error (FetchFailure.late w s.timeout).toQueryError))

/-- The consumer gave the call up before there was something to bring, or without waiting at all. -/
def GivenUp (s : Source) (n : Nat) (w : Window) (since : Nat) (call : FetchCall) : Prop :=
  ∃ patience, call.patience = some patience ∧ call.result = .pending ∧ call.returned = call.made + patience ∧
    (patience = 0 ∨ call.made + patience ≤ s.due n w since)

def answered (calls : List FetchCall) : List FetchCall := calls.filter isAnswered

/-- What the calls bring is on time, from the `k`-th window on, whose request was sent at `since`; each later one is
sent when the answer before it is handed out. A call that brings nothing finds the end or is given up. -/
structure OnTime (s : Source) (windows : List Window) (k since : Nat) (calls : List FetchCall) : Prop where
  answers : ∀ j call, (answered calls)[j]? = some call → ∃ w asked, windows[k + j]? = some w ∧
    (since :: (answered calls).map FetchCall.returned)[j]? = some asked ∧ Timely s (k + j) w asked call
  others : ∀ i call, calls[i]? = some call → call.isAnswered = false →
    call.Ended ∧
        (k + (answered (calls.take i)).length = windows.length ∨ ∃ earlier ∈ calls.take i, earlier.Fails) ∨
      ∃ w asked, windows[k + (answered (calls.take i)).length]? = some w ∧
        (since :: (answered calls).map FetchCall.returned)[(answered (calls.take i)).length]? = some asked ∧
        GivenUp s (k + (answered (calls.take i)).length) w asked call

variable {s : Source} {windows : List Window} {k since : Nat} {w : Window} {call : FetchCall} {calls : List FetchCall}

theorem Ended.not_answered (h : call.Ended) : call.isAnswered = false := by
  simp [isAnswered, h.1]

theorem GivenUp.not_answered (h : call.GivenUp s k w since) : call.isAnswered = false := by
  obtain ⟨p, -, hresult, -⟩ := h
  simp [isAnswered, hresult]

theorem Timely.isAnswered (h : call.Timely s k w since) : call.isAnswered = true := by
  by_cases hin : (s.backend k ⟨s.queries, w⟩).InTime s.timeout
  · simp [FetchCall.isAnswered, h.own hin]
  · simp [FetchCall.isAnswered, h.late hin]

theorem answered_of_ended (h : ∀ call ∈ calls, call.Ended) : answered calls = [] := by
  refine List.filter_eq_nil_iff.mpr fun call hcall => ?_
  simp [(h call hcall).not_answered]

theorem onTime_nil : OnTime s windows k since [] where
  answers j call h := by simp [answered] at h
  others i call h := by simp at h

theorem onTime_of_ended (all : windows.length = k) (h : ∀ call ∈ calls, call.Ended) :
    OnTime s windows k since calls where
  answers j call hj := by simp [answered_of_ended h] at hj
  others i call hi _ := by
    have htaken : answered (calls.take i) = [] := answered_of_ended fun call hc => h call (List.mem_of_mem_take hc)
    refine Or.inl ⟨h call (List.mem_of_getElem? hi), Or.inl ?_⟩
    rw [htaken, all]
    rfl

/-- A chunk is handed out, and the next request is sent just then. -/
theorem OnTime.answer (timely : call.Timely s k w since) (hw : windows[k]? = some w)
    (rest : OnTime s windows (k + 1) call.returned calls) : OnTime s windows k since (call :: calls) := by
  have hanswered (calls : List FetchCall) : answered (call :: calls) = call :: answered calls := by
    simp [answered, timely.isAnswered]
  refine ⟨fun j c hj => ?_, fun i c hi hnot => ?_⟩
  · rw [hanswered] at hj ⊢
    cases j with
    | zero =>
      obtain rfl : call = c := by simpa using hj
      exact ⟨w, since, hw, rfl, timely⟩
    | succ j =>
      obtain ⟨v, asked, hv, hasked, htimely⟩ := rest.answers j c (by simpa using hj)
      have hindex : k + 1 + j = k + (j + 1) := by omega
      exact ⟨v, asked, hindex ▸ hv, by simpa using hasked, hindex ▸ htimely⟩
  · cases i with
    | zero =>
      obtain rfl : call = c := by simpa using hi
      rw [timely.isAnswered] at hnot
      cases hnot
    | succ i =>
      have hindex : k + 1 + (answered (calls.take i)).length = k + ((answered (calls.take i)).length + 1) := by omega
      have hother := rest.others i c (by simpa using hi) hnot
      rw [List.take_succ_cons, hanswered, hanswered, List.length_cons]
      rw [hindex] at hother
      rcases hother with ⟨hend, hwhy⟩ | hgiven
      · refine Or.inl ⟨hend, hwhy.imp_right ?_⟩
        rintro ⟨earlier, hmem, hfails⟩
        exact ⟨earlier, List.mem_cons_of_mem _ hmem, hfails⟩
      · exact Or.inr (by simpa using hgiven)

/-- A call that is given up changes nothing for the calls behind it. -/
theorem OnTime.giveUp (given : call.GivenUp s k w since) (hw : windows[k]? = some w)
    (rest : OnTime s windows k since calls) : OnTime s windows k since (call :: calls) := by
  have hanswered (calls : List FetchCall) : answered (call :: calls) = answered calls := by
    simp [answered, given.not_answered]
  refine ⟨fun j c hj => ?_, fun i c hi hnot => ?_⟩
  · rw [hanswered] at hj ⊢
    exact rest.answers j c hj
  · cases i with
    | zero =>
      obtain rfl : call = c := by simpa using hi
      exact Or.inr ⟨w, since, hw, rfl, given⟩
    | succ i =>
      rw [List.take_succ_cons, hanswered, hanswered]
      refine (rest.others i c (by simpa using hi) hnot).imp_left fun hend => ⟨hend.1, hend.2.imp_right ?_⟩
      rintro ⟨earlier, hmem, hfails⟩
      exact ⟨earlier, List.mem_cons_of_mem _ hmem, hfails⟩

/-- Behind an error there is only the end. -/
theorem OnTime.fail (timely : call.Timely s k w since) (hw : windows[k]? = some w) (fails : call.Fails)
    (h : ∀ call ∈ calls, call.Ended) : OnTime s windows k since (call :: calls) := by
  have hanswered : answered (call :: calls) = [call] := by
    have hnone := answered_of_ended h
    simp only [answered] at hnone ⊢
    simp [timely.isAnswered, hnone]
  refine ⟨fun j c hj => ?_, fun i c hi hnot => ?_⟩
  · rw [hanswered] at hj ⊢
    obtain ⟨rfl, rfl⟩ : j = 0 ∧ call = c := by
      cases j with
      | zero => simpa using hj
      | succ j => simp at hj
    exact ⟨w, since, hw, rfl, timely⟩
  · cases i with
    | zero =>
      obtain rfl : call = c := by simpa using hi
      rw [timely.isAnswered] at hnot
      cases hnot
    | succ i =>
      have hmem : c ∈ calls := List.mem_of_getElem? (by simpa using hi)
      exact Or.inl ⟨h c hmem, Or.inr ⟨call, by simp, fails⟩⟩

end FetchCall

namespace Fetcher

/-- The calls among the steps of a consumer. -/
def timetable (f : Fetcher) : List FetchStep → List FetchCall
  | [] => []
  | .next :: steps => ⟨f.now, none, f.next.2.now, .ready f.next.1⟩ :: f.next.2.timetable steps
  | .nextWithin patience :: steps =>
    ⟨f.now, some patience, (f.nextWithin patience).2.now, (f.nextWithin patience).1⟩ ::
      (f.nextWithin patience).2.timetable steps
  | .sleep duration :: steps => (f.sleep duration).timetable steps
  | .cancel :: steps => f.cancel.timetable steps

/-- How far the fetch of the `k`-th window is, whose request goes out at `since`. -/
inductive UnderWay (s : Source) (k since : Nat) (w : Window) (f : Fetcher) : Prop
  | spawned (task : f.inFlight = some (.spawned w)) (sent : f.requests.length = k) (now : f.now = since)
  | running (task : f.inFlight = some (.running w (s.due k w since) (s.outcome k w)))
      (sent : f.requests.length = k + 1) (now : f.now ≤ s.due k w since)
  | settled (task : f.inFlight = some (.settled w (s.outcome k w))) (sent : f.requests.length = k + 1)
      (now : s.due k w since ≤ f.now)

/-- The fetcher is at the `k`-th window. -/
structure Awaits (s : Source) (windows : List Window) (k since : Nat) (w : Window) (f : Fetcher) : Prop where
  source : f.source = s
  goesOn : f.finished = false
  left : windows.drop k = w :: f.pending
  task : f.UnderWay s k since w

/-- The fetcher has nothing left to hand out. -/
structure Through (f : Fetcher) : Prop where
  pending : f.pending = []
  inFlight : f.inFlight = none

theorem now_waitUntil (f : Fetcher) (t : Nat) : (f.waitUntil t).now = max f.now t := by
  unfold waitUntil
  split
  next h => exact (Nat.max_eq_left h).symm
  next h => exact (Nat.max_eq_right (Nat.le_of_not_le h)).symm

/-- Without a fetch under way only the clock goes on. -/
theorem waitUntil_of_free {f : Fetcher} (free : f.inFlight = none) (t : Nat) :
    ∃ now, f.waitUntil t = { f with now := now } := by
  have hstart : f.start = f := start_eq_self (by simp [free])
  unfold waitUntil
  split
  next => exact ⟨f.now, rfl⟩
  next =>
    have hdue : ¬f.due?.any (· < t) = true := by simp [due?, free]
    simp only [hstart, if_neg hdue]
    exact ⟨t, rfl⟩

theorem start_not_spawned (f : Fetcher) (w : Window) : f.start.inFlight ≠ some (.spawned w) := by
  rcases f.start_cases with hself | ⟨v, hv⟩
  · intro hw
    rw [hself] at hw
    have hstarted := start_of_spawned hw
    rw [hself] at hstarted
    rw [hstarted] at hw
    cases hw
  · rw [start_of_spawned hv]
    simp

variable {s : Source} {windows : List Window} {k since : Nat} {w : Window} {f : Fetcher}

theorem Awaits.getElem? (h : f.Awaits s windows k since w) : windows[k]? = some w := by
  rw [← List.head?_drop, h.left]
  rfl

theorem Awaits.start (h : f.Awaits s windows k since w) : f.start.Awaits s windows k since w := by
  cases h.task with
  | spawned task sent now =>
    have hstart := start_of_spawned task
    have hduration := Reply.within_fst (f.backend k ⟨f.queries, w⟩) f.timeout
    have hdue : f.now + ((f.backend k ⟨f.queries, w⟩).within f.timeout).1 = s.due k w since := by
      rw [hduration, now, ← h.source]
      rfl
    rw [sent, hdue, h.source] at hstart
    rw [hstart]
    refine ⟨h.source, h.goesOn, h.left, .running rfl (by simp [sent]) ?_⟩
    show f.now ≤ s.due k w since
    rw [now]
    exact Nat.le_add_right _ _
  | running task => rwa [start_eq_self (by simp [task])]
  | settled task => rwa [start_eq_self (by simp [task])]

/-- Time passes for a fetch that runs or is settled: it settles once its time is over. -/
theorem Awaits.settle (h : f.Awaits s windows k since w) {o : FetchOutcome}
    (task : f.inFlight = some (.running w (s.due k w since) o)) {t : Nat} (enough : s.due k w since ≤ t) :
    Awaits s windows k since w { f.settle with now := t } ∧
      f.settle.inFlight = some (.settled w (s.outcome k w)) := by
  cases h.task with
  | spawned other => simp [task] at other
  | running same sent =>
    have hsettled := settle_of_running same
    rcases f.settle_cases with hself | ⟨w', due, o', fetched, failures, hrun, hsettle⟩
    · rw [hself, same] at hsettled
      cases hsettled
    · rw [hsettle] at hsettled ⊢
      exact ⟨⟨h.source, h.goesOn, h.left, .settled hsettled sent enough⟩, hsettled⟩
  | settled other => simp [task] at other

theorem Awaits.waitUntil (h : f.Awaits s windows k since w) (t : Nat) :
    (f.waitUntil t).Awaits s windows k since w := by
  unfold Fetcher.waitUntil
  split
  next => exact h
  next hlate =>
    have hstart := h.start
    have hnow := f.now_start
    have hspawned := f.start_not_spawned w
    generalize f.start = g at hstart hnow hspawned
    simp only
    cases hstart.task with
    | spawned task => exact absurd task hspawned
    | running task sent now =>
      by_cases hover : s.due k w since < t
      · have hdue : g.due?.any (· < t) = true := by simpa [due?, task] using hover
        rw [if_pos hdue]
        exact (hstart.settle task (Nat.le_of_lt hover)).1
      · have hdue : ¬g.due?.any (· < t) = true := by simpa [due?, task] using Nat.not_lt.mp hover
        rw [if_neg hdue]
        exact ⟨hstart.source, hstart.goesOn, hstart.left, .running task sent (Nat.not_lt.mp hover)⟩
    | settled task sent now =>
      have hdue : ¬g.due?.any (· < t) = true := by simp [due?, task]
      rw [if_neg hdue]
      refine ⟨hstart.source, hstart.goesOn, hstart.left, .settled task sent ?_⟩
      show s.due k w since ≤ t
      omega

/-- Who waits for the task waits until it is settled. -/
theorem Awaits.waitForTask (h : f.Awaits s windows k since w) :
    f.waitForTask.Awaits s windows k since w ∧
      f.waitForTask.inFlight = some (.settled w (s.outcome k w)) ∧
        f.waitForTask.now = max f.now (s.due k w since) := by
  have hstart := h.start
  have hnow := f.now_start
  have hspawned := f.start_not_spawned w
  unfold Fetcher.waitForTask
  rw [← hnow]
  generalize f.start = g at hstart hspawned
  simp only
  cases hstart.task with
  | spawned task => exact absurd task hspawned
  | running task sent now =>
    have hdue : g.due? = some (s.due k w since) := by simp [due?, task]
    rw [hdue, Option.getD_some]
    obtain ⟨hawaits, hsettled⟩ := hstart.settle task (Nat.le_max_right g.now _)
    exact ⟨hawaits, hsettled, rfl⟩
  | settled task sent now =>
    have hdue : g.due? = none := by simp [due?, task]
    have hsettle : g.settle = g := by simp [Fetcher.settle, task]
    rw [hdue, hsettle, Option.getD_none, Nat.max_self, Nat.max_eq_left now]
    exact ⟨hstart, task, rfl⟩

/-- What a fetcher goes on with once it has told what became of the `k`-th window: the next one, or nothing. -/
inductive Onward (s : Source) (windows : List Window) (k : Nat) (told : Except QueryError Chunk) (g : Fetcher) : Prop
  | next {c : Chunk} {v : Window} (chunk : told = .ok c) (awaits : g.Awaits s windows (k + 1) g.now v)
  | last {c : Chunk} (chunk : told = .ok c) (all : windows.length = k + 1) (through : g.Through)
  | failed {e : QueryError} (error : told = .error e) (through : g.Through)

theorem Awaits.issueNext (h : f.Awaits s windows k since w)
    (task : f.inFlight = some (.settled w (s.outcome k w))) {c : Chunk} (chunk : s.fetch k w = .ok c) :
    f.issueNext.Onward s windows k (s.fetch k w) := by
  have hdrop : windows.drop (k + 1) = f.pending := by
    rw [← List.drop_drop, h.left]
    rfl
  have hsent : f.requests.length = k + 1 := by
    cases h.task with
    | spawned other => simp [task] at other
    | running other => simp [task] at other
    | settled _ sent => exact sent
  unfold Fetcher.issueNext
  split
  next hp =>
    have hlength : windows.length ≤ k + 1 := List.drop_eq_nil_iff.mp (hdrop.trans hp)
    have hbound : k < windows.length := (List.getElem?_eq_some_iff.mp h.getElem?).1
    exact .last chunk (by omega) ⟨hp, rfl⟩
  next v rest hp => exact .next chunk ⟨h.source, h.goesOn, hdrop.trans hp, .spawned rfl hsent rfl⟩

/-- A settled fetch is told at once. -/
theorem Awaits.poll_settled (h : f.Awaits s windows k since w)
    (task : f.inFlight = some (.settled w (s.outcome k w))) :
    ∃ g, f.poll = (.ready (some (s.fetch k w)), g) ∧ g.now = f.now ∧ g.Onward s windows k (s.fetch k w) := by
  have htimeout : f.timeout = s.timeout := congrArg Source.timeout h.source
  have hdemand := demand_of_busy task
  cases ho : s.outcome k w with
  | data d =>
    have hfetch : s.fetch k w = .ok ⟨w, d⟩ := by rw [Source.fetch, ho]; rfl
    refine ⟨f.issueNext, ?_, f.now_issueNext, h.issueNext task hfetch⟩
    simp [poll, hdemand, h.goesOn, task, ho, hfetch]
  | refused e =>
    have hfetch : s.fetch k w = .error (FetchFailure.refused e).toQueryError := by rw [Source.fetch, ho]; rfl
    refine ⟨f.cancel, ?_, rfl, .failed hfetch ⟨rfl, rfl⟩⟩
    simp [poll, hdemand, h.goesOn, task, ho, hfetch]
  | crashed text =>
    have hfetch : s.fetch k w = .error (FetchFailure.crashed w text).toQueryError := by rw [Source.fetch, ho]; rfl
    refine ⟨f.cancel, ?_, rfl, .failed hfetch ⟨rfl, rfl⟩⟩
    simp [poll, hdemand, h.goesOn, task, ho, hfetch]
  | late =>
    have hfetch : s.fetch k w = .error (FetchFailure.late w s.timeout).toQueryError := by rw [Source.fetch, ho]; rfl
    refine ⟨f.cancel, ?_, rfl, .failed hfetch ⟨rfl, rfl⟩⟩
    simp [poll, hdemand, h.goesOn, task, ho, hfetch, htimeout]

/-- What a call brings, for a consumer of this patience. -/
inductive Called (s : Source) (windows : List Window) (k since : Nat) (w : Window) (f : Fetcher)
    (patience : Option Nat) : Poll (Option (Except QueryError Chunk)) × Fetcher → Prop
  | answered {g : Fetcher} (now : g.now = max f.now (s.due k w since))
      (onward : g.Onward s windows k (s.fetch k w)) :
      Called s windows k since w f patience (.ready (some (s.fetch k w)), g)
  | givenUp {g : Fetcher} {p : Nat} (limit : patience = some p) (now : g.now = f.now + p)
      (early : p = 0 ∨ f.now + p ≤ s.due k w since) (awaits : g.Awaits s windows k since w) :
      Called s windows k since w f patience (.pending, g)

/-- Either the fetch is settled and told, or it runs as soon as the consumer waits. -/
theorem Awaits.poll_cases (h : f.Awaits s windows k since w) :
    (∃ g, f.poll = (.ready (some (s.fetch k w)), g) ∧ g.now = max f.now (s.due k w since) ∧
        g.Onward s windows k (s.fetch k w)) ∨
      f.poll = (.pending, f) ∧ f.start.due? = some (s.due k w since) := by
  have hstarted := h.start.task
  cases h.task with
  | spawned task =>
    obtain ⟨due, o, hrun⟩ := running_start (Or.inl task)
    refine Or.inr ⟨by simp [poll, demand_of_busy task, h.goesOn, task], ?_⟩
    cases hstarted with
    | spawned other => exact absurd other (f.start_not_spawned w)
    | running same => simp [due?, same]
    | settled other => simp [hrun] at other
  | running task =>
    refine Or.inr ⟨by simp [poll, demand_of_busy task, h.goesOn, task], ?_⟩
    simp [start_eq_self (f := f) (by simp [task]), due?, task]
  | settled task sent now =>
    obtain ⟨g, hpoll, hnow, onward⟩ := h.poll_settled task
    exact Or.inl ⟨g, hpoll, by rw [hnow, Nat.max_eq_left now], onward⟩

theorem Awaits.poll_waited (h : f.Awaits s windows k since w) :
    ∃ g, f.waitForTask.poll = (.ready (some (s.fetch k w)), g) ∧ g.now = max f.now (s.due k w since) ∧
      g.Onward s windows k (s.fetch k w) := by
  obtain ⟨hawaits, task, hnow⟩ := h.waitForTask
  obtain ⟨g, hpoll, hsame, onward⟩ := hawaits.poll_settled task
  exact ⟨g, hpoll, hsame.trans hnow, onward⟩

theorem Awaits.next (h : f.Awaits s windows k since w) :
    f.Called s windows k since w none (.ready f.next.1, f.next.2) := by
  rcases h.poll_cases with ⟨g, hpoll, hnow, onward⟩ | ⟨hpending, -⟩
  · simp only [Fetcher.next, hpoll]
    exact .answered hnow onward
  · obtain ⟨g, hpoll, hnow, onward⟩ := h.poll_waited
    simp only [Fetcher.next, hpending, hpoll]
    exact .answered hnow onward

theorem Awaits.nextWithin (h : f.Awaits s windows k since w) (patience : Nat) :
    f.Called s windows k since w (some patience) (f.nextWithin patience) := by
  rcases h.poll_cases with ⟨g, hpoll, hnow, onward⟩ | ⟨hpending, hdue⟩
  · simp only [Fetcher.nextWithin, hpoll]
    exact .answered hnow onward
  simp only [Fetcher.nextWithin, hpending]
  by_cases hzero : patience = 0
  · rw [if_pos hzero]
    exact .givenUp rfl (by omega) (Or.inl hzero) h
  rw [if_neg hzero]
  have hstart := h.start
  have hsame := f.now_start
  by_cases hsoon : s.due k w since < f.now + patience
  · have hany : f.start.due?.any (· < f.start.now + patience) = true := by simpa [hdue, hsame] using hsoon
    obtain ⟨g, hpoll, hnow, onward⟩ := hstart.poll_waited
    rw [if_pos hany, hpoll]
    exact .answered (hnow.trans (by rw [hsame])) onward
  · have hany : ¬f.start.due?.any (· < f.start.now + patience) = true := by
      simpa [hdue, hsame] using Nat.not_lt.mp hsoon
    rw [if_neg hany]
    refine .givenUp rfl ?_ (Or.inr (Nat.not_lt.mp hsoon)) (hstart.waitUntil _)
    rw [now_waitUntil, hsame]
    omega

theorem Through.poll (h : f.Through) :
    f.poll = (.ready none, f.demand) ∧ f.demand.Through ∧ f.demand.now = f.now := by
  obtain ⟨hd, hf | hbusy⟩ | ⟨-, -, ⟨-, hd⟩ | ⟨w, ws, hp, -⟩⟩ := f.demand_cases
  · rw [hd]
    exact ⟨by simp [Fetcher.poll, hd, hf], h, rfl⟩
  · simp [h.inFlight] at hbusy
  · refine ⟨by simp [Fetcher.poll, hd], ?_, ?_⟩
    · rw [hd]
      exact ⟨h.pending, h.inFlight⟩
    · rw [hd]
  · simp [h.pending] at hp

theorem Through.waitUntil (h : f.Through) (t : Nat) : (f.waitUntil t).Through := by
  obtain ⟨now, hwait⟩ := waitUntil_of_free h.inFlight t
  rw [hwait]
  exact ⟨h.pending, h.inFlight⟩

/-- Behind the last window every call finds the end. -/
theorem Through.timetable (h : f.Through) (steps : List FetchStep) : ∀ call ∈ f.timetable steps, call.Ended := by
  induction steps generalizing f with
  | nil => simp [Fetcher.timetable]
  | cons step steps ih =>
    obtain ⟨hpoll, hthrough, hnow⟩ := h.poll
    cases step with
    | next =>
      have hnext : f.next = (none, f.demand) := by simp [Fetcher.next, hpoll]
      simp only [Fetcher.timetable, hnext, List.forall_mem_cons]
      exact ⟨⟨rfl, hnow⟩, ih hthrough⟩
    | nextWithin patience =>
      have hnext : f.nextWithin patience = (.ready none, f.demand) := by simp [Fetcher.nextWithin, hpoll]
      simp only [Fetcher.timetable, hnext, List.forall_mem_cons]
      exact ⟨⟨rfl, hnow⟩, ih hthrough⟩
    | sleep duration => exact ih (h.waitUntil _)
    | cancel => exact ih ⟨rfl, rfl⟩

end Fetcher

open Fetcher FetchCall

variable {s : Source} {windows : List Window} {k since : Nat} {w : Window} {f : Fetcher}

/-- A call that is answered with what the request comes to is on time. -/
theorem FetchCall.timely_of_answered {call : FetchCall} (returned : call.returned = max call.made (s.due k w since))
    (result : call.result = .ready (some (s.fetch k w))) : call.Timely s k w since where
  returned := returned
  own hin := by
    rw [result, Source.fetch, Source.outcome, Reply.delivered_of_inTime hin]
  late hlate := by
    rw [result, Source.fetch, Source.outcome, Reply.delivered_of_late hlate]

/-- One call keeps the time if all those behind it do. -/
theorem Fetcher.Called.onTime {patience : Option Nat} {polled : Poll (Option (Except QueryError Chunk)) × Fetcher}
    (h : f.Called s windows k since w patience polled) (hw : windows[k]? = some w) {steps : List FetchStep}
    (rest : ∀ {k since w g}, Fetcher.Awaits s windows k since w g → OnTime s windows k since (g.timetable steps)) :
    OnTime s windows k since (⟨f.now, patience, polled.2.now, polled.1⟩ :: polled.2.timetable steps) := by
  cases h with
  | @answered g now onward =>
    have htimely : Timely s k w since ⟨f.now, patience, g.now, .ready (some (s.fetch k w))⟩ :=
      timely_of_answered now rfl
    cases onward with
    | next chunk awaits => exact .answer htimely hw (rest awaits)
    | last chunk all through => exact .answer htimely hw (onTime_of_ended all (through.timetable steps))
    | failed error through =>
      exact .fail htimely hw ⟨_, congrArg (Poll.ready ∘ some) error⟩ (through.timetable steps)
  | givenUp limit now early awaits => exact .giveUp ⟨_, limit, rfl, now, early⟩ hw (rest awaits)

theorem Fetcher.Awaits.onTime {steps : List FetchStep} (goesOn : .cancel ∉ steps)
    (h : f.Awaits s windows k since w) : OnTime s windows k since (f.timetable steps) := by
  induction steps generalizing f k since w with
  | nil => exact onTime_nil
  | cons step steps ih =>
    obtain ⟨hstep, hsteps⟩ : .cancel ≠ step ∧ .cancel ∉ steps := by simpa using goesOn
    cases step with
    | next => exact h.next.onTime h.getElem? (ih hsteps)
    | nextWithin patience => exact (h.nextWithin patience).onTime h.getElem? (ih hsteps)
    | sleep duration => exact ih hsteps (h.waitUntil _)
    | cancel => exact absurd rfl hstep

/-- Nobody has asked the fetcher for anything yet. -/
structure Fetcher.Fresh (s : Source) (windows : List Window) (f : Fetcher) : Prop where
  source : f.source = s
  goesOn : f.finished = false
  pending : f.pending = windows
  inFlight : f.inFlight = none
  requests : f.requests = []

theorem Fetcher.Fresh.waitUntil (h : f.Fresh s windows) (t : Nat) : (f.waitUntil t).Fresh s windows := by
  obtain ⟨now, hwait⟩ := waitUntil_of_free h.inFlight t
  rw [hwait]
  exact ⟨h.source, h.goesOn, h.pending, h.inFlight, h.requests⟩

/-- The first demand sends the request for the first window. -/
theorem Fetcher.Fresh.demand {rest : List Window} (h : f.Fresh s (w :: rest)) :
    f.demand.Awaits s (w :: rest) 0 f.now w ∧ f.demand.now = f.now ∧ f.demand.poll = f.poll := by
  have hdemand : f.demand = { f with inFlight := some (.spawned w), pending := rest } := by
    simp [Fetcher.demand, h.goesOn, h.inFlight, h.pending, issueNext]
  have hbusy : f.demand.inFlight = some (.spawned w) := by rw [hdemand]
  have htwice : f.demand.demand = f.demand := demand_of_busy hbusy
  refine ⟨?_, ?_, ?_⟩
  · rw [hdemand]
    exact ⟨h.source, h.goesOn, rfl, .spawned rfl (by simp [h.requests]) rfl⟩
  · rw [hdemand]
  · simp only [Fetcher.poll, htwice]

theorem Fetcher.Fresh.onTime {steps : List FetchStep} (goesOn : .cancel ∉ steps) (h : f.Fresh s windows) :
    ∃ since, (∀ call, (f.timetable steps).head? = some call → call.made = since) ∧
      OnTime s windows 0 since (f.timetable steps) := by
  induction steps generalizing f with
  | nil => exact ⟨0, by simp [timetable], onTime_nil⟩
  | cons step steps ih =>
    cases windows with
    | nil =>
      have hended := Through.timetable ⟨h.pending, h.inFlight⟩ (step :: steps)
      refine ⟨((f.timetable (step :: steps)).head?.map (·.made)).getD 0, fun call hcall => ?_, ?_⟩
      · simp [hcall]
      · exact onTime_of_ended rfl hended
    | cons w rest =>
      obtain ⟨hawaits, hnow, hpoll⟩ := h.demand
      have htime := hawaits.onTime goesOn
      cases step with
      | next =>
        have hnext : f.demand.next = f.next := by simp only [Fetcher.next, hpoll]
        simp only [timetable, hnext, hnow] at htime ⊢
        exact ⟨f.now, by simp, htime⟩
      | nextWithin patience =>
        have hnext : f.demand.nextWithin patience = f.nextWithin patience := by simp only [Fetcher.nextWithin, hpoll]
        simp only [timetable, hnext, hnow] at htime ⊢
        exact ⟨f.now, by simp, htime⟩
      | sleep duration =>
        obtain ⟨-, hsteps⟩ : .cancel ≠ FetchStep.sleep duration ∧ .cancel ∉ steps := by simpa using goesOn
        exact ih hsteps (h.waitUntil _)
      | cancel => simp at goesOn

/-- However a consumer asks, gives up and sleeps: with `asked` the time of the first call and then the times at which
the answers were handed out, the `k`-th answer is the backend's own if that comes in time after `asked[k]` and else
that it did not come, and the call that brings it returns as soon as it is made and the answer or the deadline is
there. A call without an answer found that nothing is left, or was given up before the answer and the deadline. -/
theorem answers_keep_time (backend : Backend) (queries : List BaseQuery) (windows : List Window) (timeout : Nat)
    {steps : List FetchStep} (goesOn : .cancel ∉ steps) :
    let s : Source := ⟨backend, queries, timeout⟩
    let calls := (Fetcher.create backend queries windows timeout).timetable steps
    let asked := (calls.head?.map FetchCall.made).toList ++ (answered calls).map FetchCall.returned
    (∀ k (call : FetchCall), (answered calls)[k]? = some call →
      ∃ w since, windows[k]? = some w ∧ asked[k]? = some since ∧ call.Timely s k w since) ∧
    ∀ i (call : FetchCall), calls[i]? = some call → call.isAnswered = false →
      let k := (answered (calls.take i)).length
      call.Ended ∧ (k = windows.length ∨ ∃ earlier ∈ calls.take i, earlier.Fails) ∨
        ∃ w since, windows[k]? = some w ∧ asked[k]? = some since ∧ call.GivenUp s k w since := by
  intro s calls asked
  have hfresh : (Fetcher.create backend queries windows timeout).Fresh s windows := ⟨rfl, rfl, rfl, rfl, rfl⟩
  obtain ⟨since, hsince, htime⟩ := hfresh.onTime goesOn
  have hasked {i : Nat} {call : FetchCall} (hi : calls[i]? = some call) :
      asked = since :: (answered calls).map FetchCall.returned := by
    cases hcalls : calls with
    | nil => simp [hcalls] at hi
    | cons first rest =>
      have hfirst : first.made = since := hsince first (by show calls.head? = _; rw [hcalls]; rfl)
      simp [asked, hcalls, hfirst]
  refine ⟨fun k call hk => ?_, fun i call hi hnot => ?_⟩
  · have hmem : call ∈ calls := (List.mem_filter.mp (List.mem_of_getElem? hk)).1
    obtain ⟨i, hi⟩ := List.mem_iff_getElem?.mp hmem
    rw [hasked hi]
    simpa using htime.answers k call hk
  · rw [hasked hi]
    simpa using htime.others i call hi hnot

/-- Three windows; the first is answered after 30 milliseconds, the others after 200. -/
def slowAfterFirst : Backend := fun n _ => ⟨some (if n = 0 then 30 else 200), .data .empty⟩

theorem slow_window_times_out :
    let steps : List FetchStep := [.next, .sleep 10, .nextWithin 5, .next]
    let calls := (Fetcher.create slowAfterFirst ["cpu"] [⟨0, 10, 5⟩, ⟨10, 20, 5⟩, ⟨20, 30, 5⟩] 100).timetable steps
    .cancel ∉ steps ∧ calls.map (fun call => (call.made, call.returned)) = [(0, 30), (40, 45), (45, 130)] ∧
      ∃ call, (answered calls)[1]? = some call ∧ call.Timely ⟨slowAfterFirst, ["cpu"], 100⟩ 1 ⟨10, 20, 5⟩ 30 := by
  intro steps calls
  have goesOn : .cancel ∉ steps := by decide
  have hlength : (answered calls).length = 2 := by decide +kernel
  have hasked : ((calls.head?.map FetchCall.made).toList ++ (answered calls).map FetchCall.returned)[1]? = some 30 := by
    decide +kernel
  have hsecond : (answered calls)[1]? = some (answered calls)[1] := List.getElem?_eq_getElem (by omega)
  obtain ⟨hanswers, -⟩ := answers_keep_time slowAfterFirst ["cpu"] [⟨0, 10, 5⟩, ⟨10, 20, 5⟩, ⟨20, 30, 5⟩] 100 goesOn
  obtain ⟨w, since, hw, hsince, htimely⟩ := hanswers 1 _ hsecond
  obtain rfl : (⟨10, 20, 5⟩ : Window) = w := Option.some.inj hw
  obtain rfl : 30 = since := Option.some.inj (hasked.symm.trans hsince)
  exact ⟨goesOn, by decide +kernel, _, hsecond, htimely⟩

end SeriesStream
