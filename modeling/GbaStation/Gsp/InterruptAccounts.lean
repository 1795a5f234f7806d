import GbaStation.Common.RingCells
import GbaStation.Gsp.InterruptRuns

/-!
# The account of the interrupts

In every run, each signal waits in the array or has fallen due, once, and each relay queue holds
what was put in it and not yet read.
-/

namespace GbaStation.Gsp

open Function (update_of_ne update update_self update_eq_self)

/-! ## Relay queues -/

namespace InterruptRelayQueue

/-- The ring is well formed. -/
def Valid (q : InterruptRelayQueue) : Prop :=
  q.index < maxSlots ∧ q.numberInterrupts ≤ maxSlots

theorem Valid.push {q : InterruptRelayQueue} (h : q.Valid) (hroom : q.numberInterrupts < maxSlots)
    (s : Signal) : (q.push s).Valid ∧ (q.push s).contents = q.contents ++ [s] := by
  obtain ⟨hindex, -⟩ := h
  have hmax : maxSlots = 52 := rfl
  have hnext : q.next = (q.index + q.numberInterrupts) % maxSlots := by
    unfold next
    rw [Nat.mod_eq_of_lt (show q.index + q.numberInterrupts < 2 ^ 8 by omega)]
  have hnumber : (q.push s).numberInterrupts = q.numberInterrupts + 1 := by
    show (q.numberInterrupts + 1) % 2 ^ 8 = _
    omega
  refine ⟨⟨hindex, by omega⟩, ?_⟩
  unfold contents
  rw [hnumber, List.range_succ, List.map_append, List.map_singleton]
  congr 1
  · refine List.map_congr_left fun j hj => ?_
    have hj := List.mem_range.mp hj
    have hne : (q.index + j) % maxSlots ≠ q.next := by
      rw [hnext]
      exact RingCells.place_ne (by omega) (by omega)
    exact update_of_ne hne _ _
  · show [update q.slot q.next s ((q.index + q.numberInterrupts) % maxSlots)] = [s]
    rw [← hnext, update_self]

theorem Valid.consume {q : InterruptRelayQueue} (h : q.Valid) (hne : q.numberInterrupts ≠ 0) :
    q.consume.2.Valid ∧ q.contents = q.consume.1 :: q.consume.2.contents := by
  obtain ⟨hindex, hnumber⟩ := h
  refine ⟨⟨Nat.mod_lt _ (by decide), Nat.le_trans (Nat.sub_le _ _) hnumber⟩, ?_⟩
  obtain ⟨n, hn⟩ := Nat.exists_eq_succ_of_ne_zero hne
  unfold contents
  rw [hn, List.range_succ_eq_map, List.map_cons, Nat.add_zero, Nat.mod_eq_of_lt hindex]
  refine congrArg (q.slot q.index :: ·) ?_
  rw [List.map_map]
  show _ = (List.range (q.numberInterrupts - 1)).map _
  rw [hn, Nat.succ_sub_one]
  refine List.map_congr_left fun j _ => congrArg q.slot ?_
  show (q.index + (j + 1)) % maxSlots = ((q.index + 1) % maxSlots + j) % maxSlots
  rw [Nat.mod_add_mod]
  congr 1
  omega

end InterruptRelayQueue

open InterruptRelayQueue

def Outcome.isQueued : Outcome → Bool
  | .queued _ => true
  | _ => false

/-- What an interrupt that falls due does to a relay queue. -/
inductive Turn (q : InterruptRelayQueue) (s : Signal) : InterruptRelayQueue → Outcome → Prop where
  | dropped {o : Outcome} (h : o = .unregistered ∨ o = .noEvent ∨ o = .ignored) : Turn q s q o
  | missed (hpdc : s.interruptId.isPdc = true) :
    Turn q s (GspGpu.countMissed q s.interruptId) .missed
  | full : Turn q s { q with errorCode := queueFullError } .full
  | queued (event : Nat) (hroom : q.numberInterrupts < maxSlots) :
    Turn q s (q.push s) (.queued event)

theorem Turn.valid {q q' : InterruptRelayQueue} {s : Signal} {o : Outcome} (h : Turn q s q' o)
    (hq : q.Valid) : q'.Valid ∧
      q'.contents = q.contents ++ if o.isQueued then [s] else [] := by
  cases h with
  | dropped h =>
    refine ⟨hq, ?_⟩
    rcases h with rfl | rfl | rfl <;> exact (List.append_nil _).symm
  | missed hpdc =>
    rw [show Outcome.missed.isQueued = false from rfl, if_neg Bool.false_ne_true, List.append_nil]
    unfold GspGpu.countMissed
    split_ifs
    · exact ⟨hq, rfl⟩
    · exact ⟨hq, rfl⟩
  | full => exact ⟨hq, (List.append_nil _).symm⟩
  | queued event hroom => exact hq.push hroom s

namespace GspGpu

theorem setQueue_self (g : GspGpu) (threadId : Nat) :
    g.setQueue threadId (g.interruptRelayQueue threadId) = g := by
  unfold setQueue
  rw [update_eq_self]

/-- What holds of the queues after one was set. -/
theorem forall_setQueue {P : Nat → InterruptRelayQueue → Prop} {g : GspGpu} {threadId : Nat}
    {q : InterruptRelayQueue} (hself : P threadId q)
    (hother : ∀ t, t ≠ threadId → P t (g.interruptRelayQueue t)) :
    ∀ t, P t ((g.setQueue threadId q).interruptRelayQueue t) :=
  (Function.forall_update_iff g.interruptRelayQueue P).mpr ⟨hself, hother⟩

theorem queueInterrupt_spec (g : GspGpu) (s : Signal) (event : Nat) :
    ∃ q, (g.queueInterrupt s event).1 = g.setQueue s.threadId q ∧
      Turn (g.interruptRelayQueue s.threadId) s q (g.queueInterrupt s event).2 := by
  unfold queueInterrupt
  simp only
  split_ifs with hfull
  · exact ⟨_, rfl, .full⟩
  · exact ⟨_, rfl, .queued event (Nat.not_le.mp hfull)⟩

/-- An interrupt that falls due changes the relay queue of its thread id only. -/
theorem processPendingInterruptImpl_spec (g : GspGpu) (s : Signal) :
    ∃ q, (g.processPendingInterruptImpl s).1 = g.setQueue s.threadId q ∧
      Turn (g.interruptRelayQueue s.threadId) s q (g.processPendingInterruptImpl s).2 := by
  have hself := (g.setQueue_self s.threadId).symm
  unfold processPendingInterruptImpl
  cases g.findRegisteredThreadData s.threadId with
  | none => exact ⟨_, hself, .dropped (.inl rfl)⟩
  | some data =>
    simp only
    cases data.interruptEvent with
    | none => exact ⟨_, hself, .dropped (.inr (.inl rfl))⟩
    | some event =>
      split_ifs with hpdc
      · exact ⟨_, hself, .dropped (.inr (.inr rfl))⟩
      · exact ⟨_, rfl, .missed hpdc⟩
      · exact g.queueInterrupt_spec s event
      · exact g.queueInterrupt_spec s event

end GspGpu

/-- What the code may do with an interrupt, given the session that is registered and the relay
queue before. -/
def Fall.Proper (f : Fall) : Prop :=
  match f.session with
  | none => f.outcome = .unregistered
  | some _ =>
    if f.signal.interruptId.isPdc then
      f.outcome = .ignored ∧ f.queue.ignorePdc = true ∨
      f.outcome = .missed ∧ stopQueuingPdcThreshold ≤ f.queue.numberInterrupts ∨
      f.outcome.isQueued = true
    else
      f.outcome.isQueued = true ∨ f.outcome = .full ∧ f.queue.numberInterrupts = maxSlots

theorem queueInterrupt_outcome {g : GspGpu} {s : Signal} (event : Nat)
    (hvalid : (g.interruptRelayQueue s.threadId).Valid) :
    (g.queueInterrupt s event).2.isQueued = true ∨ (g.queueInterrupt s event).2 = .full ∧
      (g.interruptRelayQueue s.threadId).numberInterrupts = maxSlots := by
  unfold GspGpu.queueInterrupt
  simp only
  split_ifs with hfull
  · exact .inr ⟨rfl, Nat.le_antisymm hvalid.2 hfull⟩
  · exact .inl rfl

/-- Sessions have events when they are registered, and thread ids of their own. -/
structure GspGpu.Sessions (g : GspGpu) : Prop where
  distinct : (g.connectedSessions.map (·.threadId)).Nodup
  used : ∀ d ∈ g.connectedSessions, g.usedThreadIds d.threadId = true
  event : ∀ d ∈ g.connectedSessions, d.registered = true → d.interruptEvent.isSome = true

theorem findRegisteredThreadData_mem {g : GspGpu} {threadId : Nat} {data : SessionData}
    (h : g.findRegisteredThreadData threadId = some data) :
    data ∈ g.connectedSessions ∧ data.registered = true ∧ data.threadId = threadId := by
  have hdata := List.find?_some h
  rw [Bool.and_eq_true, decide_eq_true_iff] at hdata
  exact ⟨List.mem_of_find?_eq_some h, hdata.1, hdata.2⟩

/-- The service does with an interrupt what it may. -/
theorem proper_processPendingInterruptImpl {g : GspGpu} (hsessions : g.Sessions) {s : Signal}
    (hvalid : (g.interruptRelayQueue s.threadId).Valid) :
    Fall.Proper { signal := s
                  session := (g.findRegisteredThreadData s.threadId).map (·.session)
                  queue := g.interruptRelayQueue s.threadId
                  outcome := (g.processPendingInterruptImpl s).2 } := by
  unfold Fall.Proper GspGpu.processPendingInterruptImpl
  cases hfind : g.findRegisteredThreadData s.threadId with
  | none => rfl
  | some data =>
    obtain ⟨hmem, hregistered, -⟩ := findRegisteredThreadData_mem hfind
    obtain ⟨event, hevent⟩ := Option.isSome_iff_exists.mp (hsessions.event data hmem hregistered)
    have hqueue := queueInterrupt_outcome event hvalid
    simp only [Option.map_some, hevent]
    by_cases hpdc : s.interruptId.isPdc = true
    · simp only [if_pos hpdc]
      split_ifs with hignore hmany
      · exact .inl ⟨rfl, hignore⟩
      · exact .inr (.inl ⟨rfl, hmany⟩)
      · rcases hqueue with hqueued | ⟨-, hfull⟩
        · exact .inr (.inr hqueued)
        · rw [hfull] at hmany
          exact absurd (by decide) hmany
    · simp only [if_neg hpdc]
      exact hqueue

/-! ## The record of a relay queue -/

/-- What was put in the relay queue of a thread id. -/
def appended (due : List Fall) (threadId : Nat) : List Signal :=
  due.filterMap fun f =>
    if f.signal.threadId = threadId ∧ f.outcome.isQueued = true then some f.signal else none

/-- What was read from it. -/
def readFrom (read : List (Nat × Signal)) (threadId : Nat) : List Signal :=
  read.filterMap fun p => if p.2.threadId = threadId then some p.2 else none

/-- How many PDC interrupts were missed. -/
def missedCount (due : List Fall) (threadId : Nat) (id : InterruptId) : Nat :=
  due.countP fun f =>
    f.signal.threadId = threadId ∧ f.signal.interruptId = id ∧ f.outcome = .missed

/-- The relay queue of a thread id agrees with what fell due and what was read. -/
structure Accounts (due : List Fall) (read : List (Nat × Signal)) (threadId : Nat)
    (q : InterruptRelayQueue) : Prop where
  valid : q.Valid
  order : appended due threadId = readFrom read threadId ++ q.contents
  own : ∀ s ∈ q.contents, s.threadId = threadId
  missedPdc0 : q.missedPdc0 = missedCount due threadId .pdc0 % 2 ^ 32
  missedPdc1 : q.missedPdc1 = missedCount due threadId .pdc1 % 2 ^ 32
  reported : ∀ f ∈ due, f.signal.threadId = threadId → f.outcome = .full →
    q.errorCode = queueFullError

theorem appended_concat (due : List Fall) (f : Fall) (threadId : Nat) :
    appended (due ++ [f]) threadId = appended due threadId ++
      if f.signal.threadId = threadId ∧ f.outcome.isQueued = true then [f.signal] else [] := by
  unfold appended
  rw [List.filterMap_append, List.filterMap_cons, List.filterMap_nil]
  split_ifs <;> rfl

theorem missedCount_concat (due : List Fall) (f : Fall) (threadId : Nat) (id : InterruptId) :
    missedCount (due ++ [f]) threadId id = missedCount due threadId id +
      if f.signal.threadId = threadId ∧ f.signal.interruptId = id ∧ f.outcome = .missed
      then 1 else 0 := by
  unfold missedCount
  rw [List.countP_append, List.countP_singleton]
  simp only [decide_eq_true_eq]

namespace Accounts

variable {due : List Fall} {read : List (Nat × Signal)} {threadId : Nat}
  {q q' : InterruptRelayQueue}

theorem zero (threadId : Nat) : Accounts [] [] threadId .zero where
  valid := ⟨by decide, by decide⟩
  order := rfl
  own := fun s hs => (List.not_mem_nil hs).elim
  missedPdc0 := rfl
  missedPdc1 := rfl
  reported := fun f hf => (List.not_mem_nil hf).elim

/-- An interrupt for another thread id falls due. -/
theorem other {f : Fall} (h : Accounts due read threadId q) (hne : f.signal.threadId ≠ threadId) :
    Accounts (due ++ [f]) read threadId q where
  valid := h.valid
  order := by
    rw [appended_concat, if_neg fun hf => hne hf.1, List.append_nil]
    exact h.order
  own := h.own
  missedPdc0 := by
    rw [missedCount_concat, if_neg fun hf => hne hf.1]
    exact h.missedPdc0
  missedPdc1 := by
    rw [missedCount_concat, if_neg fun hf => hne hf.1]
    exact h.missedPdc1
  reported := by
    intro f' hf' ht hfull
    rcases List.mem_append.mp hf' with hf' | hf'
    · exact h.reported f' hf' ht hfull
    · obtain rfl := List.mem_singleton.mp hf'
      exact absurd ht hne

/-- The missed interrupts are counted in the counter of their screen. -/
theorem missed_turn {s : Signal} {o : Outcome} {c₀ c₁ : Nat} (hturn : Turn q s q' o)
    (h₀ : q.missedPdc0 = c₀ % 2 ^ 32) (h₁ : q.missedPdc1 = c₁ % 2 ^ 32) :
    q'.missedPdc0 = (c₀ + if s.interruptId = .pdc0 ∧ o = .missed then 1 else 0) % 2 ^ 32 ∧
      q'.missedPdc1 = (c₁ + if s.interruptId = .pdc1 ∧ o = .missed then 1 else 0) % 2 ^ 32 := by
  cases hturn with
  | dropped h => rcases h with rfl | rfl | rfl <;> simp [h₀, h₁]
  | full => simp [h₀, h₁]
  | queued event hroom => simp [InterruptRelayQueue.push, h₀, h₁]
  | missed hpdc =>
    unfold GspGpu.countMissed
    cases hid : s.interruptId with
    | pdc0 => simp [h₀, h₁]
    | pdc1 => simp [h₀, h₁]
    | _ =>
      rw [hid] at hpdc
      cases hpdc

/-- The error is not cleared, and reported when the queue is full. -/
theorem errorCode_turn {s : Signal} {o : Outcome} (hturn : Turn q s q' o) :
    (q.errorCode = queueFullError → q'.errorCode = queueFullError) ∧
      (o = .full → q'.errorCode = queueFullError) := by
  cases hturn with
  | dropped h => exact ⟨id, fun ho => by subst ho; simp at h⟩
  | full => exact ⟨fun _ => rfl, fun _ => rfl⟩
  | queued event hroom => exact ⟨id, fun ho => by cases ho⟩
  | missed hpdc =>
    refine ⟨fun he => ?_, fun ho => by cases ho⟩
    unfold GspGpu.countMissed
    split_ifs
    · exact he
    · exact he

/-- An interrupt for the thread id falls due. -/
theorem fall {f : Fall} (h : Accounts due read threadId q) (hturn : Turn q f.signal q' f.outcome)
    (hthread : f.signal.threadId = threadId) : Accounts (due ++ [f]) read threadId q' := by
  obtain ⟨hvalid, hcontents⟩ := hturn.valid h.valid
  refine ⟨hvalid, ?_, ?_, ?_, ?_, ?_⟩
  · rw [appended_concat, hcontents, h.order, List.append_assoc]
    simp only [hthread, true_and]
  · rw [hcontents]
    refine List.forall_mem_append.mpr ⟨h.own, ?_⟩
    split_ifs
    · exact List.forall_mem_singleton.mpr hthread
    · exact fun s hs => (List.not_mem_nil hs).elim
  · rw [missedCount_concat]
    simpa only [hthread, true_and] using (missed_turn hturn h.missedPdc0 h.missedPdc1).1
  · rw [missedCount_concat]
    simpa only [hthread, true_and] using (missed_turn hturn h.missedPdc0 h.missedPdc1).2
  · intro f' hf' ht hfull
    rcases List.mem_append.mp hf' with hf' | hf'
    · exact (errorCode_turn hturn).1 (h.reported f' hf' ht hfull)
    · obtain rfl := List.mem_singleton.mp hf'
      exact (errorCode_turn hturn).2 hfull

theorem readFrom_concat (read : List (Nat × Signal)) (p : Nat × Signal) (threadId : Nat) :
    readFrom (read ++ [p]) threadId =
      readFrom read threadId ++ if p.2.threadId = threadId then [p.2] else [] := by
  unfold readFrom
  rw [List.filterMap_append, List.filterMap_cons, List.filterMap_nil]
  split_ifs <;> rfl

/-- The guest reads another relay queue. -/
theorem read_other {p : Nat × Signal} (h : Accounts due read threadId q)
    (hne : p.2.threadId ≠ threadId) : Accounts due (read ++ [p]) threadId q := by
  refine ⟨h.valid, ?_, h.own, h.missedPdc0, h.missedPdc1, h.reported⟩
  rw [readFrom_concat, if_neg hne, List.append_nil]
  exact h.order

/-- The guest reads the first interrupt. -/
theorem consume (h : Accounts due read threadId q) (session : Nat) (hne : q.numberInterrupts ≠ 0) :
    q.consume.1 ∈ q.contents ∧
      Accounts due (read ++ [(session, q.consume.1)]) threadId q.consume.2 := by
  obtain ⟨hvalid, hcontents⟩ := h.valid.consume hne
  have hown := h.own
  rw [hcontents] at hown
  obtain ⟨hfirst, hrest⟩ := List.forall_mem_cons.mp hown
  refine ⟨hcontents ▸ List.mem_cons_self, hvalid, ?_, hrest, h.missedPdc0, h.missedPdc1, h.reported⟩
  rw [h.order, hcontents, readFrom_concat, if_pos hfirst, List.append_assoc]
  rfl

/-- The guest says whether it wants PDC interrupts. -/
theorem configure (h : Accounts due read threadId q) (ignorePdc : Bool) :
    Accounts due read threadId { q with ignorePdc := ignorePdc } :=
  ⟨h.valid, h.order, h.own, h.missedPdc0, h.missedPdc1, h.reported⟩

end Accounts

/-! ## The array -/

/-- The occupied places are those with a scheduled event. -/
structure Filed (a : PendingInterruptArray) (scheduled : List Nat) : Prop where
  head : a.head < PendingInterruptArray.arraySize
  nodup : scheduled.Nodup
  bound : ∀ place ∈ scheduled, place < PendingInterruptArray.arraySize
  occupied : ∀ place, (a.elements place).isSome = true ↔ place ∈ scheduled

namespace Filed

variable {a a' : PendingInterruptArray} {scheduled : List Nat} {s : Signal} {place : Nat}

theorem push_some (h : a.push s = some (place, a')) :
    place = a.head ∧ a.elements place = none ∧
      a'.elements = update a.elements place (some s) ∧
      a'.head = (a.head + 1) % PendingInterruptArray.arraySize := by
  unfold PendingInterruptArray.push at h
  simp only [Option.ite_none_left_eq_some, Option.some.injEq, Prod.mk.injEq] at h
  obtain ⟨hfree, rfl, rfl⟩ := h
  exact ⟨rfl, by simpa using hfree, rfl, rfl⟩

/-- A place that is free is filled. -/
theorem push (h : Filed a scheduled) (hpush : a.push s = some (place, a')) :
    Filed a' (scheduled ++ [place]) ∧
      (scheduled ++ [place]).filterMap a'.elements = scheduled.filterMap a.elements ++ [s] := by
  obtain ⟨rfl, hfree, helements, hhead⟩ := push_some hpush
  have hnot : a.head ∉ scheduled := fun hmem => by
    have hsome := (h.occupied a.head).mpr hmem
    rw [hfree] at hsome
    cases hsome
  refine ⟨⟨?_, ?_, ?_, ?_⟩, ?_⟩
  · rw [hhead]
    exact Nat.mod_lt _ (by decide)
  · exact List.nodup_append.mpr ⟨h.nodup, List.pairwise_singleton _ _, fun x hx y hy heq => by
      obtain rfl := List.mem_singleton.mp hy
      exact hnot (heq ▸ hx)⟩
  · exact List.forall_mem_append.mpr ⟨h.bound, List.forall_mem_singleton.mpr h.head⟩
  · intro place
    rw [helements, List.mem_append, List.mem_singleton, ← h.occupied place]
    by_cases heq : place = a.head
    · subst heq
      rw [update_self]
      exact ⟨fun _ => .inr rfl, fun _ => rfl⟩
    · rw [update_of_ne heq]
      exact ⟨.inl, fun hor => hor.resolve_right heq⟩
  · rw [List.filterMap_append, helements]
    congr 1
    · refine List.filterMap_congr fun place hplace => update_of_ne ?_ _ _
      exact fun heq => hnot (heq ▸ hplace)
    · rw [List.filterMap_cons, update_self, List.filterMap_nil]

/-- An event finds the interrupt of its place. -/
theorem pop (h : Filed a scheduled) (hmem : place ∈ scheduled) :
    ∃ s a', a.pop place = some (s, a') ∧ a.elements place = some s ∧
      a'.elements = update a.elements place none ∧
      Filed a' (scheduled.erase place) ∧
      (scheduled.filterMap a.elements).Perm
        (s :: (scheduled.erase place).filterMap a'.elements) := by
  obtain ⟨s, hs⟩ := Option.isSome_iff_exists.mp ((h.occupied place).mpr hmem)
  have hnot : place ∉ scheduled.erase place := h.nodup.not_mem_erase
  refine ⟨s, { a with elements := update a.elements place none }, ?_, hs, rfl,
    ⟨h.head, h.nodup.erase place, fun p hp => h.bound p (List.mem_of_mem_erase hp), ?_⟩, ?_⟩
  · unfold PendingInterruptArray.pop
    rw [if_neg (Nat.not_le.mpr (h.bound place hmem)), hs]
    rfl
  · intro p
    show (update a.elements place none p).isSome = true ↔ _
    rw [h.nodup.mem_erase_iff, ← h.occupied p]
    by_cases heq : p = place
    · subst heq
      simp
    · rw [update_of_ne heq]
      exact ⟨fun hp => ⟨heq, hp⟩, And.right⟩
  · refine ((List.perm_cons_erase hmem).filterMap a.elements).trans ?_
    rw [List.filterMap_cons, hs]
    refine List.Perm.cons s (List.Perm.of_eq ?_)
    refine List.filterMap_congr fun p hp => (update_of_ne ?_ _ _).symm
    exact fun heq => hnot (heq ▸ hp)

end Filed

/-! ## Runs -/

namespace Run

/-- The interrupts that wait. -/
def pending (r : Run) : List Signal := r.scheduled.filterMap r.gsp.pendingInterrupts.elements

/-- Every signal but those in hand has fallen due or waits, once. -/
structure AccountedBut (hand : List Signal) (r : Run) : Prop where
  sessions : r.gsp.Sessions
  filed : Filed r.gsp.pendingInterrupts r.scheduled
  accounts : ∀ t, Accounts r.due r.read t (r.gsp.interruptRelayQueue t)
  numbered : r.signalled.map (·.number) = List.range r.signalled.length
  once : r.signalled.Perm (hand ++ (r.due.map (·.signal) ++ r.pending))
  proper : ∀ f ∈ r.due, f.Proper

/-- Every signal has fallen due or waits, once. -/
def Accounted (r : Run) : Prop := r.AccountedBut []

variable {r : Run} {s : Signal}

theorem accounted_init : init.Accounted where
  sessions := ⟨List.nodup_nil, fun d hd => (List.not_mem_nil hd).elim,
    fun d hd => (List.not_mem_nil hd).elim⟩
  filed := ⟨by decide, List.nodup_nil, fun p hp => (List.not_mem_nil hp).elim,
    fun p => ⟨fun hp => Bool.noConfusion hp, fun hp => (List.not_mem_nil hp).elim⟩⟩
  accounts := Accounts.zero
  numbered := rfl
  once := List.Perm.refl _
  proper := fun f hf => (List.not_mem_nil hf).elim

namespace AccountedBut

/-- The one in hand falls due. -/
theorem fall (h : r.AccountedBut [s]) :
    (r.fall s (r.gsp.processPendingInterruptImpl s).1
      (r.gsp.processPendingInterruptImpl s).2).Accounted := by
  obtain ⟨q, hafter, hturn⟩ := r.gsp.processPendingInterruptImpl_spec s
  have hproper := proper_processPendingInterruptImpl h.sessions (h.accounts s.threadId).valid
  rw [hafter]
  refine ⟨⟨h.sessions.distinct, h.sessions.used, h.sessions.event⟩, h.filed,
    GspGpu.forall_setQueue ?_ ?_, h.numbered, ?_, ?_⟩
  · exact (h.accounts s.threadId).fall hturn rfl
  · exact fun t ht => (h.accounts t).other (Ne.symm ht)
  · refine h.once.trans ?_
    show ([s] ++ (r.due.map (·.signal) ++ r.pending)).Perm
      ((r.due ++ [_]).map (fun f : Fall => f.signal) ++ r.pending)
    rw [List.map_append, ← List.append_assoc]
    exact List.perm_append_comm.append_right _
  · exact List.forall_mem_append.mpr ⟨h.proper, List.forall_mem_singleton.mpr hproper⟩

/-- The one in hand is put in the array. -/
theorem file {place : Nat} {a : PendingInterruptArray} (h : r.AccountedBut [s])
    (hpush : r.gsp.pendingInterrupts.push s = some (place, a)) :
    Accounted { r with gsp := { r.gsp with pendingInterrupts := a }
                       scheduled := r.scheduled ++ [place] } := by
  obtain ⟨hfiled, hpending⟩ := h.filed.push hpush
  refine ⟨⟨h.sessions.distinct, h.sessions.used, h.sessions.event⟩, hfiled, h.accounts, h.numbered,
    ?_, h.proper⟩
  refine h.once.trans ?_
  show ([s] ++ (r.due.map (·.signal) ++ r.pending)).Perm
    (r.due.map (·.signal) ++ (r.scheduled ++ [place]).filterMap a.elements)
  rw [hpending]
  exact List.perm_append_comm.trans (List.Perm.of_eq (List.append_assoc _ _ _))

/-- An interrupt is signalled. -/
theorem signal (h : r.Accounted) (hnumber : s.number = r.signalled.length) :
    AccountedBut [s] { r with signalled := r.signalled ++ [s] } := by
  refine ⟨h.sessions, h.filed, h.accounts, ?_, ?_, h.proper⟩
  · show (r.signalled ++ [s]).map _ = _
    rw [List.map_append, h.numbered, List.length_append, List.length_singleton, List.range_succ,
      List.map_singleton, hnumber]
  · exact List.perm_append_comm.trans (h.once.append_left [s])

/-- An interrupt is taken out of the array. -/
theorem take {place : Nat} (h : r.Accounted) (hmem : place ∈ r.scheduled) :
    ∃ s a, r.gsp.pendingInterrupts.pop place = some (s, a) ∧
      r.gsp.pendingInterrupts.elements place = some s ∧
      AccountedBut [s] { r with gsp := { r.gsp with pendingInterrupts := a }
                                scheduled := r.scheduled.erase place } := by
  obtain ⟨s, a, hpop, hs, -, hfiled, hperm⟩ := h.filed.pop hmem
  refine ⟨s, a, hpop, hs, ⟨h.sessions.distinct, h.sessions.used, h.sessions.event⟩, hfiled,
    h.accounts, h.numbered, ?_, h.proper⟩
  refine h.once.trans ((List.Perm.append_left _ hperm).trans ?_)
  exact List.perm_middle

end AccountedBut

end Run

end GbaStation.Gsp
