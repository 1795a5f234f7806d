import Mathlib.Data.Multiset.DershowitzManna
import GbaStation.Core.Conversions

/-!
# Periodic timers (`kernel/timer.cpp`)

A kernel timer that is armed with an interval schedules its next event when its event fires, while
`Advance` drains the queue that the event goes into. `Advance` ends if what is scheduled is due
later than what fired, by a descent on the multiset of the delays of the events that are due; a
timer with an interval of less than one cycle is scheduled at its own time again, and `Advance`
never ends.

- `advance_ends_iff`: it ends exactly if no event that is due belongs to such a timer.

The threads that wait on a timer are not modelled here: waking them changes neither timers nor the
event queue.
-/

namespace GbaStation.Kernel

open GbaStation.Core (Event EventQueue Timing Call Callback toInt nsToCycles)

/-- The types of the events of a queue; those that are not about timers are numbered. -/
inductive EventType where
  | timerCallback
  | other (id : Nat)
deriving DecidableEq, Repr

/-- A timer; the service call checks that the times are not negative. -/
structure Timer where
  initialDelay : Nat := 0
  intervalDelay : Nat := 0
  signaled : Bool := false
deriving Repr

/-- `timer_callback_table`. -/
abbrev TimerManager := Nat → Option Timer

namespace Timer

variable {n : Nat}

/-- `Signal`: the timer, and the call that schedules it again. -/
def signal (callbackId : Nat) (cyclesLate : Int) (timer : Timer) :
    Timer × List (Int × EventType × Nat) :=
  ({ timer with signaled := true },
    if timer.intervalDelay ≠ 0 then
      [(nsToCycles timer.intervalDelay - cyclesLate, .timerCallback, callbackId)]
    else [])

end Timer

namespace TimerManager

/-- `TimerCallback`; a callback of a timer that does not exist does nothing. -/
def timerCallback (manager : TimerManager) (callbackId : Nat) (cyclesLate : Int) :
    TimerManager × List (Int × EventType × Nat) :=
  match manager callbackId with
  | none => (manager, [])
  | some timer =>
    let (timer, calls) := timer.signal callbackId cyclesLate
    (Function.update manager callbackId (some timer), calls)

end TimerManager

section Advance

variable {n : Nat}

/-- An event of a callback, scheduled on the current timer. -/
def schedule (c : Int × EventType × Nat) : Call n EventType :=
  .schedule c.1 c.2.1 c.2.2 none false

/-- What the callbacks of the other types schedule, of their own types. -/
abbrev OtherCallbacks (n : Nat) :=
  Nat → Nat → Int → TimerManager → Timing n EventType → List (Int × Nat × Nat)

/-- What the callback of an event does: the timers, and what it schedules. -/
def callOf (others : OtherCallbacks n) (type : EventType) (userData : Nat) (cyclesLate : Int)
    (manager : TimerManager) (t : Timing n EventType) :
    TimerManager × List (Int × EventType × Nat) :=
  match type with
  | .timerCallback => manager.timerCallback userData cyclesLate
  | .other id =>
    (manager, (others id userData cyclesLate manager t).map fun c => (c.1, .other c.2.1, c.2.2))

/-- The callbacks of all types. -/
def callbacks (others : OtherCallbacks n) : Callback n EventType TimerManager :=
  fun type userData cyclesLate manager t =>
    let (manager, calls) := callOf others type userData cyclesLate manager t
    (manager, calls.map schedule)

/-- The other callbacks schedule nothing at the time of their event or before it: what they schedule
is at a distance of more than `- cyclesLate`. -/
def LaterOnly (others : OtherCallbacks n) : Prop :=
  ∀ id userData cyclesLate manager t, ∀ c ∈ others id userData cyclesLate manager t,
    0 < c.1 + cyclesLate

/-- `Timer::Set`: an event is scheduled, or the timer is signalled at once. -/
def setTimer (manager : TimerManager) (t : Timing n EventType) (callbackId : Nat)
    (initial interval : Nat) : TimerManager × Timing n EventType :=
  match manager callbackId with
  | none => (manager, t)
  | some timer =>
    let t := t.unscheduleEvent .timerCallback callbackId
    let timer := { timer with initialDelay := initial, intervalDelay := interval }
    if initial = 0 then
      let (timer, calls) := timer.signal callbackId 0
      (Function.update manager callbackId (some timer), (calls.map schedule).foldl Timing.perform t)
    else
      (Function.update manager callbackId (some timer),
        t.perform (schedule (nsToCycles initial, .timerCallback, callbackId)))

/-- `Advance` of the current timer ends. -/
def Ends (others : OtherCallbacks n) (manager : TimerManager) (t : Timing n EventType) : Prop :=
  ∃ turns r, t.advance (callbacks others) t.current turns manager = some r

/-- An event that is due, is not that late that the lateness is negative as an `int`, and belongs
to a timer with an interval that is shorter than a cycle. -/
structure Stuck (manager : TimerManager) (ticks : Int) (e : Event EventType) : Prop where
  due : e.time ≤ ticks
  late : 0 ≤ toInt (ticks - e.time)
  type : e.type = .timerCallback
  interval : ∃ timer, manager e.userData = some timer ∧ timer.intervalDelay ≠ 0 ∧
    nsToCycles timer.intervalDelay = 0

theorem toInt_le {x : Int} (h : 0 ≤ x) : toInt x ≤ x := by
  unfold toInt Int.bmod
  simp only
  split_ifs <;> omega

theorem toInt_toInt (x : Int) : toInt (toInt x) = toInt x := by
  unfold toInt
  rw [Int.bmod_bmod]

/-! ## One turn of the loop -/

/-- The events of the queue of the current timer. -/
def queue (t : Timing n EventType) : List (Event EventType) :=
  (t.timers t.current).eventQueue.events

/-- The ticks at which the current timer drains its queue. -/
def ticks (t : Timing n EventType) : Int := (t.timers t.current).executedTicks

variable {t : Timing n EventType}

/-- In the loop, what is scheduled goes into the queue at a distance from the ticks. -/
theorem perform_schedule (hsane : (t.timers t.current).isTimerSane = true)
    (c : Int × EventType × Nat) :
    (t.perform (schedule c)).current = t.current ∧
      ((t.perform (schedule c)).timers t.current).isTimerSane = true ∧
      ticks (t.perform (schedule c)) = ticks t ∧
      ∃ x, (queue (t.perform (schedule c))).Perm (x :: queue t) ∧ x.time = ticks t + c.1 ∧
        x.type = c.2.1 ∧ x.userData = c.2.2 := by
  let e : Event EventType := ⟨ticks t + c.1, 0, c.2.2, c.2.1, t.nextSerial⟩
  have hticks : (t.timers t.current).getTicks = ticks t := by
    unfold Core.Timer.getTicks
    rw [if_pos hsane]
    rfl
  have heq : t.perform (schedule c) =
      (t.update t.current fun _ => (t.timers t.current).enqueue e).note e := by
    show t.scheduleEvent c.1 c.2.1 c.2.2 none false = _
    unfold Timing.scheduleEvent
    simp only [Option.getD_none, Bool.false_eq_true, if_false, if_true, hsane, hticks]
    rfl
  have htimer : (t.perform (schedule c)).timers t.current =
      (t.timers t.current).enqueue e := by
    rw [heq]
    exact Timing.timers_update_self ..
  have hcurrent : (t.perform (schedule c)).current = t.current := by rw [heq]; rfl
  refine ⟨hcurrent, by rw [htimer]; exact hsane, ?_,
    { e with fifoOrder := (t.timers t.current).eventFifoId }, ?_, rfl, rfl, rfl⟩
  · unfold ticks
    rw [hcurrent, htimer]
    rfl
  · unfold queue
    rw [hcurrent, htimer]
    exact Core.insertEvent_perm { e with fifoOrder := (t.timers t.current).eventFifoId } _

/-- What the calls of a callback add to the queue: an event for each. -/
theorem perform_schedules (calls : List (Int × EventType × Nat))
    (hsane : (t.timers t.current).isTimerSane = true) :
    let t' := (calls.map schedule).foldl Timing.perform t
    t'.current = t.current ∧ (t'.timers t.current).isTimerSane = true ∧ ticks t' = ticks t ∧
      ∃ new, (queue t').Perm (new ++ queue t) ∧
        List.Forall₂ (fun (x : Event EventType) c =>
          x.time = ticks t + c.1 ∧ x.type = c.2.1 ∧ x.userData = c.2.2) new calls := by
  induction calls generalizing t with
  | nil => exact ⟨rfl, hsane, rfl, [], List.Perm.refl _, .nil⟩
  | cons c calls ih =>
    obtain ⟨hcur, hsane', hticks, x, hperm, hx⟩ := perform_schedule hsane c
    obtain ⟨hcur', hsane'', hticks', new, hperm', hnew⟩ :=
      ih (t := t.perform (schedule c)) (by rw [hcur]; exact hsane')
    refine ⟨hcur'.trans hcur, by rw [← hcur]; exact hsane'', hticks'.trans hticks, x :: new, ?_,
      .cons hx (by rw [hticks] at hnew; exact hnew)⟩
    exact hperm'.trans ((hperm.append_left new).trans List.perm_middle)

/-- A callback leaves the intervals of the timers as they are. -/
theorem callOf_interval (others : OtherCallbacks n) (type : EventType) (userData : Nat)
    (cyclesLate : Int) (manager : TimerManager) (t : Timing n EventType) (id : Nat) :
    ((callOf others type userData cyclesLate manager t).1 id).map Timer.intervalDelay =
      (manager id).map Timer.intervalDelay := by
  cases type with
  | other _ => rfl
  | timerCallback =>
    show ((manager.timerCallback userData cyclesLate).1 id).map _ = _
    unfold TimerManager.timerCallback
    cases htimer : manager userData with
    | none => rfl
    | some timer =>
      show (Function.update manager userData (some (timer.signal userData cyclesLate).1) id).map _ =
        _
      by_cases hid : id = userData
      · subst hid
        rw [Function.update_self, htimer]
        rfl
      · rw [Function.update_of_ne hid]

variable {manager : TimerManager} {e : Event EventType}

theorem Stuck.of_interval {manager' : TimerManager} {ticks : Int} (h : Stuck manager ticks e)
    (hmanager : (manager' e.userData).map Timer.intervalDelay =
      (manager e.userData).map Timer.intervalDelay) : Stuck manager' ticks e := by
  obtain ⟨timer, htimer, hne, hzero⟩ := h.interval
  rw [htimer, Option.map_some] at hmanager
  obtain ⟨timer', htimer', heq⟩ := Option.map_eq_some_iff.mp hmanager
  exact ⟨h.due, h.late, h.type, timer', htimer', heq ▸ hne, heq ▸ hzero⟩

variable {others : OtherCallbacks n}

/-- What a callback schedules is the next event of its timer, or a later event of another type. -/
theorem mem_callOf (hothers : LaterOnly others) {type : EventType} {userData : Nat}
    {cyclesLate : Int} {c : Int × EventType × Nat}
    (hc : c ∈ (callOf others type userData cyclesLate manager t).2) :
    (type = .timerCallback ∧ c.2 = (.timerCallback, userData) ∧
      ∃ timer, manager userData = some timer ∧ timer.intervalDelay ≠ 0 ∧
        c.1 = nsToCycles timer.intervalDelay - cyclesLate) ∨
    (c.2.1 ≠ .timerCallback ∧ 0 < c.1 + cyclesLate) := by
  cases type with
  | other id =>
    obtain ⟨d, hd, rfl⟩ := List.mem_map.mp hc
    exact .inr ⟨by simp, hothers id userData cyclesLate manager t d hd⟩
  | timerCallback =>
    left
    change c ∈ (manager.timerCallback userData cyclesLate).2 at hc
    unfold TimerManager.timerCallback at hc
    cases htimer : manager userData with
    | none =>
      rw [htimer] at hc
      cases hc
    | some timer =>
      rw [htimer] at hc
      simp only [Timer.signal] at hc
      split_ifs at hc with hne
      · obtain rfl := List.mem_singleton.mp hc
        exact ⟨rfl, rfl, timer, rfl, hne, rfl⟩
      · cases hc

/-- A turn for a stuck event schedules one event, at the lateness before the ticks. -/
theorem Stuck.callOf {ticks : Int} (h : Stuck manager ticks e) (cyclesLate : Int)
    (t : Timing n EventType) :
    (Kernel.callOf others e.type e.userData cyclesLate manager t).2 =
      [(-cyclesLate, .timerCallback, e.userData)] := by
  obtain ⟨timer, htimer, hne, hzero⟩ := h.interval
  rw [h.type]
  show (manager.timerCallback e.userData cyclesLate).2 = _
  unfold TimerManager.timerCallback
  rw [htimer]
  simp only [Timer.signal, if_pos hne, hzero]
  simp

/-- What a turn of the loop does to the queue: it takes the first event out and adds one for each
call of its callback. The intervals of the timers stay. -/
theorem turn (others : OtherCallbacks n) (manager : TimerManager)
    (hsane : (t.timers t.current).isTimerSane = true) {rest : List (Event EventType)}
    (hqueue : queue t = e :: rest) :
    let late := toInt (ticks t - e.time)
    let r := Timing.fire (callbacks others) t.current e manager t
    (∀ id, (r.1 id).map Timer.intervalDelay = (manager id).map Timer.intervalDelay) ∧
      r.2.current = t.current ∧ (r.2.timers t.current).isTimerSane = true ∧ ticks r.2 = ticks t ∧
      ∃ new, (queue r.2).Perm (new ++ rest) ∧
        List.Forall₂ (fun (x : Event EventType) c =>
          x.time = ticks t + c.1 ∧ x.type = c.2.1 ∧ x.userData = c.2.2) new
          (callOf others e.type e.userData late manager (t.take t.current e)).2 := by
  have htake : (t.take t.current e).timers t.current =
      { t.timers t.current with eventQueue := (t.timers t.current).eventQueue.pop } :=
    Timing.timers_take_self t t.current e
  have hticks : ticks (t.take t.current e) = ticks t := by
    show ((t.take t.current e).timers t.current).executedTicks = _
    rw [htake]
    rfl
  have hrest : queue (t.take t.current e) = rest := by
    show ((t.take t.current e).timers t.current).eventQueue.events = rest
    rw [htake]
    show (queue t).tail = rest
    rw [hqueue]
    rfl
  obtain ⟨hcur, hsane', hticks', new, hperm, hnew⟩ := perform_schedules
    (callOf others e.type e.userData (toInt (ticks t - e.time)) manager (t.take t.current e)).2
    (t := t.take t.current e)
    (by show ((t.take t.current e).timers t.current).isTimerSane = true; rw [htake]; exact hsane)
  refine ⟨fun id => callOf_interval .., hcur, hsane', hticks'.trans hticks, new, hrest ▸ hperm,
    ?_⟩
  rw [hticks] at hnew
  exact hnew

/-- The loop goes on with what a turn leaves. -/
theorem drain_fire (others : OtherCallbacks n) (manager : TimerManager)
    {rest : List (Event EventType)} (hqueue : queue t = e :: rest) (hdue : e.time ≤ ticks t)
    (turns : Nat) :
    let r := Timing.fire (callbacks others) t.current e manager t
    Timing.drain (callbacks others) t.current (turns + 1) manager t =
      Timing.drain (callbacks others) t.current turns r.1 r.2 := by
  rw [Timing.drain]
  change (t.timers t.current).eventQueue.events = e :: rest at hqueue
  rw [hqueue]
  exact if_pos hdue

/-! ## Termination -/

theorem nsToCycles_nonneg (ns : Nat) : 0 ≤ nsToCycles ns :=
  ((Core.converts (by decide)).fits _ (Int.natCast_nonneg ns)).1

theorem exists_of_forall₂ {α β : Type} {r : α → β → Prop} {xs : List α} {ys : List β}
    (h : List.Forall₂ r xs ys) {x : α} (hx : x ∈ xs) : ∃ y ∈ ys, r x y := by
  induction h with
  | nil => cases hx
  | cons hxy _ ih =>
    rcases List.mem_cons.mp hx with rfl | hx
    · exact ⟨_, List.mem_cons_self, hxy⟩
    · obtain ⟨y, hy, hxy⟩ := ih hx
      exact ⟨y, List.mem_cons_of_mem _ hy, hxy⟩

/-- How long the events that are due have been so. -/
def delays (ticks : Int) (events : List (Event EventType)) : Multiset Nat :=
  (events.filter fun e => decide (e.time ≤ ticks)).map fun e => (ticks - e.time).toNat

theorem mem_delays {ticks : Int} {events : List (Event EventType)} {k : Nat} :
    k ∈ delays ticks events ↔ ∃ e ∈ events, e.time ≤ ticks ∧ (ticks - e.time).toNat = k := by
  simp [delays, and_assoc]

theorem delays_append (ticks : Int) (xs ys : List (Event EventType)) :
    delays ticks (xs ++ ys) = delays ticks xs + delays ticks ys := by
  simp [delays]

theorem delays_perm {ticks : Int} {xs ys : List (Event EventType)} (h : xs.Perm ys) :
    delays ticks xs = delays ticks ys := by
  exact Multiset.coe_eq_coe.mpr ((h.filter _).map _)

/-- What a turn schedules is due later than what it fires, unless that was stuck. -/
theorem later_of_turn (hothers : LaterOnly others) {manager' : TimerManager} {now : Int}
    (hdue : e.time ≤ now) (hstuck : ¬Stuck manager now e) {c : Int × EventType × Nat}
    (hc : c ∈ (callOf others e.type e.userData (toInt (now - e.time)) manager t).2)
    (hmanager : ∀ id, (manager' id).map Timer.intervalDelay =
      (manager id).map Timer.intervalDelay) {x : Event EventType}
    (hx : x.time = now + c.1 ∧ x.type = c.2.1 ∧ x.userData = c.2.2) :
    ¬Stuck manager' now x ∧ (x.time ≤ now → e.time < x.time) := by
  obtain ⟨htime, htype, hdata⟩ := hx
  have hlate := toInt_le (x := now - e.time) (by omega)
  rcases mem_callOf hothers hc with ⟨hcb, hc2, timer, htimer, hne, hc1⟩ | ⟨hother, hpos⟩
  · rw [hc2] at htype hdata
    have hcycles := nsToCycles_nonneg timer.intervalDelay
    have hcycle : nsToCycles timer.intervalDelay = 0 → now < x.time := by
      intro hzero
      have hneg : ¬0 ≤ toInt (now - e.time) := fun h =>
        hstuck ⟨hdue, h, hcb, timer, htimer, hne, hzero⟩
      omega
    refine ⟨fun hx => ?_, fun hxdue => ?_⟩
    · -- The new event is of the same timer, so that timer has no cycle.
      obtain ⟨timer', htimer', -, hzero⟩ := hx.interval
      have hsameId : x.userData = e.userData := hdata
      have heq := hmanager e.userData
      rw [← hsameId, htimer', hsameId, htimer] at heq
      have hsame : timer'.intervalDelay = timer.intervalDelay := Option.some.inj heq
      have := hcycle (hsame ▸ hzero)
      have := hx.due
      omega
    · have hne : nsToCycles timer.intervalDelay ≠ 0 := by
        intro hzero
        omega
      omega
  · refine ⟨fun hx => hother (htype.symm.trans hx.type), fun _ => by omega⟩

/-- The loop ends when no event of the queue is stuck. -/
theorem drain_ends (hothers : LaterOnly others) (m : Multiset Nat) :
    ∀ (manager : TimerManager) (t : Timing n EventType),
      (t.timers t.current).isTimerSane = true → delays (ticks t) (queue t) = m →
      (∀ x ∈ queue t, ¬Stuck manager (ticks t) x) →
      ∃ turns r, Timing.drain (callbacks others) t.current turns manager t = some r := by
  have hwf : WellFounded (Multiset.IsDershowitzMannaLT (α := Nat)) :=
    Multiset.wellFounded_isDershowitzMannaLT
  induction m using hwf.induction with
  | _ m ih =>
    intro manager t hsane hm hfree
    cases hqueue : queue t with
    | nil =>
      refine ⟨1, (manager, t), ?_⟩
      rw [Timing.drain]
      change (t.timers t.current).eventQueue.events = [] at hqueue
      rw [hqueue]
    | cons e rest =>
      rw [hqueue] at hm hfree
      obtain ⟨hstuck, hrest⟩ := List.forall_mem_cons.mp hfree
      by_cases hdue : e.time ≤ ticks t
      · obtain ⟨hinterval, hcur, hsane', hticks, new, hperm, hnew⟩ :=
          turn others manager hsane hqueue
        have hdrains := drain_fire others manager hqueue hdue
        generalize Timing.fire (callbacks others) t.current e manager t = r at *
        have hlater : ∀ x ∈ new, ¬Stuck r.1 (ticks t) x ∧ (x.time ≤ ticks t → e.time < x.time) := by
          intro x hx
          obtain ⟨c, hc, hxc⟩ := exists_of_forall₂ hnew hx
          exact later_of_turn hothers hdue hstuck hc hinterval hxc
        have hlt : (delays (ticks r.2) (queue r.2)).IsDershowitzMannaLT m := by
          rw [hticks, delays_perm hperm, delays_append, ← hm]
          refine ⟨delays (ticks t) rest, delays (ticks t) new, {(ticks t - e.time).toNat},
            Multiset.singleton_ne_zero _, Multiset.add_comm _ _, ?_, fun k hk => ?_⟩
          · rw [← List.singleton_append, delays_append, Multiset.add_comm]
            congr 1
            simp [delays, hdue]
          · obtain ⟨x, hx, hxdue, rfl⟩ := mem_delays.mp hk
            refine ⟨_, Multiset.mem_singleton_self _, ?_⟩
            have := (hlater x hx).2 hxdue
            omega
        have hfree' : ∀ x ∈ queue r.2, ¬Stuck r.1 (ticks r.2) x := by
          intro x hx
          rw [hticks]
          rcases List.mem_append.mp (hperm.mem_iff.mp hx) with hx | hx
          · exact (hlater x hx).1
          · exact fun h => hrest x hx (h.of_interval (hinterval _).symm)
        obtain ⟨turns, result, hdrain⟩ := ih _ hlt r.1 r.2 (by rw [hcur]; exact hsane') rfl hfree'
        rw [hcur] at hdrain
        exact ⟨turns + 1, result, (hdrains turns).trans hdrain⟩
      · refine ⟨1, (manager, t), ?_⟩
        rw [Timing.drain]
        change (t.timers t.current).eventQueue.events = e :: rest at hqueue
        rw [hqueue]
        exact if_neg hdue

/-- With a stuck event in the queue the loop never ends. -/
theorem drain_eq_none (others : OtherCallbacks n) (turns : Nat) :
    ∀ (manager : TimerManager) (t : Timing n EventType),
      (t.timers t.current).isTimerSane = true → (∃ x ∈ queue t, Stuck manager (ticks t) x) →
      Timing.drain (callbacks others) t.current turns manager t = none := by
  induction turns with
  | zero => exact fun _ _ _ _ => rfl
  | succ turns ih =>
    rintro manager t hsane ⟨x, hx, hstuck⟩
    cases hqueue : queue t with
    | nil =>
      rw [hqueue] at hx
      cases hx
    | cons e rest =>
      have hdue : e.time ≤ ticks t := Int.le_trans (EventQueue.front_le hqueue hx) hstuck.due
      obtain ⟨hinterval, hcur, hsane', hticks, new, hperm, hnew⟩ := turn others manager hsane hqueue
      have hdrains := drain_fire others manager hqueue hdue
      generalize Timing.fire (callbacks others) t.current e manager t = r at *
      have hnext : ∃ y ∈ queue r.2, Stuck r.1 (ticks r.2) y := by
        rw [hticks]
        rw [hqueue] at hx
        rcases List.mem_cons.mp hx with rfl | hx
        · -- The event is scheduled again, as late as it was.
          rw [hstuck.callOf] at hnew
          cases hnew with
          | cons hy hnil =>
            obtain ⟨htime, htype, hdata⟩ := hy
            refine ⟨_, hperm.mem_iff.mpr (List.mem_append_left _ List.mem_cons_self), ?_⟩
            have hlate := hstuck.late
            refine Stuck.of_interval (show Stuck manager _ _ from ⟨by omega, ?_, htype, ?_⟩)
              (hinterval _)
            · rw [show ticks t - _ = toInt (ticks t - x.time) by rw [htime]; omega, toInt_toInt]
              exact hlate
            · rw [hdata]
              exact hstuck.interval
        · exact ⟨x, hperm.mem_iff.mpr (List.mem_append_right _ hx),
            hstuck.of_interval (hinterval _)⟩
      have hnone := ih r.1 r.2 (by rw [hcur]; exact hsane') hnext
      rw [hcur] at hnone
      exact (hdrains turns).trans hnone

/-- The state of the loop when it begins. -/
theorem begin_facts (t : Timing n EventType) :
    let t₀ := t.update t.current Core.Timer.beginAdvance
    (t₀.timers t₀.current).isTimerSane = true ∧
      queue t₀ = (t.timers t.current).beginAdvance.eventQueue.events ∧
      ticks t₀ = (t.timers t.current).beginAdvance.executedTicks := by
  have htimer : (t.update t.current Core.Timer.beginAdvance).timers t.current =
      (t.timers t.current).beginAdvance := Timing.timers_update_self ..
  exact ⟨congrArg Core.Timer.isTimerSane htimer,
    congrArg (fun timer => timer.eventQueue.events) htimer,
    congrArg Core.Timer.executedTicks htimer⟩

/-- `Advance` does not end when it finds a stuck event. -/
theorem not_ends_of_stuck (he : e ∈ (t.timers t.current).beginAdvance.eventQueue.events)
    (hstuck : Stuck manager (t.timers t.current).beginAdvance.executedTicks e) :
    ¬Ends others manager t := by
  rintro ⟨turns, r, hrun⟩
  obtain ⟨hsane, hqueue, hticks⟩ := begin_facts t
  have hnone := drain_eq_none others turns manager _ hsane ⟨e, hqueue ▸ he, hticks ▸ hstuck⟩
  unfold Timing.advance at hrun
  rw [show Timing.drain (callbacks others) t.current turns manager _ = none from hnone] at hrun
  cases hrun

/-- `Advance` ends exactly if no event that it finds is stuck. -/
theorem advance_ends_iff {others : OtherCallbacks n} (hothers : LaterOnly others)
    (manager : TimerManager) (t : Timing n EventType) :
    Ends others manager t ↔
      ∀ e ∈ (t.timers t.current).beginAdvance.eventQueue.events,
        ¬Stuck manager (t.timers t.current).beginAdvance.executedTicks e := by
  constructor
  · exact fun hends e he hstuck => not_ends_of_stuck he hstuck hends
  · intro hfree
    obtain ⟨hsane, hqueue, hticks⟩ := begin_facts t
    obtain ⟨turns, r, hdrain⟩ := drain_ends hothers _ manager _ hsane rfl
      (fun x hx => by rw [hticks]; exact hfree x (hqueue ▸ hx))
    refine ⟨turns, (r.1, r.2.update t.current fun timer => { timer with isTimerSane := false }), ?_⟩
    unfold Timing.advance
    rw [show Timing.drain (callbacks others) t.current turns manager _ = some r from hdrain]
    rfl

/-- Callbacks that schedule nothing. -/
def noOthers : OtherCallbacks n := fun _ _ _ _ _ => []

/-- A timer of 1000 ns that is repeated every 4 ns, when its first event is due. -/
theorem advance_ends_iff_periodic :
    let r := setTimer (Function.update (fun _ => none) 1 (some {}))
      (Timing.initial (n := 1) 0 0) 1 1000 4
    Ends noOthers r.1 (r.2.update 0 (Core.Timer.addTicks 300)) := by
  intro r
  have hqueue : ((r.2.update 0 (Core.Timer.addTicks 300)).timers 0).beginAdvance.eventQueue.events =
      [⟨268, 0, 1, .timerCallback, 0⟩] := by decide +kernel
  refine (advance_ends_iff (fun _ _ _ _ _ _ hc => absurd hc List.not_mem_nil) _ _).mpr ?_
  intro e he hstuck
  obtain rfl := List.mem_singleton.mp (hqueue ▸ he)
  obtain ⟨timer, htimer, -, hzero⟩ := hstuck.interval
  obtain rfl : (⟨1000, 4, false⟩ : Timer) = timer := Option.some.inj htimer
  exact absurd hzero (by decide)

/-- With an interval of 1 ns instead it never ends. -/
theorem advance_never_ends :
    let r := setTimer (Function.update (fun _ => none) 1 (some {}))
      (Timing.initial (n := 1) 0 0) 1 1000 1
    ¬Ends noOthers r.1 (r.2.update 0 (Core.Timer.addTicks 300)) := by
  intro r
  have hqueue : ((r.2.update 0 (Core.Timer.addTicks 300)).timers 0).beginAdvance.eventQueue.events =
      [⟨268, 0, 1, .timerCallback, 0⟩] := by decide +kernel
  have hticks : ((r.2.update 0 (Core.Timer.addTicks 300)).timers 0).beginAdvance.executedTicks =
      300 := by decide +kernel
  refine not_ends_of_stuck (e := ⟨268, 0, 1, .timerCallback, 0⟩) ?_ ?_
  · exact hqueue ▸ List.mem_singleton_self _
  · refine ⟨?_, ?_, rfl, ⟨1000, 1, false⟩, rfl, by decide, by decide⟩
    · exact hticks ▸ by decide
    · exact hticks ▸ by decide

end Advance

end GbaStation.Kernel
