import GbaStation.Core.Cancellation

/-!
# Events on the current timer

Events that are scheduled on the current timer at least one cycle ahead, by the program and by
callbacks: none is lost or fired twice, and none fires early.
-/

namespace GbaStation.Core

variable {τ σ : Type} {n : Nat}

/-- Scheduling on the current timer at least one cycle ahead, and cancelling. The number of a core is
not given, not even that of the current timer. -/
def Call.Plain : Call n τ → Prop
  | .schedule cycles _ _ core threadSafeMode => 1 ≤ cycles ∧ core = none ∧ threadSafeMode = false
  | _ => True

/-- Steps on the current timer; a slice is set where `Advance` has ended the last one. -/
def Step.Plain (t : Timing n τ) : Step n τ → Prop
  | .call c => c.Plain
  | .addTicks _ => True
  | .forceExceptionCheck core _ => core = t.current
  | .advance core _ => core = t.current
  | .setNextSlice core length =>
    core = t.current ∧ 0 ≤ length ∧ (t.timers core).isTimerSane = false ∧
      (t.timers core).sliceLength = 0 ∧ (t.timers core).downcount = 0
  | .idle _ => False
  | .setCurrentTimer _ => False

namespace Timing

/-- The queue of the current timer. -/
def queue (t : Timing n τ) : List (Event τ) := (t.timers t.current).eventQueue.events

/-! ## What the log says -/

/-- The numbers of the events that were scheduled, with the last one first. -/
def scheduledIn (log : List (Entry τ)) : List Nat :=
  log.filterMap fun
    | .scheduled e => some e.serial
    | _ => none

/-- The numbers of the events that were fired or removed. -/
def doneIn (log : List (Entry τ)) : List Nat :=
  log.flatMap fun
    | .scheduled _ => []
    | .removed _ _ dropped => dropped.map Event.serial
    | .fired e _ _ => [e.serial]

/-- No event fires early, and the callback is given its lateness. -/
def InTime (log : List (Entry τ)) : Prop :=
  ∀ e late ticks, .fired e late ticks ∈ log → e.time ≤ ticks ∧ late = toInt (ticks - e.time)

/-- Every event that was scheduled is in the queue, or was fired or removed, and that once. -/
structure Delivered (t : Timing n τ) : Prop where
  numbers : (scheduledIn t.log).Nodup
  kept : (scheduledIn t.log).Perm (t.queue.map Event.serial ++ doneIn t.log)
  inTime : InTime t.log

/-- Only the current timer has events, all of them in its queue and in the order of their numbers,
and what was scheduled so far is delivered. -/
structure Sound (t : Timing n τ) : Prop where
  noneElsewhere : ∀ i, (t.timers i).tsQueue = [] ∧
    (i ≠ t.current → (t.timers i).eventQueue.events = [])
  fifo : (t.queue.map Event.fifoOrder).Nodup
  fifoBelow : ∀ e ∈ t.queue, e.fifoOrder < (t.timers t.current).eventFifoId
  below : ∀ k ∈ scheduledIn t.log, k < t.nextSerial
  delivered : t.Delivered

variable {t : Timing n τ}

/-- A change of the clock of the current timer. -/
theorem Sound.update (h : t.Sound) {f : Timer τ → Timer τ}
    (hqueue : (f (t.timers t.current)).eventQueue = (t.timers t.current).eventQueue)
    (hts : (f (t.timers t.current)).tsQueue = (t.timers t.current).tsQueue)
    (hfifo : (f (t.timers t.current)).eventFifoId = (t.timers t.current).eventFifoId) :
    (t.update t.current f).Sound ∧ (t.update t.current f).queue = t.queue := by
  have htimer : (t.update t.current f).timers t.current = f (t.timers t.current) :=
    timers_update_self ..
  have hsame : (t.update t.current f).queue = t.queue := by
    show ((t.update t.current f).timers t.current).eventQueue.events = _
    rw [htimer, hqueue]
    rfl
  refine ⟨⟨fun i => ?_, by rw [hsame]; exact h.fifo, fun e he => ?_, h.below, h.delivered.numbers,
    by rw [hsame]; exact h.delivered.kept, h.delivered.inTime⟩, hsame⟩
  · by_cases hi : i = t.current
    · subst hi
      rw [htimer, hts]
      exact ⟨(h.noneElsewhere t.current).1, fun hne => absurd rfl hne⟩
    · rw [timers_update_of_ne t f hi]
      exact h.noneElsewhere i
  · show e.fifoOrder < ((t.update t.current f).timers t.current).eventFifoId
    rw [htimer, hfifo]
    exact h.fifoBelow e (hsame ▸ he)

/-- `Advance` has nothing to move. -/
theorem Sound.beginAdvance (h : t.Sound) :
    (t.update t.current Timer.beginAdvance).Sound ∧
      (t.update t.current Timer.beginAdvance).queue = t.queue := by
  have hmove : (t.timers t.current).moveEvents = t.timers t.current := by
    unfold Timer.moveEvents
    rw [(h.noneElsewhere t.current).1]
    show { t.timers t.current with tsQueue := [] } = _
    rw [← (h.noneElsewhere t.current).1]
  refine h.update ?_ ?_ ?_
  · show (t.timers t.current).moveEvents.eventQueue = _
    rw [hmove]
  · show (t.timers t.current).moveEvents.tsQueue = _
    rw [hmove]
  · show (t.timers t.current).moveEvents.eventFifoId = _
    rw [hmove]

theorem Sound.take (h : t.Sound) {e : Event τ} {rest : List (Event τ)}
    (hqueue : t.queue = e :: rest) (hdue : e.time ≤ (t.timers t.current).executedTicks) :
    (t.take t.current e).Sound ∧ (t.take t.current e).queue = rest := by
  have htimer := timers_take_self t t.current e
  have hrest : (t.take t.current e).queue = rest := by
    show ((t.take t.current e).timers t.current).eventQueue.events = rest
    rw [htimer]
    show t.queue.tail = rest
    rw [hqueue]
    rfl
  have hfifo := h.fifo
  have hfifoBelow := h.fifoBelow
  have hkept := h.delivered.kept
  rw [hqueue] at hfifo hfifoBelow hkept
  refine ⟨⟨fun i => ?_, ?_, fun x hx => ?_, h.below, h.delivered.numbers, ?_, ?_⟩, hrest⟩
  · by_cases hi : i = t.current
    · subst hi
      rw [htimer]
      exact ⟨(h.noneElsewhere t.current).1, fun hne => absurd rfl hne⟩
    · rw [timers_take_of_ne t e hi]
      exact h.noneElsewhere i
  · rw [hrest]
    exact (List.nodup_cons.mp hfifo).2
  · show x.fifoOrder < ((t.take t.current e).timers t.current).eventFifoId
    rw [htimer]
    exact hfifoBelow x (List.mem_cons_of_mem e (hrest ▸ hx))
  · rw [hrest]
    show (scheduledIn t.log).Perm (rest.map Event.serial ++ (e.serial :: doneIn t.log))
    exact hkept.trans List.perm_middle.symm
  · intro x late ticks hx
    rcases List.mem_cons.mp hx with heq | hx
    · cases heq
      exact ⟨hdue, rfl⟩
    · exact h.delivered.inTime x late ticks hx

/-! ## Calls -/

/-- What a plain call of `ScheduleEvent` does. -/
theorem scheduleEvent_plain (t : Timing n τ) (cycles : Int) (type : τ) (userData : Nat) :
    let e : Event τ := ⟨t.getTicks + cycles, 0, userData, type, t.nextSerial⟩
    t.scheduleEvent cycles type userData none false =
      (t.update t.current fun timer =>
        (if timer.isTimerSane then timer
          else timer.forceExceptionCheck cycles).enqueue e).note e := by
  show (if t.current = t.current then _ else _) = _
  rw [if_pos rfl]
  rfl

/-- An event that is put in the queue of the current timer. -/
theorem Sound.enqueue (h : t.Sound) {f : Timer τ → Timer τ} {e : Event τ}
    (hserial : e.serial = t.nextSerial)
    (hqueue : (f (t.timers t.current)).eventQueue = (t.timers t.current).eventQueue)
    (hts : (f (t.timers t.current)).tsQueue = (t.timers t.current).tsQueue)
    (hfifo : (f (t.timers t.current)).eventFifoId = (t.timers t.current).eventFifoId) :
    ((t.update t.current fun timer => (f timer).enqueue e).note e).Sound ∧
      ((t.update t.current fun timer => (f timer).enqueue e).note e).queue.Perm
        ({ e with fifoOrder := (t.timers t.current).eventFifoId } :: t.queue) := by
  let x : Event τ := { e with fifoOrder := (t.timers t.current).eventFifoId }
  have htimer : ((t.update t.current fun timer => (f timer).enqueue e).note e).timers t.current =
      (f (t.timers t.current)).enqueue e :=
    timers_update_self t t.current fun timer => (f timer).enqueue e
  have hperm : ((t.update t.current fun timer => (f timer).enqueue e).note e).queue.Perm
      (x :: t.queue) := by
    show (((t.update t.current _).note e).timers t.current).eventQueue.events.Perm _
    rw [htimer]
    show (insertEvent { e with fifoOrder := (f (t.timers t.current)).eventFifoId }
      (f (t.timers t.current)).eventQueue.events).Perm _
    rw [hfifo, hqueue]
    exact insertEvent_perm x _
  have hnew : t.nextSerial ∉ scheduledIn t.log := fun hmem => Nat.lt_irrefl _ (h.below _ hmem)
  refine ⟨⟨fun i => ?_, ?_, fun y hy => ?_, fun k hk => ?_, ?_, ?_, ?_⟩, hperm⟩
  · by_cases hi : i = t.current
    · subst hi
      rw [htimer]
      exact ⟨hts.trans (h.noneElsewhere t.current).1, fun hne => absurd rfl hne⟩
    · have hother := timers_update_of_ne t (fun timer => (f timer).enqueue e) hi
      exact hother ▸ h.noneElsewhere i
  · refine (hperm.map Event.fifoOrder).nodup_iff.mpr (List.nodup_cons.mpr ⟨fun hmem => ?_, h.fifo⟩)
    obtain ⟨y, hy, heq⟩ := List.mem_map.mp hmem
    have := h.fifoBelow y hy
    have : y.fifoOrder = (t.timers t.current).eventFifoId := heq
    omega
  · show y.fifoOrder < (((t.update t.current _).note e).timers t.current).eventFifoId
    rw [htimer]
    show y.fifoOrder < (f (t.timers t.current)).eventFifoId + 1
    rw [hfifo]
    rcases List.mem_cons.mp (hperm.mem_iff.mp hy) with rfl | hy
    · exact Nat.lt_succ_self _
    · exact Nat.lt_succ_of_lt (h.fifoBelow y hy)
  · rcases List.mem_cons.mp hk with rfl | hk
    · exact hserial ▸ Nat.lt_succ_self _
    · exact Nat.lt_succ_of_lt (h.below k hk)
  · show (e.serial :: scheduledIn t.log).Nodup
    exact List.nodup_cons.mpr ⟨hserial ▸ hnew, h.delivered.numbers⟩
  · show (e.serial :: scheduledIn t.log).Perm (_ ++ doneIn t.log)
    refine (h.delivered.kept.cons e.serial).trans ?_
    exact ((hperm.map Event.serial).append_right _).symm
  · intro y late ticks hy
    rcases List.mem_cons.mp hy with heq | hy
    · cases heq
    · exact h.delivered.inTime y late ticks hy

/-- A loop over all cores that only finds something at one. -/
theorem flatMap_eq_of_only {α : Type} {f : Fin n → List α} {i : Fin n} (hf : ∀ j ≠ i, f j = []) :
    (List.finRange n).flatMap f = f i := by
  have hlist : ∀ l : List (Fin n), l.Nodup → l.flatMap f = if i ∈ l then f i else [] := by
    intro l hl
    induction l with
    | nil => rfl
    | cons j l ih =>
      obtain ⟨hj, hl⟩ := List.nodup_cons.mp hl
      rw [List.flatMap_cons, ih hl]
      by_cases hji : j = i
      · subst hji
        rw [if_neg hj, if_pos List.mem_cons_self, List.append_nil]
      · rw [hf j hji, List.nil_append]
        have hiff : i ∈ j :: l ↔ i ∈ l := by
          rw [List.mem_cons]
          exact or_iff_right (Ne.symm hji)
        simp only [hiff]
  rw [hlist _ (List.nodup_finRange n), if_pos (List.mem_finRange i)]

/-- The timer before an event is put in its queue: an early advance is forced if need be. -/
def prepare (cycles : Int) (timer : Timer τ) : Timer τ :=
  if timer.isTimerSane then timer else timer.forceExceptionCheck cycles

theorem prepare_queue (cycles : Int) (timer : Timer τ) :
    (prepare cycles timer).eventQueue = timer.eventQueue ∧
      (prepare cycles timer).tsQueue = timer.tsQueue ∧
      (prepare cycles timer).eventFifoId = timer.eventFifoId ∧
      (prepare cycles timer).isTimerSane = timer.isTimerSane ∧
      (prepare cycles timer).executedTicks = timer.executedTicks := by
  simp only [prepare, Timer.forceExceptionCheck]
  split_ifs <;> exact ⟨rfl, rfl, rfl, rfl, rfl⟩

/-- What a plain call of `ScheduleEvent` does to the current timer. -/
theorem Sound.schedule (h : t.Sound) (cycles : Int) (type : τ) (userData : Nat) :
    let t' := t.scheduleEvent cycles type userData none false
    let e : Event τ := ⟨t.getTicks + cycles, 0, userData, type, t.nextSerial⟩
    t'.Sound ∧ t'.current = t.current ∧
      t'.timers t.current = (prepare cycles (t.timers t.current)).enqueue e ∧
      t'.queue.Perm ({ e with fifoOrder := (t.timers t.current).eventFifoId } :: t.queue) := by
  intro t' e
  obtain ⟨hqueue, hts, hfifo, -, -⟩ := prepare_queue cycles (t.timers t.current)
  obtain ⟨hsound, hperm⟩ := h.enqueue (f := prepare cycles) (e := e) rfl hqueue hts hfifo
  have heq : t' = (t.update t.current fun timer => (prepare cycles timer).enqueue e).note e :=
    t.scheduleEvent_plain cycles type userData
  rw [heq]
  exact ⟨hsound, rfl,
    timers_update_self t t.current fun timer => (prepare cycles timer).enqueue e, hperm⟩

/-! ## The clock -/

/-- Out of `Advance`, the slice ends before the first event. -/
structure Clock (t : Timing n τ) : Prop where
  downcount : (t.timers t.current).downcount ≤ (t.timers t.current).sliceLength
  slice : (t.timers t.current).isTimerSane = false → ∀ e ∈ t.queue,
    (t.timers t.current).executedTicks + (t.timers t.current).sliceLength ≤ e.time

/-- The loop of `Advance` of the current timer. -/
structure Looping (core : Fin n) (t : Timing n τ) : Prop where
  current : t.current = core
  sound : t.Sound
  sane : (t.timers core).isTimerSane = true
  sliceLength : (t.timers core).sliceLength = 0
  downcount : (t.timers core).downcount = 0

/-- Forcing an exception check takes the same number of cycles from the slice and the downcount. -/
theorem forceExceptionCheck_clock (timer : Timer τ) (cycles : Int) :
    (timer.forceExceptionCheck cycles).sliceLength - (timer.forceExceptionCheck cycles).downcount =
        timer.sliceLength - timer.downcount ∧
      (timer.forceExceptionCheck cycles).downcount ≤ timer.downcount ∧
      (timer.forceExceptionCheck cycles).downcount ≤ max 0 cycles ∧
      (timer.forceExceptionCheck cycles).isTimerSane = timer.isTimerSane ∧
      (timer.forceExceptionCheck cycles).executedTicks = timer.executedTicks := by
  unfold Timer.forceExceptionCheck
  simp only
  split_ifs with h
  · refine ⟨?_, ?_, Int.le_refl _, rfl, rfl⟩
    · show timer.sliceLength - (timer.downcount - max 0 cycles) - max 0 cycles = _
      omega
    · show max 0 cycles ≤ _
      omega
  · exact ⟨rfl, Int.le_refl _, Int.not_lt.mp h, rfl, rfl⟩

theorem prepare_clock (timer : Timer τ) (cycles : Int) :
    (prepare cycles timer).sliceLength - (prepare cycles timer).downcount =
        timer.sliceLength - timer.downcount ∧
      (prepare cycles timer).downcount ≤ timer.downcount ∧
      (timer.isTimerSane = false → (prepare cycles timer).downcount ≤ max 0 cycles) := by
  unfold prepare
  split_ifs with hsane
  · exact ⟨rfl, Int.le_refl _, fun h => absurd hsane (by simp [h])⟩
  · obtain ⟨hdiff, hle, hcycles, -⟩ := forceExceptionCheck_clock timer cycles
    exact ⟨hdiff, hle, fun _ => hcycles⟩

theorem Clock.schedule (h : t.Clock) (hsound : t.Sound) {cycles : Int} (hcycles : 1 ≤ cycles)
    (type : τ) (userData : Nat) : (t.scheduleEvent cycles type userData none false).Clock := by
  obtain ⟨-, hcur, htimer, hperm⟩ := hsound.schedule cycles type userData
  have hdown := h.downcount
  constructor
  · rw [hcur, htimer]
    show (prepare cycles (t.timers t.current)).downcount ≤
      (prepare cycles (t.timers t.current)).sliceLength
    obtain ⟨hdiff, -, -⟩ := prepare_clock (t.timers t.current) cycles
    omega
  · intro hsane e he
    rw [hcur, htimer] at hsane ⊢
    obtain ⟨-, -, -, hsane', hexec⟩ := prepare_queue cycles (t.timers t.current)
    have hsane : (t.timers t.current).isTimerSane = false := hsane'.symm.trans hsane
    have hslice := h.slice hsane
    have hticks : t.getTicks = (t.timers t.current).executedTicks +
        ((t.timers t.current).sliceLength - (t.timers t.current).downcount) := by
      unfold getTicks Timer.getTicks
      rw [if_neg (by simp [hsane])]
    show (prepare cycles (t.timers t.current)).executedTicks +
      (prepare cycles (t.timers t.current)).sliceLength ≤ e.time
    rw [hexec]
    obtain ⟨hdiff, hle, hforced⟩ := prepare_clock (t.timers t.current) cycles
    have hforced := hforced hsane
    rcases List.mem_cons.mp (hperm.mem_iff.mp he) with rfl | he
    · simp only
      omega
    · have := hslice e he
      omega

/-! ## All calls -/

variable [DecidableEq τ]

theorem Sound.removeMatching (h : t.Sound) (type : τ) (userData : Option Nat) :
    (t.removeMatching type userData).Sound ∧
      (t.removeMatching type userData).queue =
        t.queue.filter fun e => !matching type userData e := by
  have hdropped : t.dropped type userData = t.queue.filter (matching type userData) := by
    refine flatMap_eq_of_only fun j hj => ?_
    rw [(h.noneElsewhere j).2 hj]
    rfl
  have hsub : (t.queue.filter fun e => !matching type userData e).Sublist t.queue :=
    List.filter_sublist
  refine ⟨⟨fun i => ⟨(h.noneElsewhere i).1, fun hi => ?_⟩, ?_, fun e he => ?_, h.below,
    h.delivered.numbers, ?_, fun e late ticks he => ?_⟩, rfl⟩
  · show ((t.timers i).eventQueue.events.filter _) = []
    rw [(h.noneElsewhere i).2 hi]
    rfl
  · exact (hsub.map Event.fifoOrder).nodup h.fifo
  · exact h.fifoBelow e (hsub.subset he)
  · show (scheduledIn t.log).Perm
      ((t.queue.filter fun e => !matching type userData e).map Event.serial ++
        ((t.dropped type userData).map Event.serial ++ doneIn t.log))
    rw [hdropped, ← List.append_assoc, ← List.map_append]
    refine h.delivered.kept.trans (List.Perm.append_right _ (List.Perm.map _ ?_))
    exact ((List.filter_append_perm (matching type userData) t.queue).symm).trans
      List.perm_append_comm
  · rcases List.mem_cons.mp he with heq | he
    · cases heq
    · exact h.delivered.inTime e late ticks he

/-- What a plain call does to the queue and the clock of the current timer. -/
theorem Sound.perform (h : t.Sound) {c : Call n τ} (hc : c.Plain) :
    (t.perform c).Sound ∧ (t.perform c).current = t.current ∧
      ((t.perform c).timers t.current).isTimerSane = (t.timers t.current).isTimerSane ∧
      ((t.perform c).timers t.current).executedTicks = (t.timers t.current).executedTicks ∧
      ∀ e ∈ (t.perform c).queue, e ∈ t.queue ∨ t.getTicks < e.time := by
  cases c with
  | schedule cycles type userData core threadSafeMode =>
    obtain ⟨hcycles, rfl, rfl⟩ := hc
    obtain ⟨-, -, -, hsane, hexec⟩ := prepare_queue cycles (t.timers t.current)
    obtain ⟨hsound, hcur, htimer, hperm⟩ := h.schedule cycles type userData
    refine ⟨hsound, hcur, ?_, ?_, fun e he => ?_⟩
    · show ((t.scheduleEvent cycles type userData none false).timers t.current).isTimerSane = _
      rw [htimer]
      exact hsane
    · show ((t.scheduleEvent cycles type userData none false).timers t.current).executedTicks = _
      rw [htimer]
      exact hexec
    · rcases List.mem_cons.mp (hperm.mem_iff.mp he) with rfl | he
      · right
        simp only
        omega
      · exact .inl he
  | unschedule type userData =>
    obtain ⟨hsound, hqueue⟩ := h.removeMatching type (some userData)
    exact ⟨hsound, rfl, rfl, rfl, fun e he => .inl (List.mem_of_mem_filter (hqueue ▸ he))⟩
  | remove type =>
    obtain ⟨hsound, hqueue⟩ := h.removeMatching type none
    exact ⟨hsound, rfl, rfl, rfl, fun e he => .inl (List.mem_of_mem_filter (hqueue ▸ he))⟩

theorem Clock.perform (h : t.Clock) (hsound : t.Sound) {c : Call n τ} (hc : c.Plain) :
    (t.perform c).Clock := by
  cases c with
  | schedule cycles type userData core threadSafeMode =>
    obtain ⟨hcycles, rfl, rfl⟩ := hc
    exact h.schedule hsound hcycles type userData
  | unschedule type userData =>
    obtain ⟨-, hqueue⟩ := hsound.removeMatching type (some userData)
    exact ⟨h.downcount, fun hsane e he =>
      h.slice hsane e (List.mem_of_mem_filter (hqueue ▸ he))⟩
  | remove type =>
    obtain ⟨-, hqueue⟩ := hsound.removeMatching type none
    exact ⟨h.downcount, fun hsane e he =>
      h.slice hsane e (List.mem_of_mem_filter (hqueue ▸ he))⟩

theorem Looping.perform {core : Fin n} (h : Looping core t) {c : Call n τ} (hc : c.Plain) :
    Looping core (t.perform c) := by
  obtain ⟨rfl, hsound, hsane, hslice, hdown⟩ := h
  obtain ⟨hsound', hcur, hsane', -, -⟩ := hsound.perform hc
  have hclock : ((t.perform c).timers t.current).sliceLength = 0 ∧
      ((t.perform c).timers t.current).downcount = 0 := by
    cases c with
    | schedule cycles type userData core threadSafeMode =>
      obtain ⟨-, rfl, rfl⟩ := hc
      obtain ⟨-, -, htimer, -⟩ := hsound.schedule cycles type userData
      show ((t.scheduleEvent cycles type userData none false).timers t.current).sliceLength = 0 ∧
        ((t.scheduleEvent cycles type userData none false).timers t.current).downcount = 0
      rw [htimer]
      show (prepare cycles (t.timers t.current)).sliceLength = 0 ∧
        (prepare cycles (t.timers t.current)).downcount = 0
      unfold prepare
      rw [if_pos hsane]
      exact ⟨hslice, hdown⟩
    | unschedule type userData => exact ⟨hslice, hdown⟩
    | remove type => exact ⟨hslice, hdown⟩
  exact ⟨hcur, hsound', hsane'.trans hsane, hclock.1, hclock.2⟩

end Timing

end GbaStation.Core
