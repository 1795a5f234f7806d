import GbaStation.Core.CoreTiming

/-!
# Cancelled events

`UnscheduleEvent` removes events from the queues of all timers, and leaves those that another core
or another thread has put in a `ts_queue`, so a cancelled event can still fire.

- `unscheduleEvent_effective`: this is so exactly if no `ts_queue` holds such an event.
-/

namespace GbaStation.Core

variable {τ σ : Type} {n : Nat}

namespace Timing

/-! ## What a run adds to the queues -/

/-- Scheduling adds one event to one timer. -/
theorem scheduleEvent_cases (t : Timing n τ) (cycles : Int) (type : τ) (userData : Nat)
    (core : Option (Fin n)) (threadSafeMode : Bool) :
    ∃ i f e, t.scheduleEvent cycles type userData core threadSafeMode = (t.update i f).note e ∧
      ∀ x, (f (t.timers i)).Holds x → (t.timers i).Holds x ∨ x.serial = t.nextSerial := by
  have hts : ∀ (timer : Timer τ) (e : Event τ), e.serial = t.nextSerial →
      ∀ x, Timer.Holds { timer with tsQueue := timer.tsQueue ++ [e] } x →
        timer.Holds x ∨ x.serial = t.nextSerial := by
    rintro timer e he x (hx | hx)
    · exact .inl (.inl hx)
    · rcases List.mem_append.mp hx with hx | hx
      · exact .inl (.inr hx)
      · obtain rfl := List.mem_singleton.mp hx
        exact .inr he
  unfold scheduleEvent
  by_cases hmode : threadSafeMode = true
  · simp only [hmode, if_true]
    exact ⟨_, _, _, rfl, hts _ _ rfl⟩
  simp only [hmode, Bool.false_eq_true, if_false]
  by_cases hcur : t.current = core.getD t.current
  · rw [if_pos hcur]
    refine ⟨_, _, _, rfl, fun x hx => ?_⟩
    have hqueues := (t.timers (core.getD t.current)).forceExceptionCheck_queues cycles
    rcases hx with hx | hx
    · rcases Timer.mem_enqueue.mp hx with rfl | hx
      · exact .inr rfl
      · refine .inl (.inl ?_)
        split_ifs at hx
        · exact hx
        · rwa [hqueues.1] at hx
    · refine .inl (.inr ?_)
      unfold Timer.enqueue at hx
      split_ifs at hx
      · exact hx
      · rwa [hqueues.2] at hx
  · rw [if_neg hcur]
    exact ⟨_, _, _, rfl, hts _ _ rfl⟩

/-- A property of events, which may depend on the number of the next event, that does not look at
the place in a queue, stays true, and holds of every event that is scheduled after `limit`. -/
structure Stable (p : Nat → Event τ → Prop) (limit : Nat) : Prop where
  same : ∀ {k} {a b : Event τ}, a.Same b → p k b → p k a
  mono : ∀ {k l} {e : Event τ}, k ≤ l → p k e → p l e
  scheduled : ∀ {e : Event τ}, limit ≤ e.serial → p (e.serial + 1) e

/-- Every event that is queued, and every event that was fired since `base`, has `p`. -/
structure Free (p : Nat → Event τ → Prop) (limit : Nat) (base : List (Entry τ)) (t : Timing n τ) :
    Prop where
  serial : limit ≤ t.nextSerial
  queued : ∀ core e, (t.timers core).Holds e → p t.nextSerial e
  fired : ∃ new, t.log = new ++ base ∧ ∀ e late ticks, .fired e late ticks ∈ new → p t.nextSerial e

variable {p : Nat → Event τ → Prop} {limit : Nat} {base : List (Entry τ)} {t : Timing n τ}

/-- A change of one timer that queues nothing new. -/
theorem Free.update (h : Free p limit base t) {core : Fin n} {f : Timer τ → Timer τ}
    (hf : ∀ x, (f (t.timers core)).Holds x → p t.nextSerial x) :
    Free p limit base (t.update core f) where
  serial := h.serial
  queued i e he := by
    by_cases hi : i = core
    · subst hi
      rw [timers_update_self] at he
      exact hf e he
    · rw [timers_update_of_ne t f hi] at he
      exact h.queued i e he
  fired := h.fired

/-- An entry that is not about firing. -/
theorem Free.log (h : Free p limit base t) (hp : Stable p limit) (entry : Entry τ)
    (hentry : ∀ e late ticks, entry ≠ .fired e late ticks) {t' : Timing n τ}
    (hserial : t.nextSerial ≤ t'.nextSerial)
    (hqueued : ∀ core e, (t'.timers core).Holds e → p t'.nextSerial e)
    (hlog : t'.log = entry :: t.log) : Free p limit base t' where
  serial := Nat.le_trans h.serial hserial
  queued := hqueued
  fired := by
    obtain ⟨new, hnew, hfired⟩ := h.fired
    refine ⟨entry :: new, by rw [hlog, hnew]; rfl, fun e late ticks he => ?_⟩
    rcases List.mem_cons.mp he with heq | he
    · exact absurd heq.symm (hentry e late ticks)
    · exact hp.mono hserial (hfired e late ticks he)

theorem Free.beginAdvance (h : Free p limit base t) (hp : Stable p limit) (core : Fin n) :
    Free p limit base (t.update core Timer.beginAdvance) := by
  refine h.update fun x hx => ?_
  obtain ⟨e, he, hxe⟩ := Timer.holds_beginAdvance hx
  exact hp.same hxe (h.queued core e he)

theorem Free.take (h : Free p limit base t) {core : Fin n} {e : Event τ} {rest : List (Event τ)}
    (hevents : (t.timers core).eventQueue.events = e :: rest) :
    Free p limit base (t.take core e) := by
  have he : p t.nextSerial e := h.queued core e (.inl (hevents ▸ List.mem_cons_self))
  have hpop : Free p limit base
      (t.update core fun timer => { timer with eventQueue := timer.eventQueue.pop }) := by
    refine h.update fun x hx => h.queued core x ?_
    exact hx.imp EventQueue.mem_of_mem_pop id
  refine ⟨hpop.serial, hpop.queued, ?_⟩
  obtain ⟨new, hnew, hfired⟩ := h.fired
  refine ⟨_ :: new, congrArg (_ :: ·) hnew, fun e' late ticks hmem => ?_⟩
  rcases List.mem_cons.mp hmem with heq | hmem
  · cases heq
    exact he
  · exact hfired e' late ticks hmem

variable [DecidableEq τ]

theorem Free.perform (h : Free p limit base t) (hp : Stable p limit) (c : Call n τ) :
    Free p limit base (t.perform c) := by
  have hremove : ∀ type userData, Free p limit base (t.removeMatching type userData) := by
    intro type userData
    refine h.log hp (.removed type userData (t.dropped type userData)) (by simp)
      (Nat.le_refl _) (fun core e he => h.queued core e ?_) rfl
    rcases he with he | he
    · exact .inl (EventQueue.mem_removeIf.mp he).1
    · exact .inr he
  cases c with
  | schedule cycles type userData core threadSafeMode =>
    obtain ⟨i, f, e, heq, hholds⟩ := t.scheduleEvent_cases cycles type userData core threadSafeMode
    show Free p limit base (t.scheduleEvent cycles type userData core threadSafeMode)
    rw [heq]
    refine h.log hp (.scheduled e) (by simp) (Nat.le_succ _) (fun j x hx => ?_) rfl
    by_cases hj : j = i
    · subst hj
      rcases hholds x ((timers_update_self t j f) ▸ hx) with hx | hx
      · exact hp.mono (Nat.le_succ _) (h.queued j x hx)
      · have hnew : p (x.serial + 1) x := hp.scheduled (hx.symm ▸ h.serial)
        rwa [hx] at hnew
    · exact hp.mono (Nat.le_succ _) (h.queued j x ((timers_update_of_ne t f hj) ▸ hx))
  | unschedule type userData => exact hremove type (some userData)
  | remove type => exact hremove type none

theorem free_invariant (callback : Callback n τ σ) (hp : Stable p limit) :
    Invariant callback (Free p limit base) (fun _ => Free p limit base) (fun _ => True)
      (fun _ _ => True) where
  start h _ := h.beginAdvance hp _
  take h hevents _ := h.take hevents
  call h _ := h.perform hp _
  stop h _ := h.update fun x hx => h.queued _ x hx
  other {t s s' t' step} h _ hne hrun := by
    cases step with
    | call c =>
      cases hrun
      exact h.perform hp c
    | addTicks cycles =>
      cases hrun
      exact h.update fun x hx => h.queued _ x hx
    | forceExceptionCheck core cycles =>
      cases hrun
      refine h.update fun x hx => h.queued core x ?_
      obtain ⟨hevents, hts⟩ := (t.timers core).forceExceptionCheck_queues cycles
      unfold Timer.Holds at hx
      rwa [hevents, hts] at hx
    | advance core turns => exact absurd rfl (hne core turns)
    | setNextSlice core length =>
      cases hrun
      exact h.update fun x hx => h.queued core x hx
    | idle core =>
      cases hrun
      exact h.update fun x hx => h.queued core x hx
    | setCurrentTimer core =>
      cases hrun
      exact ⟨h.serial, h.queued, h.fired⟩

/-- Along every run from a state with `Free`. -/
theorem Free.run {callback : Callback n τ σ} {steps : List (Step n τ)} {s s' : σ}
    {t' : Timing n τ} (h : Free p limit base t) (hp : Stable p limit)
    (hrun : runSteps callback steps s t = some (s', t')) : Free p limit base t' :=
  (free_invariant callback hp).run (fun _ _ _ _ _ _ _ => trivial) h (eachStep_true ..) hrun

/-! ## Callbacks that do nothing -/

/-- A callback that makes no calls. -/
def quiet : Callback n τ Unit := fun _ _ _ s _ => (s, [])

/-- With such callbacks the loop of `Advance` ends and fires every event that is due. -/
theorem drain_quiet {core : Fin n} {turns : Nat} {t : Timing n τ}
    (hturns : (t.timers core).eventQueue.events.length < turns) :
    ∃ t' new, drain quiet core turns () t = some ((), t') ∧ t'.log = new ++ t.log ∧
      ∀ x ∈ (t.timers core).eventQueue.events, x.time ≤ (t.timers core).executedTicks →
        ∃ late ticks, .fired x late ticks ∈ new := by
  induction turns generalizing t with
  | zero => cases hturns
  | succ turns ih =>
    rw [drain]
    cases hevents : (t.timers core).eventQueue.events with
    | nil => exact ⟨t, [], rfl, rfl, List.forall_mem_nil _⟩
    | cons e rest =>
      simp only
      rw [hevents] at hturns
      by_cases hdue : e.time ≤ (t.timers core).executedTicks
      · rw [if_pos hdue]
        have hself : ((t.take core e).timers core).eventQueue.events = rest := by
          rw [timers_take_self]
          show (t.timers core).eventQueue.events.tail = rest
          rw [hevents]
          rfl
        have hexec : ((t.take core e).timers core).executedTicks =
            (t.timers core).executedTicks := by
          rw [timers_take_self]
        obtain ⟨t', new, hdrain, hlog, hfired⟩ := ih (t := t.take core e) (by
          rw [hself]
          exact Nat.lt_of_succ_lt_succ hturns)
        refine ⟨t', new ++ [.fired e (t.lateness core e) (t.timers core).executedTicks], hdrain, ?_,
          fun x hx hxdue => ?_⟩
        · rw [hlog, List.append_assoc]
          rfl
        · rcases List.mem_cons.mp hx with rfl | hx
          · exact ⟨_, _, List.mem_append_right _ (List.mem_singleton_self _)⟩
          · obtain ⟨late, ticks, hmem⟩ := hfired x (hself ▸ hx) (hexec ▸ hxdue)
            exact ⟨late, ticks, List.mem_append_left _ hmem⟩
      · rw [if_neg hdue]
        refine ⟨t, [], rfl, rfl, fun x hx hxdue => absurd ?_ hdue⟩
        have := EventQueue.front_le hevents (hevents ▸ hx)
        omega

/-- An event on its way to a queue fires once the timer has gone past its time. -/
theorem fires_of_pending {core : Fin n} {t : Timing n τ} {e : Event τ}
    (he : e ∈ (t.timers core).tsQueue) :
    ∃ steps t' new x late ticks, runSteps quiet steps () t = some ((), t') ∧
      t'.log = new ++ t.log ∧ x.Same e ∧ Entry.fired x late ticks ∈ new := by
  -- Enough cycles for the event to be due.
  let timer := t.timers core
  let cycles := (e.time - (timer.executedTicks + (timer.sliceLength - timer.downcount))).toNat
  let t₁ := (t.setCurrentTimer core).update core (Timer.addTicks cycles)
  let t₂ := t₁.update core Timer.beginAdvance
  have htimer : t₂.timers core = (timer.addTicks cycles).beginAdvance := by
    show (t₁.update core Timer.beginAdvance).timers core = _
    rw [timers_update_self]
    show Timer.beginAdvance (((t.setCurrentTimer core).update core _).timers core) = _
    rw [timers_update_self]
    rfl
  have hpending : e ∈ (timer.addTicks cycles).tsQueue := he
  obtain ⟨x, hx, hsame⟩ := (Timer.mem_foldl_enqueue
    (t := { timer.addTicks cycles with tsQueue := [] })).2.2 e hpending
  have hqueued : x ∈ (t₂.timers core).eventQueue.events := by
    rw [htimer]
    exact hx
  have hdue : x.time ≤ (t₂.timers core).executedTicks := by
    rw [htimer, Timer.executedTicks_beginAdvance, hsame.1]
    show e.time ≤ timer.executedTicks + (timer.sliceLength - (timer.downcount - (cycles : Int)))
    omega
  let turns := (t₂.timers core).eventQueue.events.length + 1
  obtain ⟨t', new, hdrain, hlog, hfired⟩ := drain_quiet (t := t₂) (Nat.lt_succ_self _)
  obtain ⟨late, ticks, hmem⟩ := hfired x hqueued hdue
  refine ⟨[.setCurrentTimer core, .addTicks cycles, .advance core turns],
    t'.update core fun timer => { timer with isTimerSane := false }, new, x, late, ticks, ?_, hlog,
    hsame, hmem⟩
  have hadvance : t₁.advance quiet core turns () = some ((), t'.update core fun timer =>
      { timer with isTimerSane := false }) := by
    unfold advance
    rw [hdrain]
    rfl
  exact (runSteps_cons rfl).trans ((runSteps_cons rfl).trans (runSteps_cons hadvance))

/-! ## Effective cancellation -/

/-- An event that was scheduled before the present and has the type and the user data. -/
def Earlier (t : Timing n τ) (type : τ) (userData : Nat) (e : Event τ) : Prop :=
  e.type = type ∧ e.userData = userData ∧ e.serial < t.nextSerial

/-- Whatever the callbacks do and whichever calls follow the call of `UnscheduleEvent`, no event
that was scheduled before it and has the type and the user data is fired. -/
def Effective (t : Timing n τ) (type : τ) (userData : Nat) : Prop :=
  ∀ (σ : Type) (callback : Callback n τ σ) (steps : List (Step n τ)) (s s' : σ) (t' : Timing n τ),
    runSteps callback steps s (t.unscheduleEvent type userData) = some (s', t') →
    ∀ new, t'.log = new ++ (t.unscheduleEvent type userData).log →
      ∀ e late ticks, .fired e late ticks ∈ new → ¬t.Earlier type userData e

/-- No timer has such an event in its `ts_queue`. -/
def NonePending (t : Timing n τ) (type : τ) (userData : Nat) : Prop :=
  ∀ core, ∀ e ∈ (t.timers core).tsQueue, ¬(e.type = type ∧ e.userData = userData)

/-- A state that a run from the start of a system reaches. -/
def Reachable (t : Timing n τ) : Prop :=
  ∃ (σ : Type) (callback : Callback n τ σ) (steps : List (Step n τ)) (s s' : σ) (current : Fin n)
    (baseTicks : Int), runSteps callback steps s (initial current baseTicks) = some (s', t)

theorem Effective.of_nonePending {t : Timing n τ} {type : τ} {userData : Nat}
    (h : t.NonePending type userData) : t.Effective type userData := by
  intro σ callback steps s s' t' hrun new hlog
  let t₀ := t.unscheduleEvent type userData
  have hfree : Free (fun _ e => ¬t.Earlier type userData e) t.nextSerial t₀.log t₀ := by
    refine ⟨Nat.le_refl _, fun core e he hearlier => ?_, [], rfl, by simp⟩
    obtain ⟨htype, hdata, -⟩ := hearlier
    rcases he with he | he
    · have hkept := (EventQueue.mem_removeIf.mp he).2
      simp [matching, htype, hdata] at hkept
    · exact h core e he ⟨htype, hdata⟩
  have hstable : Stable (fun _ e => ¬t.Earlier type userData e) t.nextSerial :=
    ⟨fun hab hb ha => hb ⟨hab.2.2.1 ▸ ha.1, hab.2.1 ▸ ha.2.1, hab.2.2.2 ▸ ha.2.2⟩,
      fun _ h => h, fun he hearlier => Nat.not_lt.mpr he hearlier.2.2⟩
  obtain ⟨new', hnew, hfired⟩ := (hfree.run hstable hrun).fired
  obtain rfl := List.append_cancel_right (hlog.symm.trans hnew)
  exact hfired

/-- The events of a state that is reached were scheduled before the present. -/
theorem Reachable.serial_lt {t : Timing n τ} (h : t.Reachable) {core : Fin n} {e : Event τ}
    (he : e ∈ (t.timers core).tsQueue) : e.serial < t.nextSerial := by
  obtain ⟨σ, callback, steps, s, s', current, baseTicks, hrun⟩ := h
  have hstart : Free (fun k e => e.serial < k) 0 [] (initial (τ := τ) current baseTicks) := by
    refine ⟨Nat.zero_le _, ?_, [], rfl, by simp⟩
    rintro i x (hx | hx) <;> cases hx
  have hstable : Stable (fun k (e : Event τ) => e.serial < k) 0 :=
    ⟨fun hab hb => hab.2.2.2 ▸ hb, fun hle h => Nat.lt_of_lt_of_le h hle,
      fun _ => Nat.lt_succ_self _⟩
  exact (hstart.run hstable hrun).queued core e (.inr he)

/-- `UnscheduleEvent` is effective exactly if no `ts_queue` holds an event that it is about. -/
theorem unscheduleEvent_effective {t : Timing n τ} (h : t.Reachable) (type : τ) (userData : Nat) :
    t.Effective type userData ↔ t.NonePending type userData := by
  constructor
  · rintro heffective core e he ⟨rfl, rfl⟩
    have hpending : e ∈ ((t.unscheduleEvent e.type e.userData).timers core).tsQueue := he
    obtain ⟨steps, t', new, x, late, ticks, hrun, hlog, hsame, hmem⟩ := fires_of_pending hpending
    refine heffective Unit quiet steps () () t' hrun new hlog x late ticks hmem ?_
    exact ⟨hsame.2.2.1, hsame.2.1, hsame.2.2.2 ▸ h.serial_lt he⟩
  · exact Effective.of_nonePending

/-- An event of type 7 on the current timer, and one of type 8 for the second core. -/
def twoCores : Timing 2 Nat :=
  ((initial 0 0).scheduleEvent 100 7 0 none false).scheduleEvent 100 8 0 (some 1) false

/-- The first event is cancelled for good, the second one still fires. -/
theorem unscheduleEvent_effective_twoCores : (twoCores.timers 0).eventQueue.events ≠ [] ∧
    twoCores.Effective 7 0 ∧ ¬twoCores.Effective 8 0 := by
  have hreach : twoCores.Reachable := ⟨Unit, quiet, [.call (.schedule 100 7 0 none false),
    .call (.schedule 100 8 0 (some 1) false)], (), (), 0, 0, rfl⟩
  refine ⟨by decide, (unscheduleEvent_effective hreach 7 0).mpr ?_, fun heffective => ?_⟩
  · unfold NonePending
    decide
  · have hnone := (unscheduleEvent_effective hreach 8 0).mp heffective
    unfold NonePending at hnone
    revert hnone
    decide

/-- An event for the second core, cancelled from the first one before the second core advances. -/
def crossCore : Timing 2 Nat := (initial 0 0).scheduleEvent 100 7 0 (some 1) false

theorem crossCore_fires : ¬crossCore.Effective 7 0 := by
  intro heffective
  let steps : List (Step 2 Nat) := [.setCurrentTimer 1, .addTicks 200, .advance 1 3]
  have hrun : ((runSteps quiet steps () (crossCore.unscheduleEvent 7 0)).map fun r => r.2.log) =
      some ([.fired ⟨100, 0, 0, 7, 0⟩ 100 200] ++ (crossCore.unscheduleEvent 7 0).log) := by
    decide +kernel
  obtain ⟨⟨s, t'⟩, ht', hlog⟩ := Option.map_eq_some_iff.mp hrun
  exact heffective Unit quiet steps () s t' ht' _ hlog _ _ _ (List.mem_singleton_self _)
    ⟨rfl, rfl, Nat.zero_lt_one⟩

end Timing

end GbaStation.Core
