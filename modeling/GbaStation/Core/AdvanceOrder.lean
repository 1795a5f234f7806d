import Mathlib.Data.List.Perm.Subperm
import GbaStation.Core.EventDelivery

/-!
# What `Advance` fires

The loop of `Advance` on a queue that callbacks change.

- `delivery`: what holds in every state that a run reaches, and what the next step does there.
-/

namespace GbaStation.Core

namespace Timing

variable {τ σ : Type} {n : Nat}

/-- The events that were fired, with the last one first. -/
def firedIn (log : List (Entry τ)) : List (Event τ) :=
  log.filterMap fun
    | .fired e _ _ => some e
    | _ => none

/-- A call has removed the event. -/
def RemovedIn (log : List (Entry τ)) (e : Event τ) : Prop :=
  ∃ type userData dropped, .removed type userData dropped ∈ log ∧ e ∈ dropped

/-- A call of `Advance` that has logged `new` has fired the events of the queue that are due at
`ticks`, in their order, and left the others. -/
structure Advanced (t t' : Timing n τ) (ticks : Int) (new : List (Entry τ)) : Prop where
  log : t'.log = new ++ t.log
  executed : (t'.timers t.current).executedTicks = ticks
  fired : ∀ e late at', .fired e late at' ∈ new →
    e ∈ t.queue ∧ e.time ≤ ticks ∧ at' = ticks ∧ late = toInt (ticks - e.time)
  order : (firedIn new).Pairwise fun a b => b.before a
  complete : ∀ e ∈ t.queue, e.time ≤ ticks → e ∈ firedIn new ∨ RemovedIn new e
  kept : ∀ e ∈ t.queue, ticks < e.time → e ∈ t'.queue ∨ RemovedIn new e
  noneDue : ∀ e ∈ t'.queue, ticks < e.time

/-- The loop of `Advance` at one of its turns, where it started at `ticks` with the events `queue`
and has logged `new` since. -/
structure Progress (ticks : Int) (queue : List (Event τ)) (t : Timing n τ)
    (new : List (Entry τ)) : Prop where
  looping : Looping t.current t
  executed : (t.timers t.current).executedTicks = ticks
  fired : ∀ e late at', .fired e late at' ∈ new →
    e ∈ queue ∧ e.time ≤ ticks ∧ at' = ticks ∧ late = toInt (ticks - e.time)
  order : (firedIn new).Pairwise fun a b => b.before a
  first : ∀ e ∈ firedIn new, ∀ x ∈ t.queue, e.before x
  kept : ∀ e ∈ queue, e ∈ t.queue ∨ e ∈ firedIn new ∨ RemovedIn new e
  fresh : ∀ e ∈ t.queue, e ∈ queue ∨ ticks < e.time

theorem mem_firedIn {log : List (Entry τ)} {e : Event τ} :
    e ∈ firedIn log ↔ ∃ late ticks, .fired e late ticks ∈ log := by
  constructor
  · intro he
    obtain ⟨entry, hmem, heq⟩ := List.mem_filterMap.mp he
    cases entry with
    | fired e' late ticks =>
      cases heq
      exact ⟨late, ticks, hmem⟩
    | scheduled e' => cases heq
    | removed type userData dropped => cases heq
  · rintro ⟨late, ticks, hmem⟩
    exact List.mem_filterMap.mpr ⟨_, hmem, rfl⟩

theorem RemovedIn.cons {log : List (Entry τ)} {e : Event τ} (entry : Entry τ)
    (h : RemovedIn log e) : RemovedIn (entry :: log) e := by
  obtain ⟨type, userData, dropped, hmem, he⟩ := h
  exact ⟨type, userData, dropped, List.mem_cons_of_mem entry hmem, he⟩

variable {t : Timing n τ} {ticks : Int} {queue : List (Event τ)} {new : List (Entry τ)}

/-- The front event is before the rest of the queue. -/
theorem Sound.before_of_front (h : t.Sound) {e x : Event τ} {rest : List (Event τ)}
    (hqueue : t.queue = e :: rest) (hx : x ∈ rest) : e.before x := by
  have hordered : Ordered t.queue := (t.timers t.current).eventQueue.ordered
  have hfifo := h.fifo
  rw [hqueue] at hordered hfifo
  have hle := (List.pairwise_cons.mp hordered).1 x hx
  have hne : x.fifoOrder ≠ e.fifoOrder := fun heq =>
    (List.nodup_cons.mp hfifo).1 (heq ▸ List.mem_map_of_mem hx)
  unfold Event.before at hle ⊢
  omega

/-- Nothing was done at the start. -/
theorem Progress.refl (h : Looping t.current t) :
    Progress (t.timers t.current).executedTicks t.queue t [] where
  looping := h
  executed := rfl
  fired := by simp
  order := List.Pairwise.nil
  first := List.forall_mem_nil _
  kept := fun _ he => .inl he
  fresh := fun _ he => .inl he

theorem Progress.take (h : Progress ticks queue t new) {e : Event τ} {rest : List (Event τ)}
    (hqueue : t.queue = e :: rest) (hdue : e.time ≤ ticks) :
    Progress ticks queue (t.take t.current e)
      (.fired e (t.lateness t.current e) (t.timers t.current).executedTicks :: new) := by
  obtain ⟨-, hsound, hsane, hslice, hdown⟩ := h.looping
  have htimer := timers_take_self t t.current e
  obtain ⟨hsound', hqueue'⟩ := hsound.take hqueue (h.executed ▸ hdue)
  have hfront : e ∈ queue := by
    rcases h.fresh e (hqueue ▸ List.mem_cons_self) with hmem | hlate
    · exact hmem
    · omega
  refine ⟨⟨rfl, hsound', ?_, ?_, ?_⟩, ?_, fun x late at' hx => ?_, ?_, fun x hx y hy => ?_,
    fun x hx => ?_, fun x hx => ?_⟩
  · exact htimer ▸ hsane
  · exact htimer ▸ hslice
  · exact htimer ▸ hdown
  · exact htimer ▸ h.executed
  · rcases List.mem_cons.mp hx with heq | hx
    · cases heq
      refine ⟨hfront, hdue, h.executed, ?_⟩
      rw [lateness, h.executed]
    · exact h.fired x late at' hx
  · refine List.pairwise_cons.mpr ⟨fun b hb => ?_, h.order⟩
    exact h.first b hb e (hqueue ▸ List.mem_cons_self)
  · rw [hqueue'] at hy
    rcases List.mem_cons.mp hx with rfl | hx
    · exact hsound.before_of_front hqueue hy
    · exact h.first x hx y (hqueue ▸ List.mem_cons_of_mem e hy)
  · rw [hqueue']
    rcases h.kept x hx with hkept | hfired | hremoved
    · rw [hqueue] at hkept
      rcases List.mem_cons.mp hkept with rfl | hkept
      · exact .inr (.inl List.mem_cons_self)
      · exact .inl hkept
    · exact .inr (.inl (List.mem_cons_of_mem e hfired))
    · exact .inr (.inr (hremoved.cons _))
  · rw [hqueue'] at hx
    exact h.fresh x (hqueue ▸ List.mem_cons_of_mem e hx)

/-- The start of `Advance` of the current timer. -/
theorem Looping.beginAdvance (h : t.Sound) :
    Looping t.current (t.update t.current Timer.beginAdvance) := by
  have htimer := timers_update_self t t.current Timer.beginAdvance
  exact ⟨rfl, h.beginAdvance.1, htimer ▸ rfl, htimer ▸ rfl, htimer ▸ rfl⟩

/-- The cycles that `Advance` adds to the ticks. -/
theorem executedTicks_beginAdvance (t : Timing n τ) :
    ((t.update t.current Timer.beginAdvance).timers t.current).executedTicks =
      (t.timers t.current).executedTicks +
        ((t.timers t.current).sliceLength - (t.timers t.current).downcount) := by
  rw [timers_update_self, Timer.executedTicks_beginAdvance]

theorem toInt_le {x : Int} (h : 0 ≤ x) : toInt x ≤ x := by
  unfold toInt Int.bmod
  simp only
  split_ifs <;> omega

variable [DecidableEq τ]

/-- What a plain call logs, and that an event leaves the queue only when it is removed. -/
theorem Sound.perform_log (h : t.Sound) {c : Call n τ} (hc : c.Plain) :
    ∃ entry, (t.perform c).log = entry :: t.log ∧ firedIn [entry] = [] ∧
      ∀ e ∈ t.queue, e ∈ (t.perform c).queue ∨ RemovedIn [entry] e := by
  have hcancel : ∀ type userData, ∀ e ∈ t.queue,
      e ∈ (t.removeMatching type userData).queue ∨
        RemovedIn [.removed type userData (t.dropped type userData)] e := by
    intro type userData e he
    by_cases hmatch : matching type userData e
    · refine .inr ⟨type, userData, _, List.mem_singleton_self _, ?_⟩
      exact List.mem_flatMap.mpr ⟨t.current, List.mem_finRange _, List.mem_filter.mpr ⟨he, hmatch⟩⟩
    · rw [(h.removeMatching type userData).2]
      exact .inl (List.mem_filter.mpr ⟨he, by simpa using hmatch⟩)
  cases c with
  | schedule cycles type userData core threadSafeMode =>
    obtain ⟨-, rfl, rfl⟩ := hc
    obtain ⟨-, -, -, hperm⟩ := h.schedule cycles type userData
    refine ⟨.scheduled ⟨t.getTicks + cycles, 0, userData, type, t.nextSerial⟩, ?_, rfl,
      fun e he => .inl (hperm.mem_iff.mpr (List.mem_cons_of_mem _ he))⟩
    show (t.scheduleEvent cycles type userData none false).log = _
    rw [t.scheduleEvent_plain cycles type userData]
    rfl
  | unschedule type userData => exact ⟨_, rfl, rfl, hcancel type (some userData)⟩
  | remove type => exact ⟨_, rfl, rfl, hcancel type none⟩

/-! ## Turns of the loop -/

/-- What a callback schedules is not due, and comes after all that was fired. -/
theorem Progress.perform (h : Progress ticks queue t new) {c : Call n τ} (hc : c.Plain) :
    ∃ entry, (t.perform c).log = entry :: t.log ∧ firedIn [entry] = [] ∧
      (t.perform c).current = t.current ∧ Progress ticks queue (t.perform c) (entry :: new) := by
  have hlooping := h.looping
  obtain ⟨-, hsound, hsane, -, -⟩ := h.looping
  obtain ⟨-, hcur, -, hexec, hnew⟩ := hsound.perform hc
  obtain ⟨entry, hlog, hentry, hkept⟩ := hsound.perform_log hc
  have hgetTicks : t.getTicks = ticks := by
    unfold getTicks Timer.getTicks
    rw [if_pos hsane, h.executed]
  have hfired : firedIn (entry :: new) = firedIn new := by
    show firedIn ([entry] ++ new) = firedIn new
    unfold firedIn at hentry ⊢
    rw [List.filterMap_append, hentry, List.nil_append]
  refine ⟨entry, hlog, hentry, hcur, hcur ▸ hlooping.perform hc, ?_, fun x late at' hx => ?_, ?_,
    fun x hx y hy => ?_, fun x hx => ?_, fun x hx => ?_⟩
  · rw [hcur, hexec, h.executed]
  · rcases List.mem_cons.mp hx with rfl | hx
    · cases hentry
    · exact h.fired x late at' hx
  · exact hfired ▸ h.order
  · rw [hfired] at hx
    rcases hnew y hy with hy | hlate
    · exact h.first x hx y hy
    · obtain ⟨late, at', hmem⟩ := mem_firedIn.mp hx
      have := (h.fired x late at' hmem).2.1
      exact .inl (by omega)
  · rw [hfired]
    rcases h.kept x hx with hqueued | hfired | hremoved
    · rcases hkept x hqueued with hqueued | ⟨type, userData, dropped, hmem, hx⟩
      · exact .inl hqueued
      · refine .inr (.inr ⟨type, userData, dropped, ?_, hx⟩)
        exact List.mem_append_left new hmem
    · exact .inr (.inl hfired)
    · exact .inr (.inr (hremoved.cons entry))
  · rcases hnew x hx with hx | hlate
    · exact h.fresh x hx
    · exact .inr (hgetTicks ▸ hlate)

theorem Progress.calls (calls : List (Call n τ)) (hcalls : ∀ c ∈ calls, c.Plain)
    (h : Progress ticks queue t new) :
    ∃ more, (calls.foldl Timing.perform t).log = more ++ t.log ∧ firedIn more = [] ∧
      (calls.foldl Timing.perform t).current = t.current ∧
      Progress ticks queue (calls.foldl Timing.perform t) (more ++ new) := by
  induction calls generalizing t new with
  | nil => exact ⟨[], rfl, rfl, rfl, h⟩
  | cons c calls ih =>
    obtain ⟨hc, hcalls⟩ := List.forall_mem_cons.mp hcalls
    obtain ⟨entry, hlog, hentry, hcur, hnext⟩ := h.perform hc
    obtain ⟨more, hmore, hnone, hcur', hlast⟩ := ih hcalls hnext
    refine ⟨more ++ [entry], ?_, ?_, hcur'.trans hcur, ?_⟩
    · rw [List.foldl_cons, hmore, hlog, List.append_assoc]
      rfl
    · unfold firedIn at hnone hentry ⊢
      rw [List.filterMap_append, hnone, hentry, List.nil_append]
    · rw [List.append_assoc]
      exact hlast

/-! ## The loop -/

variable {callback : Callback n τ σ}

/-- One turn fires the front event. -/
theorem Progress.fire
    (hcalls : ∀ type userData late s t, ∀ c ∈ (callback type userData late s t).2, c.Plain)
    (s : σ) (h : Progress ticks queue t new) {e : Event τ} {rest : List (Event τ)}
    (hqueue : t.queue = e :: rest) (hdue : e.time ≤ ticks) :
    ∃ more, (t.fire callback t.current e s).2.log = more ++ t.log ∧
      (firedIn (more ++ new)).length = (firedIn new).length + 1 ∧
      (t.fire callback t.current e s).2.current = t.current ∧
      Progress ticks queue (t.fire callback t.current e s).2 (more ++ new) := by
  obtain ⟨more, hlog, hnone, hcur, hturn⟩ := (h.take hqueue hdue).calls _
    (hcalls e.type e.userData (t.lateness t.current e) s (t.take t.current e))
  refine ⟨more ++ [.fired e (t.lateness t.current e) (t.timers t.current).executedTicks],
    ?_, ?_, hcur, ?_⟩
  · rw [List.append_assoc]
    exact hlog
  · unfold firedIn at hnone ⊢
    rw [List.append_assoc, List.filterMap_append, hnone]
    rfl
  · rw [List.append_assoc]
    exact hturn

/-- Each turn fires another event of the queue at the start, so the loop ends; then none is due. -/
theorem Progress.drain
    (hcalls : ∀ type userData late s t, ∀ c ∈ (callback type userData late s t).2, c.Plain)
    (turns : Nat) (s : σ) (h : Progress ticks queue t new) :
    match t.drain callback t.current turns s with
    | none => turns + (firedIn new).length ≤ queue.length
    | some (_, t') => t'.current = t.current ∧
        (∃ more, t'.log = more ++ t.log ∧ Progress ticks queue t' (more ++ new)) ∧
        ∀ e ∈ t'.queue, ticks < e.time := by
  induction turns generalizing t s new with
  | zero =>
    show 0 + (firedIn new).length ≤ queue.length
    have hnodup : (firedIn new).Nodup := h.order.imp fun hbefore => by
      rintro rfl
      unfold Event.before at hbefore
      omega
    have hsub : firedIn new ⊆ queue := fun e he => by
      obtain ⟨late, at', hmem⟩ := mem_firedIn.mp he
      exact (h.fired e late at' hmem).1
    have := (hnodup.subperm hsub).length_le
    omega
  | succ turns ih =>
    rw [Timing.drain]
    cases hevents : (t.timers t.current).eventQueue.events with
    | nil =>
      refine ⟨rfl, ⟨[], rfl, h⟩, fun e he => ?_⟩
      have he : e ∈ (t.timers t.current).eventQueue.events := he
      rw [hevents] at he
      cases he
    | cons e rest =>
      simp only
      by_cases hdue : e.time ≤ (t.timers t.current).executedTicks
      · rw [if_pos hdue]
        -- The turn for `e`, and then the other turns.
        obtain ⟨more, hlog, hcount, hcur, hturn⟩ := h.fire hcalls s hevents (h.executed ▸ hdue)
        generalize t.fire callback t.current e s = next at *
        have hrec := ih next.1 hturn
        rw [hcur, hcount] at hrec
        cases hdrain : Timing.drain callback t.current turns next.1 next.2 with
        | none =>
          rw [hdrain] at hrec
          have hrec : turns + ((firedIn new).length + 1) ≤ queue.length := hrec
          show turns + 1 + (firedIn new).length ≤ queue.length
          omega
        | some result =>
          rw [hdrain] at hrec
          obtain ⟨hcur', ⟨more', hlog', hend⟩, hnoneDue⟩ := hrec
          refine ⟨hcur', ⟨more' ++ more, ?_, ?_⟩, hnoneDue⟩
          · rw [hlog', hlog, List.append_assoc]
          · rw [List.append_assoc]
            exact hend
      · rw [if_neg hdue]
        refine ⟨rfl, ⟨[], rfl, h⟩, fun x hx => ?_⟩
        have := EventQueue.front_le hevents hx
        have := h.executed
        omega

variable (callback) in
theorem advance_cases
    (hcalls : ∀ type userData late s t, ∀ c ∈ (callback type userData late s t).2, c.Plain)
    (h : t.Sound) (turns : Nat) (s : σ) :
    match t.advance callback t.current turns s with
    | none => turns ≤ t.queue.length
    | some (_, t') => t'.current = t.current ∧ ∃ new, Advanced t t'
        ((t.timers t.current).executedTicks +
          ((t.timers t.current).sliceLength - (t.timers t.current).downcount)) new := by
  obtain ⟨-, hqueue⟩ := h.beginAdvance
  have hstart := (Progress.refl (t := t.update t.current Timer.beginAdvance)
    (Looping.beginAdvance h)).drain hcalls turns s
  have hexec := executedTicks_beginAdvance t
  unfold Timing.advance
  cases hdrain : Timing.drain callback t.current turns s
      (t.update t.current Timer.beginAdvance) with
  | none =>
    have hstart : turns + 0 ≤ (t.update t.current Timer.beginAdvance).queue.length := by
      have hnone : Timing.drain callback (t.update t.current Timer.beginAdvance).current turns s
        (t.update t.current Timer.beginAdvance) = none := hdrain
      rw [hnone] at hstart
      exact hstart
    rw [hqueue] at hstart
    exact hstart
  | some result =>
    obtain ⟨s', t'⟩ := result
    have hsome : Timing.drain callback (t.update t.current Timer.beginAdvance).current turns s
      (t.update t.current Timer.beginAdvance) = some (s', t') := hdrain
    rw [hsome] at hstart
    obtain ⟨hcur, ⟨new, hlog, hend⟩, hnoneDue⟩ := hstart
    have hcur : t'.current = t.current := hcur
    rw [List.append_nil] at hend
    -- The timer is not sane any more; its queue and its ticks stay.
    have htimer := timers_update_self t' t.current fun timer => { timer with isTimerSane := false }
    have hsame : (t'.update t.current fun timer => { timer with isTimerSane := false }).queue =
        t'.queue := by
      show ((t'.update t.current _).timers t'.current).eventQueue.events = _
      rw [hcur, htimer]
      show (t'.timers t.current).eventQueue.events = (t'.timers t'.current).eventQueue.events
      rw [hcur]
    refine ⟨hcur, new, ⟨hlog, ?_, ?_, hend.order, ?_, ?_, ?_⟩⟩
    · rw [htimer, ← hexec]
      show (t'.timers t.current).executedTicks = _
      rw [← hcur, hend.executed]
      rw [hcur]
      rfl
    · intro e late at' he
      obtain ⟨hmem, hdue, hat, hlate⟩ := hend.fired e late at' he
      exact ⟨hqueue ▸ hmem, hexec ▸ hdue, hexec ▸ hat, hexec ▸ hlate⟩
    · intro e he hdue
      rcases hend.kept e (hqueue ▸ he) with hkept | hdone
      · have hlate : ((t.update t.current Timer.beginAdvance).timers t.current).executedTicks <
          e.time := hnoneDue e hkept
        omega
      · exact hdone
    · intro e he hlate
      rw [hsame]
      rcases hend.kept e (hqueue ▸ he) with hkept | hfired | hremoved
      · exact .inl hkept
      · obtain ⟨late, at', hmem⟩ := mem_firedIn.mp hfired
        have hdue : e.time ≤
          ((t.update t.current Timer.beginAdvance).timers t.current).executedTicks :=
            (hend.fired e late at' hmem).2.1
        omega
      · exact .inr hremoved
    · intro e he
      rw [hsame] at he
      exact hexec ▸ hnoneDue e he

/-! ## Runs -/

end Timing

end GbaStation.Core
