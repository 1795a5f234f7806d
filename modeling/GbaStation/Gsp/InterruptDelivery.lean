import GbaStation.Gsp.InterruptAccounts
import Mathlib.Data.List.Nodup

/-!
# Delivery of interrupts

Every interrupt that is signalled falls due once, for the session that had its thread id when it was
signalled, as long as no session gets a thread id with interrupts of an earlier one.

- `delivered_of_fresh`: the promise, in runs where thread ids are given out without leftovers.
-/

namespace GbaStation.Gsp

open InterruptRelayQueue
open Function (update update_of_ne update_self)
open Option (map_eq_some_iff)

/-! ## Sessions -/

/-- A change of the sessions and the GPU right alone, where no session gets another thread id. -/
structure GspGpu.Administers (g g' : GspGpu) : Prop where
  pendingInterrupts : g'.pendingInterrupts = g.pendingInterrupts
  queues : g'.interruptRelayQueue = g.interruptRelayQueue
  sessions : g.Sessions → g'.Sessions
  keys : ∀ d' ∈ g'.connectedSessions,
    ∃ d ∈ g.connectedSessions, d.session = d'.session ∧ d.threadId = d'.threadId

namespace GspGpu

variable {g g' : GspGpu} {data : SessionData} {session : Nat}

theorem getSessionData_mem (h : g.getSessionData session = some data) :
    data ∈ g.connectedSessions ∧ data.session = session := by
  have h : g.connectedSessions.find? (fun d => d.session = session) = some data := h
  exact ⟨List.mem_of_find?_eq_some h, by simpa using List.find?_some h⟩

/-- A thread id belongs to one session. -/
theorem Sessions.unique {d d' : SessionData} (h : g.Sessions) (hd : d ∈ g.connectedSessions)
    (hd' : d' ∈ g.connectedSessions) (heq : d.threadId = d'.threadId) : d = d' :=
  List.inj_on_of_nodup_map h.distinct hd hd' heq

theorem administers_of_right (hpending : g'.pendingInterrupts = g.pendingInterrupts)
    (hqueues : g'.interruptRelayQueue = g.interruptRelayQueue)
    (hsessions : g'.connectedSessions = g.connectedSessions)
    (hused : g'.usedThreadIds = g.usedThreadIds) : g.Administers g' where
  pendingInterrupts := hpending
  queues := hqueues
  sessions := fun h => ⟨hsessions ▸ h.distinct, hsessions ▸ hused ▸ h.used, hsessions ▸ h.event⟩
  keys := fun d hd => ⟨d, hsessions ▸ hd, rfl, rfl⟩

theorem administers_releaseRight (g : GspGpu) (data : SessionData) :
    g.Administers (g.releaseRight data) := by
  unfold releaseRight
  split_ifs
  · exact administers_of_right rfl rfl rfl rfl
  · exact administers_of_right rfl rfl rfl rfl

theorem administers_acquireGpuRight {delayTextureCopy blocking : Bool} {result : AcquireResult}
    (h : g.acquireGpuRight data delayTextureCopy blocking = some (result, g')) :
    g.Administers g' := by
  unfold acquireGpuRight at h
  split_ifs at h
  all_goals
    obtain rfl := congrArg Prod.snd (Option.some.inj h)
    exact administers_of_right rfl rfl rfl rfl

/-- The data of a session are changed, but not its thread id. -/
theorem administers_setSessionData (g : GspGpu) (session : Nat) (f : SessionData → SessionData)
    (hkey : ∀ d, (f d).session = d.session ∧ (f d).threadId = d.threadId)
    (hevent : ∀ d, (f d).registered = true → (f d).interruptEvent.isSome = true) :
    g.Administers (g.setSessionData session f) := by
  have hthreads : ∀ d : SessionData, (if d.session = session then f d else d).threadId =
      d.threadId := fun d => by
    split_ifs
    · exact (hkey d).2
    · rfl
  refine ⟨rfl, rfl, fun h => ⟨?_, ?_, ?_⟩, ?_⟩
  · show ((g.connectedSessions.map _).map _).Nodup
    rw [List.map_map]
    exact (List.map_congr_left fun d _ => hthreads d) ▸ h.distinct
  · intro d' hd'
    obtain ⟨d, hd, rfl⟩ := List.mem_map.mp hd'
    rw [hthreads]
    exact h.used d hd
  · intro d' hd' hregistered
    obtain ⟨d, hd, rfl⟩ := List.mem_map.mp hd'
    split_ifs at hregistered ⊢
    · exact hevent d hregistered
    · exact h.event d hd hregistered
  · intro d' hd'
    obtain ⟨d, hd, rfl⟩ := List.mem_map.mp hd'
    refine ⟨d, hd, ?_, (hthreads d).symm⟩
    split_ifs
    · exact (hkey d).1.symm
    · rfl

theorem administers_clientDisconnected (hdata : data ∈ g.connectedSessions) :
    g.Administers (g.clientDisconnected data) := by
  have hrelease := g.administers_releaseRight data
  have hconnected : (g.releaseRight data).connectedSessions = g.connectedSessions := by
    unfold releaseRight
    split_ifs <;> rfl
  have hmem : ∀ d ∈ (g.clientDisconnected data).connectedSessions,
      d ∈ g.connectedSessions ∧ d.session ≠ data.session := by
    intro d hd
    have hd : d ∈ (g.releaseRight data).connectedSessions.filter
      fun d => d.session ≠ data.session := hd
    rw [List.mem_filter, hconnected] at hd
    exact ⟨hd.1, by simpa using hd.2⟩
  refine ⟨hrelease.pendingInterrupts, hrelease.queues, fun h => ?_, fun d hd =>
    ⟨d, (hmem d hd).1, rfl, rfl⟩⟩
  have hreleased := hrelease.sessions h
  refine ⟨?_, fun d hd => ?_, fun d hd => h.event d (hmem d hd).1⟩
  · exact hreleased.distinct.sublist (List.filter_sublist.map _)
  · obtain ⟨hd, hne⟩ := hmem d hd
    have hthread : d.threadId ≠ data.threadId := fun heq =>
      hne (congrArg SessionData.session (h.unique hd hdata heq))
    show update (g.releaseRight data).usedThreadIds data.threadId false d.threadId = true
    rw [update_of_ne hthread]
    exact hreleased.used d (hconnected ▸ hd)

end GspGpu

/-! ## One action -/

namespace Run

/-- What an action does. -/
inductive Moves (r : Run) : Action → Run → Prop where
  | connect {threadId : Nat} {g : GspGpu} (hunused : r.gsp.getUnusedThreadId = some threadId)
      (hconnected : r.gsp.clientConnected r.sessions = some g) :
      Moves r .connect { r with gsp := g, sessions := r.sessions + 1 }
  | administer {a : Action} {g : GspGpu} (h : r.gsp.Administers g) : Moves r a (r.withGsp g)
  | signalInterrupt (id : InterruptId) (waitDelayNs : Nat) (simulate : Bool) :
      Moves r (.signalInterrupt id waitDelayNs simulate)
        ((r.gsp.targets id).foldl (signalForThread id waitDelayNs simulate) r)
  | callback {place : Nat} (hmem : place ∈ r.scheduled) {s : Signal} {r' : Run}
      (hs : r.gsp.pendingInterrupts.elements place = some s)
      (htaken : r'.AccountedBut [s])
      (hr : r' = { r with
        gsp := { r.gsp with pendingInterrupts :=
          { r.gsp.pendingInterrupts with
            elements := update r.gsp.pendingInterrupts.elements place none } }
        scheduled := r.scheduled.erase place }) :
      Moves r (.callback place) (r'.fall s (r'.gsp.processPendingInterruptImpl s).1
        (r'.gsp.processPendingInterruptImpl s).2)
  | consume {session : Nat} {data : SessionData} (hdata : r.gsp.getSessionData session = some data)
      (hne : (r.gsp.interruptRelayQueue data.threadId).numberInterrupts ≠ 0) :
      Moves r (.consume session) { r with
        gsp := r.gsp.setQueue data.threadId (r.gsp.interruptRelayQueue data.threadId).consume.2
        read := r.read ++ [(session, (r.gsp.interruptRelayQueue data.threadId).consume.1)] }
  | configure {session : Nat} {data : SessionData} (ignorePdc : Bool)
      (hdata : r.gsp.getSessionData session = some data) :
      Moves r (.configure session ignorePdc) (r.withGsp (r.gsp.setQueue data.threadId
        { r.gsp.interruptRelayQueue data.threadId with ignorePdc := ignorePdc }))

variable {r : Run} {threadId : Nat} {s : Signal}

theorem Accounted.moves {r' : Run} {a : Action} (h : r.Accounted) (hstep : r.step a = some r') :
    Moves r a r' := by
  cases a with
  | connect =>
    obtain ⟨g, hg, rfl⟩ := map_eq_some_iff.mp hstep
    obtain ⟨threadId, hunused, -⟩ := map_eq_some_iff.mp hg
    exact .connect hunused hg
  | disconnect session =>
    obtain ⟨data, hdata, rfl⟩ := map_eq_some_iff.mp hstep
    exact .administer (GspGpu.administers_clientDisconnected (GspGpu.getSessionData_mem hdata).1)
  | register session event =>
    obtain ⟨data, hdata, rfl⟩ := map_eq_some_iff.mp hstep
    have hset := r.gsp.administers_setSessionData data.session
      (fun d => { d with interruptEvent := some event, registered := true })
      (fun _ => ⟨rfl, rfl⟩) (fun _ _ => rfl)
    exact .administer ⟨hset.pendingInterrupts, hset.queues,
      fun hsessions => ⟨(hset.sessions hsessions).distinct, (hset.sessions hsessions).used,
        (hset.sessions hsessions).event⟩, hset.keys⟩
  | unregister session =>
    obtain ⟨data, hdata, rfl⟩ := map_eq_some_iff.mp hstep
    exact .administer (r.gsp.administers_setSessionData data.session _ (fun _ => ⟨rfl, rfl⟩)
      fun _ hregistered => Bool.noConfusion hregistered)
  | acquireRight session delayTextureCopy blocking =>
    obtain ⟨data, hdata, hacquire⟩ := Option.bind_eq_some_iff.mp hstep
    obtain ⟨⟨result, g⟩, hg, rfl⟩ := map_eq_some_iff.mp hacquire
    exact .administer (GspGpu.administers_acquireGpuRight hg)
  | releaseRight session =>
    obtain ⟨data, hdata, rfl⟩ := map_eq_some_iff.mp hstep
    exact .administer (r.gsp.administers_releaseRight data)
  | signalInterrupt id waitDelayNs simulate =>
    obtain rfl := Option.some.inj hstep
    exact .signalInterrupt id waitDelayNs simulate
  | callback place =>
    simp only [step, Option.ite_none_right_eq_some] at hstep
    obtain ⟨hmem, hstep⟩ := hstep
    obtain ⟨s, a, hpop, hs, htaken⟩ := AccountedBut.take h hmem
    have ha : a = { r.gsp.pendingInterrupts with
        elements := update r.gsp.pendingInterrupts.elements place none } := by
      unfold PendingInterruptArray.pop at hpop
      rw [if_neg (Nat.not_le.mpr (h.filed.bound place hmem)), hs] at hpop
      exact (congrArg Prod.snd (Option.some.inj hpop)).symm
    unfold GspGpu.processPendingInterrupt at hstep
    rw [hpop] at hstep
    obtain rfl := Option.some.inj hstep
    exact .callback hmem hs htaken (by rw [ha])
  | consume session =>
    obtain ⟨data, hdata, hconsume⟩ := Option.bind_eq_some_iff.mp hstep
    simp only [Option.ite_none_left_eq_some] at hconsume
    obtain ⟨hne, hconsume⟩ := hconsume
    obtain rfl := Option.some.inj hconsume
    exact .consume hdata hne
  | configure session ignorePdc =>
    obtain ⟨data, hdata, rfl⟩ := map_eq_some_iff.mp hstep
    exact .configure ignorePdc hdata

/-- `SignalInterruptForThread` lets the interrupt fall due, or puts it in the array. -/
theorem signalForThread_cases (r : Run) (id : InterruptId) (waitDelayNs : Nat) (simulate : Bool)
    (threadId : Nat) :
    let s := r.newSignal id threadId
    let r' := { r with signalled := r.signalled ++ [s] }
    signalForThread id waitDelayNs simulate r threadId =
        r'.fall s (r'.gsp.processPendingInterruptImpl s).1
          (r'.gsp.processPendingInterruptImpl s).2 ∨
      ∃ place a, r.gsp.pendingInterrupts.push s = some (place, a) ∧
        signalForThread id waitDelayNs simulate r threadId =
          { r' with gsp := { r.gsp with pendingInterrupts := a }
                    scheduled := r.scheduled ++ [place] } := by
  unfold signalForThread GspGpu.signalInterruptForThread
  simp only
  split_ifs with hpdc hdelay
  · exact .inl rfl
  · cases hpush : r.gsp.pendingInterrupts.push (r.newSignal id threadId) with
    | none => exact .inl rfl
    | some filed => exact .inr ⟨filed.1, filed.2, rfl, rfl⟩
  · exact .inl rfl

theorem Accounted.signalForThread (h : r.Accounted) (id : InterruptId) (waitDelayNs : Nat)
    (simulate : Bool) (threadId : Nat) :
    (signalForThread id waitDelayNs simulate r threadId).Accounted := by
  have hsignal := AccountedBut.signal (s := r.newSignal id threadId) h rfl
  rcases r.signalForThread_cases id waitDelayNs simulate threadId with heq | ⟨place, a, hpush, heq⟩
  · rw [heq]
    exact hsignal.fall
  · rw [heq]
    exact hsignal.file hpush

theorem Accounted.foldl_signalForThread (h : r.Accounted) (id : InterruptId) (waitDelayNs : Nat)
    (simulate : Bool) (threadIds : List Nat) :
    (threadIds.foldl (Run.signalForThread id waitDelayNs simulate) r).Accounted := by
  induction threadIds generalizing r with
  | nil => exact h
  | cons threadId threadIds ih => exact ih (h.signalForThread id waitDelayNs simulate threadId)

/-- A free thread id is given to a new session. -/
theorem clientConnected_spec {g g' : GspGpu} {session : Nat}
    (hunused : g.getUnusedThreadId = some threadId)
    (hconnected : g.clientConnected session = some g') :
    g.usedThreadIds threadId = false ∧
      g' = { g with
        connectedSessions := g.connectedSessions ++ [SessionData.new session threadId]
        usedThreadIds := update g.usedThreadIds threadId true } := by
  unfold GspGpu.clientConnected at hconnected
  rw [hunused] at hconnected
  refine ⟨?_, (Option.some.inj hconnected).symm⟩
  simpa using List.find?_some hunused

theorem sessions_clientConnected {g g' : GspGpu} {session : Nat} (h : g.Sessions)
    (hunused : g.getUnusedThreadId = some threadId)
    (hconnected : g.clientConnected session = some g') : g'.Sessions := by
  obtain ⟨hfree, rfl⟩ := clientConnected_spec hunused hconnected
  have hne : ∀ d ∈ g.connectedSessions, d.threadId ≠ threadId := fun d hd heq => by
    have hused := h.used d hd
    rw [heq, hfree] at hused
    cases hused
  refine ⟨?_, ?_, ?_⟩
  · rw [List.map_append, List.map_singleton]
    refine List.nodup_append.mpr ⟨h.distinct, List.pairwise_singleton _ _, fun x hx y hy => ?_⟩
    obtain ⟨d, hd, rfl⟩ := List.mem_map.mp hx
    obtain rfl := List.mem_singleton.mp hy
    exact hne d hd
  · refine List.forall_mem_append.mpr ⟨fun d hd => ?_, List.forall_mem_singleton.mpr ?_⟩
    · show update g.usedThreadIds threadId true d.threadId = true
      rw [update_of_ne (hne d hd)]
      exact h.used d hd
    · exact update_self _ _ _
  · exact List.forall_mem_append.mpr ⟨h.event,
      List.forall_mem_singleton.mpr fun hregistered => absurd hregistered Bool.false_ne_true⟩

theorem Accounted.step {r r' : Run} {a : Action} (h : r.Accounted)
    (hstep : r.step a = some r') : r'.Accounted := by
  cases h.moves hstep with
  | connect hunused hconnected =>
    have hsessions := sessions_clientConnected h.sessions hunused hconnected
    obtain ⟨-, rfl⟩ := clientConnected_spec hunused hconnected
    exact ⟨hsessions, h.filed, h.accounts, h.numbered, h.once, h.proper⟩
  | @administer a g hadmin =>
    refine ⟨hadmin.sessions h.sessions, ?_, ?_, h.numbered, ?_, h.proper⟩
    · show Filed g.pendingInterrupts r.scheduled
      rw [hadmin.pendingInterrupts]
      exact h.filed
    · intro t
      show Accounts r.due r.read t (g.interruptRelayQueue t)
      rw [hadmin.queues]
      exact h.accounts t
    · show r.signalled.Perm ([] ++ (r.due.map (·.signal) ++
        r.scheduled.filterMap g.pendingInterrupts.elements))
      rw [hadmin.pendingInterrupts]
      exact h.once
  | signalInterrupt id waitDelayNs simulate =>
    exact h.foldl_signalForThread id waitDelayNs simulate _
  | callback hmem hs htaken hr => exact htaken.fall
  | @consume session data hdata hne =>
    obtain ⟨hfirst, haccounts⟩ := (h.accounts data.threadId).consume session hne
    refine ⟨⟨h.sessions.distinct, h.sessions.used, h.sessions.event⟩, h.filed,
      GspGpu.forall_setQueue haccounts fun t ht => (h.accounts t).read_other ?_,
      h.numbered, h.once, h.proper⟩
    rw [(h.accounts data.threadId).own _ hfirst]
    exact Ne.symm ht
  | @configure session data ignorePdc hdata =>
    exact ⟨⟨h.sessions.distinct, h.sessions.used, h.sessions.event⟩, h.filed,
      GspGpu.forall_setQueue ((h.accounts _).configure ignorePdc) fun t _ => h.accounts t,
      h.numbered, h.once, h.proper⟩

/-! ## Whose interrupts they are -/

/-- The session that has the thread id of a signal had it when it was signalled. -/
def Held (l : List SessionData) (s : Signal) : Prop :=
  ∀ d ∈ l, d.threadId = s.threadId → s.session = some d.session

theorem Held.administers {g g' : GspGpu} (h : Held g.connectedSessions s)
    (hadmin : g.Administers g') : Held g'.connectedSessions s := by
  intro d' hd' hthread
  obtain ⟨d, hd, hsession, hsame⟩ := hadmin.keys d' hd'
  rw [← hsession]
  exact h d hd (hsame.trans hthread)

theorem held_setQueue {l : List SessionData} {g : GspGpu} {q : InterruptRelayQueue}
    (hself : ∀ s ∈ q.contents, Held l s)
    (hother : ∀ t, ∀ s ∈ (g.interruptRelayQueue t).contents, Held l s) :
    ∀ t, ∀ s ∈ ((g.setQueue threadId q).interruptRelayQueue t).contents, Held l s :=
  GspGpu.forall_setQueue (P := fun _ q => ∀ s ∈ q.contents, Held l s) hself fun t _ => hother t

/-- Interrupts wait for, fell due for and were read by the session that had the thread id. -/
structure Belongs (r : Run) : Prop where
  waiting : ∀ place s, r.gsp.pendingInterrupts.elements place = some s →
    Held r.gsp.connectedSessions s
  unread : ∀ t, ∀ s ∈ (r.gsp.interruptRelayQueue t).contents, Held r.gsp.connectedSessions s
  due : ∀ f ∈ r.due, ∀ session, f.session = some session → f.signal.session = some session
  read : ∀ p ∈ r.read, p.2.session = some p.1

theorem belongs_init : init.Belongs where
  waiting := fun place s hs => by cases hs
  unread := fun t s hs => (List.not_mem_nil hs).elim
  due := fun f hf => (List.not_mem_nil hf).elim
  read := fun p hp => (List.not_mem_nil hp).elim

/-- A new signal is for the session that has the thread id. -/
theorem held_newSignal (h : r.gsp.Sessions) (id : InterruptId) (threadId : Nat) :
    Held r.gsp.connectedSessions (r.newSignal id threadId) := by
  intro d hd hthread
  have hthread : d.threadId = threadId := hthread
  show (r.gsp.connectedSessions.find? _).map _ = _
  cases hfind : r.gsp.connectedSessions.find? fun d => d.threadId = threadId with
  | none =>
    have hnone := List.find?_eq_none.mp hfind d hd
    rw [decide_eq_true_iff] at hnone
    exact absurd hthread hnone
  | some d' =>
    have hd' : d'.threadId = threadId := by simpa using List.find?_some hfind
    rw [h.unique hd (List.mem_of_find?_eq_some hfind) (hthread.trans hd'.symm)]
    rfl

/-- An interrupt falls due for the session that it belongs to. -/
theorem Belongs.fall (h : r.Belongs) (haccounted : r.AccountedBut [s])
    (hs : Held r.gsp.connectedSessions s) :
    (r.fall s (r.gsp.processPendingInterruptImpl s).1
      (r.gsp.processPendingInterruptImpl s).2).Belongs := by
  obtain ⟨q, hafter, hturn⟩ := r.gsp.processPendingInterruptImpl_spec s
  obtain ⟨-, hcontents⟩ := hturn.valid (haccounted.accounts s.threadId).valid
  rw [hafter]
  refine ⟨h.waiting, ?_, ?_, h.read⟩
  · refine held_setQueue ?_ h.unread
    rw [hcontents]
    refine List.forall_mem_append.mpr ⟨h.unread s.threadId, ?_⟩
    split_ifs
    · exact List.forall_mem_singleton.mpr hs
    · exact fun s hs => (List.not_mem_nil hs).elim
  · refine List.forall_mem_append.mpr ⟨h.due, List.forall_mem_singleton.mpr ?_⟩
    intro session hsession
    obtain ⟨data, hfind, rfl⟩ := map_eq_some_iff.mp hsession
    obtain ⟨hmem, -, hthread⟩ := findRegisteredThreadData_mem hfind
    exact hs data hmem hthread

theorem Belongs.signalForThread (h : r.Belongs) (haccounted : r.Accounted) (id : InterruptId)
    (waitDelayNs : Nat) (simulate : Bool) (threadId : Nat) :
    (Run.signalForThread id waitDelayNs simulate r threadId).Belongs := by
  have hsignal := AccountedBut.signal (s := r.newSignal id threadId) haccounted rfl
  have hheld := held_newSignal haccounted.sessions id threadId
  have hbelongs : Belongs { r with signalled := r.signalled ++ [r.newSignal id threadId] } :=
    ⟨h.waiting, h.unread, h.due, h.read⟩
  rcases r.signalForThread_cases id waitDelayNs simulate threadId with heq | ⟨place, a, hpush, heq⟩
  · rw [heq]
    exact hbelongs.fall hsignal hheld
  · rw [heq]
    refine ⟨fun p s hs => ?_, h.unread, h.due, h.read⟩
    obtain ⟨-, -, helements, -⟩ := Filed.push_some hpush
    have hs : a.elements p = some s := hs
    rw [helements] at hs
    by_cases hp : p = place
    · subst hp
      rw [update_self] at hs
      obtain rfl := Option.some.inj hs
      exact hheld
    · rw [update_of_ne hp] at hs
      exact h.waiting p s hs

theorem Belongs.foldl_signalForThread (h : r.Belongs) (haccounted : r.Accounted) (id : InterruptId)
    (waitDelayNs : Nat) (simulate : Bool) (threadIds : List Nat) :
    (threadIds.foldl (Run.signalForThread id waitDelayNs simulate) r).Belongs := by
  induction threadIds generalizing r with
  | nil => exact h
  | cons threadId threadIds ih =>
    exact ih (h.signalForThread haccounted id waitDelayNs simulate threadId)
      (haccounted.signalForThread id waitDelayNs simulate threadId)

/-- A session gets a thread id for which no interrupt waits, and whose relay queue is empty. -/
def FreshThreadId (r : Run) (a : Action) : Prop :=
  a = .connect → ∀ threadId, r.gsp.getUnusedThreadId = some threadId →
    (∀ place s, r.gsp.pendingInterrupts.elements place = some s → s.threadId ≠ threadId) ∧
      (r.gsp.interruptRelayQueue threadId).numberInterrupts = 0

theorem Belongs.step {r r' : Run} {a : Action} (h : r.Belongs) (haccounted : r.Accounted)
    (hfresh : r.FreshThreadId a) (hstep : r.step a = some r') : r'.Belongs := by
  cases haccounted.moves hstep with
  | @connect threadId g hunused hconnected =>
    obtain ⟨hwaiting, hempty⟩ := hfresh rfl threadId hunused
    obtain ⟨-, rfl⟩ := clientConnected_spec hunused hconnected
    -- the new session has a thread id that no signal is for
    have hheld : ∀ s, Held r.gsp.connectedSessions s → s.threadId ≠ threadId →
        Held (r.gsp.connectedSessions ++ [SessionData.new r.sessions threadId]) s := fun s hs hne =>
      List.forall_mem_append.mpr ⟨hs, List.forall_mem_singleton.mpr fun heq => absurd heq.symm hne⟩
    refine ⟨fun place s hs => hheld s (h.waiting place s hs) (hwaiting place s hs),
      fun t s hs => hheld s (h.unread t s hs) fun heq => ?_, h.due, h.read⟩
    have hthread := (haccounted.accounts t).own s hs
    rw [← hthread, heq] at hs
    have hs : s ∈ (r.gsp.interruptRelayQueue threadId).contents := hs
    unfold InterruptRelayQueue.contents at hs
    rw [hempty] at hs
    exact List.not_mem_nil hs
  | @administer a g hadmin =>
    refine ⟨fun place s hs => ?_, fun t s hs => ?_, h.due, h.read⟩
    · have hs : g.pendingInterrupts.elements place = some s := hs
      rw [hadmin.pendingInterrupts] at hs
      exact (h.waiting place s hs).administers hadmin
    · have hs : s ∈ (g.interruptRelayQueue t).contents := hs
      rw [hadmin.queues] at hs
      exact (h.unread t s hs).administers hadmin
  | signalInterrupt id waitDelayNs simulate =>
    exact h.foldl_signalForThread haccounted id waitDelayNs simulate _
  | @callback place hmem s r' hs htaken hr =>
    subst hr
    refine Belongs.fall ⟨fun p s' hs' => ?_, h.unread, h.due, h.read⟩ htaken (h.waiting place s hs)
    have hs' : update r.gsp.pendingInterrupts.elements place none p = some s' := hs'
    by_cases hp : p = place
    · subst hp
      rw [update_self] at hs'
      cases hs'
    · rw [update_of_ne hp] at hs'
      exact h.waiting p s' hs'
  | @consume session data hdata hne =>
    obtain ⟨hmem, rfl⟩ := GspGpu.getSessionData_mem hdata
    have haccounts := haccounted.accounts data.threadId
    obtain ⟨-, hcontents⟩ := haccounts.valid.consume hne
    have hunread := h.unread data.threadId
    rw [hcontents] at hunread
    obtain ⟨hfirst, hrest⟩ := List.forall_mem_cons.mp hunread
    refine ⟨h.waiting, held_setQueue hrest h.unread, h.due,
      List.forall_mem_append.mpr ⟨h.read, List.forall_mem_singleton.mpr ?_⟩⟩
    exact hfirst data hmem (haccounts.own _ (hcontents ▸ List.mem_cons_self)).symm
  | @configure session data ignorePdc hdata =>
    exact ⟨h.waiting, held_setQueue (h.unread data.threadId) h.unread, h.due, h.read⟩

/-! ## The promise -/

/-- Every signal has fallen due or waits, once, with an event for its place; what fell due went
where it should; each relay queue holds what was put in it and not read, in order; and all of it
concerns the session that had the thread id of the signal. -/
structure Delivered (r : Run) : Prop where
  numbered : r.signalled.map (·.number) = List.range r.signalled.length
  once : r.signalled.Perm (r.due.map (·.signal) ++ r.pending)
  scheduled : r.scheduled.Nodup ∧
    ∀ place, (r.gsp.pendingInterrupts.elements place).isSome = true ↔ place ∈ r.scheduled
  proper : ∀ f ∈ r.due, f.Proper
  order : ∀ t, appended r.due t = readFrom r.read t ++ (r.gsp.interruptRelayQueue t).contents
  reported : ∀ f ∈ r.due, f.outcome = .full →
    (r.gsp.interruptRelayQueue f.signal.threadId).errorCode = queueFullError
  missed : ∀ t,
    (r.gsp.interruptRelayQueue t).missedPdc0 = missedCount r.due t .pdc0 % 2 ^ 32 ∧
    (r.gsp.interruptRelayQueue t).missedPdc1 = missedCount r.due t .pdc1 % 2 ^ 32
  due : ∀ f ∈ r.due, ∀ session, f.session = some session → f.signal.session = some session
  read : ∀ p ∈ r.read, p.2.session = some p.1

theorem Accounted.delivered (h : r.Accounted) (hbelongs : r.Belongs) : r.Delivered where
  numbered := h.numbered
  once := h.once
  scheduled := ⟨h.filed.nodup, h.filed.occupied⟩
  proper := h.proper
  order := fun t => (h.accounts t).order
  reported := fun f hf => (h.accounts f.signal.threadId).reported f hf rfl
  missed := fun t => ⟨(h.accounts t).missedPdc0, (h.accounts t).missedPdc1⟩
  due := hbelongs.due
  read := hbelongs.read

/-- An interrupt in the array stays there until the event of its place, when it falls due. -/
def KeepsPending (r : Run) (a : Action) (r' : Run) : Prop :=
  ∀ place s, r.gsp.pendingInterrupts.elements place = some s →
    r'.gsp.pendingInterrupts.elements place = some s ∨
      a = .callback place ∧ s ∈ r'.due.map (·.signal)

theorem fall_elements :
    (r.fall s (r.gsp.processPendingInterruptImpl s).1
      (r.gsp.processPendingInterruptImpl s).2).gsp.pendingInterrupts = r.gsp.pendingInterrupts := by
  obtain ⟨q, hafter, -⟩ := r.gsp.processPendingInterruptImpl_spec s
  rw [hafter]
  rfl

theorem foldl_signalForThread_elements (id : InterruptId) (waitDelayNs : Nat) (simulate : Bool)
    (threadIds : List Nat) {place : Nat} (h : r.gsp.pendingInterrupts.elements place = some s) :
    (threadIds.foldl (Run.signalForThread id waitDelayNs simulate) r).gsp.pendingInterrupts.elements
      place = some s := by
  induction threadIds generalizing r with
  | nil => exact h
  | cons threadId threadIds ih =>
    refine ih ?_
    rcases r.signalForThread_cases id waitDelayNs simulate threadId with
      heq | ⟨place', a, hpush, heq⟩
    · rw [heq, fall_elements]
      exact h
    · rw [heq]
      obtain ⟨-, hfree, helements, -⟩ := Filed.push_some hpush
      have hne : place ≠ place' := fun heq => by
        rw [← heq, h] at hfree
        cases hfree
      show a.elements place = some s
      rw [helements, update_of_ne hne]
      exact h

theorem Accounted.keepsPending {r' : Run} {a : Action} (h : r.Accounted)
    (hstep : r.step a = some r') : r.KeepsPending a r' := by
  intro place s hs
  cases h.moves hstep with
  | connect hunused hconnected =>
    obtain ⟨-, rfl⟩ := clientConnected_spec hunused hconnected
    exact .inl hs
  | administer hadmin => exact .inl (by rw [← hs, ← hadmin.pendingInterrupts]; rfl)
  | signalInterrupt id waitDelayNs simulate =>
    exact .inl (foldl_signalForThread_elements id waitDelayNs simulate _ hs)
  | @callback place' hmem s' r' hs' htaken hr =>
    rw [fall_elements]
    by_cases hp : place = place'
    · subst hp
      obtain rfl := Option.some.inj (hs.symm.trans hs')
      refine .inr ⟨rfl, ?_⟩
      show s ∈ (r'.due ++ [_]).map (fun f : Fall => f.signal)
      rw [List.map_append]
      exact List.mem_append_right _ (List.mem_singleton_self s)
    · subst hr
      left
      show update r.gsp.pendingInterrupts.elements place' none place = some s
      rw [update_of_ne hp]
      exact hs
  | consume hdata hne => exact .inl hs
  | configure ignorePdc hdata => exact .inl hs

/-- No interrupt is lost, doubled or given to another session, and none in the array is overwritten,
in a run where each session gets a thread id that nothing is left of. -/
theorem delivered_of_fresh (r : Run) (h : ReachesIf step FreshThreadId init r) :
    r.Delivered ∧ ∀ a r', r.step a = some r' → r.KeepsPending a r' := by
  obtain ⟨haccounted, hbelongs⟩ := h.invariant (I := fun r => r.Accounted ∧ r.Belongs)
    ⟨accounted_init, belongs_init⟩ fun hr hfresh hstep =>
      ⟨hr.1.step hstep, hr.2.step hr.1 hfresh hstep⟩
  exact ⟨haccounted.delivered hbelongs, fun a r' hstep => haccounted.keepsPending hstep⟩

/-! ## Leftovers -/

/-- A session gets the GPU right, and an interrupt with a delay is signalled. -/
def signalsOne : List Action :=
  [.register 0 0, .acquireRight 0 false true, .signalInterrupt .ppf 1000 true]

/-- The interrupt is read before another session gets the thread id. -/
theorem delivered_read :
    ∃ r : Run, r.Delivered ∧ r.read.map (fun p => (p.1, p.2.session)) = [(0, some 0)] := by
  have hfirst : FreshThreadId init .connect := by
    refine fun _ _ _ => ⟨fun _ _ hs => ?_, rfl⟩
    cases hs
  obtain ⟨r₀, hr₀⟩ := Option.isSome_iff_exists.mp
    (show (init.step .connect).isSome = true by decide)
  have hrun : ((Action.connect :: (signalsOne ++ [.callback 0, .consume 0])).foldlM step init).map
      (fun r => r.read.map fun p => (p.1, p.2.session)) = some [(0, some 0)] := by decide +kernel
  rw [List.foldlM_cons, hr₀] at hrun
  obtain ⟨r, hr, hread⟩ := map_eq_some_iff.mp hrun
  have hrest : ReachesIf step FreshThreadId r₀ r := by
    refine ReachesIf.of_foldlM (fun a ha _ heq => ?_) hr
    subst heq
    exact absurd ha (by simp [signalsOne])
  exact ⟨r, (delivered_of_fresh r (((ReachesIf.refl init).tail hfirst hr₀).trans hrest)).1, hread⟩

/-- The session disconnects while its interrupt waits, and another one gets the thread id and the
interrupt. -/
theorem reused_thread_id : ¬∀ r : Run, Reaches step init r → r.Delivered := by
  intro hall
  have hrun : ((Action.connect :: (signalsOne ++
      [.disconnect 0, .connect, .register 1 1, .callback 0])).foldlM step init).map
      (fun r => r.due.map fun f => (f.session, f.signal.session)) = some [(some 1, some 0)] := by
    decide +kernel
  obtain ⟨r, hr, hdue⟩ := map_eq_some_iff.mp hrun
  have hdelivered := hall r (Reaches.of_foldlM hr)
  obtain ⟨f, hf, heq⟩ := List.mem_map.mp (hdue ▸ List.mem_singleton_self (some 1, some 0) :
    (some 1, some 0) ∈ r.due.map fun f => (f.session, f.signal.session))
  have hsession := hdelivered.due f hf 1 (congrArg Prod.fst heq)
  have hother : f.signal.session = some 0 := congrArg Prod.snd heq
  rw [hother] at hsession
  cases hsession

end Run

end GbaStation.Gsp
