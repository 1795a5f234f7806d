import GbaStation.Network.ArticClient

/-!
# Requests and their responses

What holds of the sends and handlers of an Artic client, in every order of their sections.

- `send_protocol`: when every response is for its own request, and nobody waits for a lost entry.
-/

namespace GbaStation.Network

open Function (update update_self update_of_ne update_apply)
open Option (ite_none_right_eq_some)
open Finset (univ mem_univ)

namespace Artic

/-- The entry that a handler works with. -/
def HandlerState.entry {S : Type} : HandlerState S → Option S
  | .working s _ | .erasing s _ | .completing s => some s
  | .starting | .reading | .leaving | .finishing | .exited => none

/-- The handler is not counted as running any more. -/
def HandlerState.finished {S : Type} : HandlerState S → Bool
  | .finishing | .exited => true
  | _ => false

/-- The loop of the handler has ended. -/
def HandlerState.ended {S : Type} : HandlerState S → Bool
  | .leaving | .finishing | .exited => true
  | _ => false

namespace Client

variable {S H : Type} [DecidableEq S] [DecidableEq H] {requestId : S → Nat} {c c' : Client S H}

/-! ## Sections -/

/-- Every entry that is pending has been completed, and none is pending any more. -/
def completeAll (requestId : S → Nat) (c : Client S H) : Client S H :=
  { c with
    pendingResponses := fun _ => none
    entry := fun s =>
      if c.pendingResponses (requestId s) = some s then PendingResponse.complete (c.entry s)
      else c.entry s }

/-- What each section does, and where it is done. -/
inductive Moves (requestId : S → Nat) (c : Client S H) : Event S H → Client S H → Prop
  | begin (s : S) (hready : c.send s = .ready) :
      Moves requestId c (.begin s)
        (c.setSend s (if c.stopped then .returned none else .registering))
  | register (s : S) (hregistering : c.send s = .registering) :
      Moves requestId c (.register s)
        (((c.setEntry s {}).setPending (requestId s) (some s)).setSend s .sending)
  | sent (s : S) (written sent : Bool) (hsending : c.send s = .sending) :
      Moves requestId c (.sendRequestPacket s written) (c.setSend s (.checking sent))
  | notSent (s : S) (written : Bool) (hsending : c.send s = .sending) :
      Moves requestId c (.sendRequestPacket s written) (c.stop.setSend s (.checking false))
  | check (s : S) (sent : Bool) (hchecking : c.send s = .checking sent) :
      Moves requestId c (.check s)
        (c.setSend s (if c.stopped ∨ sent = false then .leaving else .waiting))
  | leave (s : S) (hleaving : c.send s = .leaving) :
      Moves requestId c (.leave s) ((c.setPending (requestId s) none).setSend s (.returned none))
  | wake (s : S) (hwaiting : c.send s = .waiting) (hdone : (c.entry s).isDone = true) :
      Moves requestId c (.wake s) (c.setSend s (.returned (some (c.entry s).response)))
  | noSocket (h : H) (connected : Bool) (hstarting : c.handler h = .starting) :
      Moves requestId c (.connect h false connected) (c.setHandler h .leaving)
  | notConnected (h : H) (created : Bool) (hstarting : c.handler h = .starting) :
      Moves requestId c (.connect h created false) (c.stop.setHandler h .leaving)
  | connected (h : H) (hstarting : c.handler h = .starting) :
      Moves requestId c (.connect h true true) (c.setHandler h .reading)
  | unknown (h : H) (packet : DataPacket) : Moves requestId c (.receive h packet) c
  | receive (h : H) (packet : DataPacket) (s : S) (hreading : c.handler h = .reading)
      (hpending : c.pendingResponses packet.requestId = some s) :
      Moves requestId c (.receive h packet) (c.setHandler h (.working s packet))
  | provided (h : H) (body : List Byte) (s : S) (packet : DataPacket)
      (hworking : c.handler h = .working s packet) :
      Moves requestId c (.work h body true) (c.setHandler h .reading)
  | notProvided (h : H) (body : List Byte) (s : S) (packet : DataPacket)
      (hworking : c.handler h = .working s packet) :
      Moves requestId c (.work h body false) ((c.signalError h).setHandler h (.erasing s packet))
  | work (h : H) (body : List Byte) (done failed : Bool) (s : S) (packet : DataPacket)
      (hworking : c.handler h = .working s packet) (halive : c.Alive s) (c₁ : Client S H)
      (hc₁ : c₁ = c.setEntry s { c.entry s with
        response := (c.entry s).response.fill packet body
        received := (packet, body) :: (c.entry s).received }) :
      Moves requestId c (.work h body done)
        ((if failed then c₁.signalError h else c₁).setHandler h (.erasing s packet))
  | erase (h : H) (s : S) (packet : DataPacket) (herasing : c.handler h = .erasing s packet) :
      Moves requestId c (.erase h)
        ((c.setPending packet.requestId none).setHandler h (.completing s))
  | complete (h : H) (s : S) (hcompleting : c.handler h = .completing s) (halive : c.Alive s) :
      Moves requestId c (.complete h)
        ((c.setEntry s (PendingResponse.complete (c.entry s))).setHandler h .reading)
  | giveUp (h : H) (hreading : c.handler h = .reading) :
      Moves requestId c (.giveUp h) (c.stop.setHandler h .leaving)
  | stopRunning (h : H) (hreading : c.handler h = .reading) (hstopped : c.shouldRun h = false) :
      Moves requestId c (.stopRunning h) (c.setHandler h .leaving)
  | exit (h : H) (hleaving : c.handler h = .leaving) :
      Moves requestId c (.exit h)
        ({ c with
          runningHandlers := c.runningHandlers - 1
          shouldRun := update c.shouldRun h false }.setHandler h
            (if c.runningHandlers - 1 = 0 then .finishing else .exited))
  | finish (h : H) (hfinishing : c.handler h = .finishing) :
      Moves requestId c (.finish h)
        ((c.completeAll requestId).setHandler h .exited)
  | stop : Moves requestId c .stop c.stop
  | stopHandler (h : H) (hstopped : c.stopped = true) :
      Moves requestId c (.stopHandler h)
        { c with shouldRun := update c.shouldRun h false }

variable {e : Event S H} {s : S} {h : H} {state : HandlerState S}

/-- A section is one of these. -/
theorem moves_of_step (h : c.step requestId e = some c') : Moves requestId c e c' := by
  cases e with
  | begin s =>
    obtain ⟨hready, heq⟩ := ite_none_right_eq_some.mp h
    cases heq
    exact .begin s hready
  | register s =>
    obtain ⟨hregistering, heq⟩ := ite_none_right_eq_some.mp h
    cases heq
    exact .register s hregistering
  | sendRequestPacket s written =>
    obtain ⟨hsending, heq⟩ := ite_none_right_eq_some.mp h
    split_ifs at heq
    · cases heq
      exact .sent s written false hsending
    · cases heq
      exact .sent s written true hsending
    · cases heq
      exact .notSent s written hsending
  | check s =>
    change c.check s = some c' at h
    unfold check at h
    split at h
    · rename_i sent hchecking
      cases h
      exact .check s sent hchecking
    · cases h
  | leave s =>
    obtain ⟨hleaving, heq⟩ := ite_none_right_eq_some.mp h
    cases heq
    exact .leave s hleaving
  | wake s =>
    obtain ⟨⟨hwaiting, hdone⟩, heq⟩ := ite_none_right_eq_some.mp h
    cases heq
    exact .wake s hwaiting hdone
  | connect h' created connected =>
    obtain ⟨hstarting, heq⟩ := ite_none_right_eq_some.mp h
    split_ifs at heq with hcreated hconnected
    · cases heq
      subst hcreated
      exact .noSocket h' connected hstarting
    · cases heq
      subst hconnected
      exact .notConnected h' created hstarting
    · cases heq
      obtain rfl := Bool.of_not_eq_false hcreated
      obtain rfl := Bool.of_not_eq_false hconnected
      exact .connected h' hstarting
  | receive h' packet =>
    obtain ⟨⟨hreading, -⟩, heq⟩ := ite_none_right_eq_some.mp h
    split at heq
    · cases heq
      exact .unknown h' packet
    · rename_i s hpending
      cases heq
      exact .receive h' packet s hreading hpending
  | work h' body done =>
    change c.work h' body done = some c' at h
    unfold work at h
    split at h
    · rename_i s packet hworking
      by_cases halive : c.Alive s
      · rw [if_neg (not_not_intro halive)] at h
        by_cases hinput : packet.articResult = provideInput
        · rw [if_pos hinput] at h
          split_ifs at h with hdone
          · cases h
            subst hdone
            exact .provided h' body s packet hworking
          · cases h
            obtain rfl := Bool.of_not_eq_true hdone
            exact .notProvided h' body s packet hworking
        · rw [if_neg hinput] at h
          by_cases hnegative : packet.articResult = success ∧ packet.bufferSize < 0
          · rw [if_pos hnegative] at h
            cases h
          · rw [if_neg hnegative] at h
            cases h
            have hwork : Moves requestId c (.work h' body done) _ := .work h' body done
              (decide (packet.articResult = success ∧ packet.bufferSize ≠ 0 ∧ done = false))
              s packet hworking halive _ rfl
            simpa only [decide_eq_true_eq] using hwork
      · rw [if_pos halive] at h
        cases h
    · cases h
  | erase h' =>
    change c.erase h' = some c' at h
    unfold erase at h
    split at h
    · rename_i s packet herasing
      cases h
      exact .erase h' s packet herasing
    · cases h
  | complete h' =>
    change c.complete h' = some c' at h
    unfold complete at h
    split at h
    · rename_i s hcompleting
      obtain ⟨halive, heq⟩ := ite_none_right_eq_some.mp h
      cases heq
      exact .complete h' s hcompleting halive
    · cases h
  | giveUp h' =>
    obtain ⟨⟨hreading, -⟩, heq⟩ := ite_none_right_eq_some.mp h
    cases heq
    exact .giveUp h' hreading
  | stopRunning h' =>
    obtain ⟨⟨hreading, hstopped⟩, heq⟩ := ite_none_right_eq_some.mp h
    cases heq
    exact .stopRunning h' hreading hstopped
  | exit h' =>
    obtain ⟨hleaving, heq⟩ := ite_none_right_eq_some.mp h
    cases heq
    exact .exit h' hleaving
  | finish h' =>
    obtain ⟨hfinishing, heq⟩ := ite_none_right_eq_some.mp h
    cases heq
    exact .finish h' hfinishing
  | stop =>
    cases h
    exact .stop
  | stopHandler h' =>
    obtain ⟨hstopped, heq⟩ := ite_none_right_eq_some.mp h
    cases heq
    exact .stopHandler h' hstopped

/-! ## Responses -/

/-- The response that a list of packets makes, the last one first. -/
def fillAll (received : List (DataPacket × List Byte)) : Response :=
  received.foldr (fun x r => r.fill x.1 x.2) {}

/-- A response is put together from packets for its own request. -/
structure Sound (requestId : S → Nat) (c : Client S H) : Prop where
  pending : ∀ id s, c.pendingResponses id = some s → requestId s = id
  packets : ∀ h s packet, c.handler h = .working s packet ∨ c.handler h = .erasing s packet →
    packet.requestId = requestId s
  filled : ∀ s, (c.entry s).response = fillAll (c.entry s).received ∧
    ∀ x ∈ (c.entry s).received, x.1.requestId = requestId s
  returned : ∀ s r, c.send s = .returned (some r) → (c.entry s).response = r

namespace Sound

omit [DecidableEq H] in
theorem setSend (hc : Sound requestId c) {state : SendState}
    (hstate : ∀ r, state = .returned (some r) → (c.entry s).response = r) :
    Sound requestId (c.setSend s state) where
  pending := hc.pending
  packets := hc.packets
  filled := hc.filled
  returned := fun s' r hr => by
    unfold Client.setSend at hr
    by_cases hs : s' = s
    · subst hs
      simp only [update_self] at hr
      exact hstate r hr
    · simp only [update_of_ne hs] at hr
      exact hc.returned s' r hr

omit [DecidableEq S] in
theorem setHandler (hc : Sound requestId c)
    (hstate : ∀ s packet, state = .working s packet ∨ state = .erasing s packet →
      packet.requestId = requestId s) : Sound requestId (c.setHandler h state) where
  pending := hc.pending
  packets := fun h' s packet hh => by
    unfold Client.setHandler at hh
    by_cases heq : h' = h
    · subst heq
      simp only [update_self] at hh
      exact hstate s packet hh
    · simp only [update_of_ne heq] at hh
      exact hc.packets h' s packet hh
  filled := hc.filled
  returned := hc.returned

omit [DecidableEq S] [DecidableEq H] in
theorem setPending (hc : Sound requestId c) {id : Nat} {o : Option S}
    (ho : ∀ s, o = some s → requestId s = id) : Sound requestId (c.setPending id o) where
  pending := fun id' s hs => by
    unfold Client.setPending at hs
    by_cases heq : id' = id
    · subst heq
      simp only [update_self] at hs
      exact ho s hs
    · simp only [update_of_ne heq] at hs
      exact hc.pending id' s hs
  packets := hc.packets
  filled := hc.filled
  returned := hc.returned

omit [DecidableEq H] in
theorem setEntry (hc : Sound requestId c) {entry : PendingResponse}
    (hfilled : entry.response = fillAll entry.received ∧
      ∀ x ∈ entry.received, x.1.requestId = requestId s)
    (hreturned : ∀ r, c.send s = .returned (some r) → entry.response = r) :
    Sound requestId (c.setEntry s entry) where
  pending := hc.pending
  packets := hc.packets
  filled := fun s' => by
    unfold Client.setEntry
    by_cases heq : s' = s
    · subst heq
      simp only [update_self]
      exact hfilled
    · simp only [update_of_ne heq]
      exact hc.filled s'
  returned := fun s' r hr => by
    unfold Client.setEntry
    by_cases heq : s' = s
    · subst heq
      simp only [update_self]
      exact hreturned r hr
    · simp only [update_of_ne heq]
      exact hc.returned s' r hr

omit [DecidableEq S] [DecidableEq H] in
theorem stop (hc : Sound requestId c) : Sound requestId c.stop :=
  ⟨hc.pending, hc.packets, hc.filled, hc.returned⟩

omit [DecidableEq S] [DecidableEq H] in
theorem signalError (hc : Sound requestId c) (h : H) : Sound requestId (c.signalError h) := by
  unfold Client.signalError
  split_ifs
  · exact hc.stop
  · exact hc

omit [DecidableEq S] in
/-- A state of a handler that has no packet. -/
theorem setHandler_idle (hc : Sound requestId c) (hworking : ∀ s packet, state ≠ .working s packet)
    (herasing : ∀ s packet, state ≠ .erasing s packet) : Sound requestId (c.setHandler h state) :=
  hc.setHandler fun s packet hstate =>
    hstate.elim (fun heq => (hworking s packet heq).elim) fun heq => (herasing s packet heq).elim

/-- Sections keep the packets apart. -/
theorem moves (hc : Sound requestId c) (hmoves : Moves requestId c e c') : Sound requestId c' := by
  cases hmoves with
  | begin s hready =>
    refine hc.setSend fun r hr => ?_
    split_ifs at hr
    cases hr
  | register s hregistering =>
    refine Sound.setSend (Sound.setPending (hc.setEntry ⟨rfl, List.forall_mem_nil _⟩ ?_) ?_) ?_
    · intro r hr
      cases hregistering.symm.trans hr
    · rintro s' hs'
      cases hs'
      rfl
    · rintro r hr
      cases hr
  | sent s written sent hsending => exact hc.setSend fun r hr => by cases hr
  | notSent s written hsending => exact hc.stop.setSend fun r hr => by cases hr
  | check s sent hchecking =>
    refine hc.setSend fun r hr => ?_
    split_ifs at hr
  | leave s hleaving =>
    exact (hc.setPending fun s' hs' => by cases hs').setSend fun r hr => by cases hr
  | wake s hwaiting hdone =>
    refine hc.setSend fun r hr => ?_
    cases hr
    rfl
  | noSocket h connected hstarting => exact hc.setHandler_idle (by simp) (by simp)
  | notConnected h created hstarting => exact hc.stop.setHandler_idle (by simp) (by simp)
  | connected h hstarting => exact hc.setHandler_idle (by simp) (by simp)
  | unknown h packet => exact hc
  | receive h packet s hreading hpending =>
    refine hc.setHandler fun s' packet' hstate => ?_
    rcases hstate with heq | heq
    · cases heq
      exact (hc.pending _ _ hpending).symm
    · cases heq
  | provided h body s packet hworking => exact hc.setHandler_idle (by simp) (by simp)
  | notProvided h body s packet hworking =>
    refine (hc.signalError h).setHandler fun s' packet' hstate => ?_
    rcases hstate with heq | heq
    · cases heq
    · cases heq
      exact hc.packets h _ _ (.inl hworking)
  | work h body done failed s packet hworking halive c₁ hc₁ =>
    have hpacket : packet.requestId = requestId s := hc.packets h _ _ (.inl hworking)
    have hentry : Sound requestId c₁ := by
      rw [hc₁]
      refine hc.setEntry ⟨?_, List.forall_mem_cons.mpr ⟨hpacket, (hc.filled s).2⟩⟩ ?_
      · unfold fillAll
        rw [List.foldr_cons]
        exact congrArg (fun r => Response.fill r packet body) (hc.filled s).1
      · intro r hr
        unfold Alive at halive
        rw [hr] at halive
        cases halive
    have hsignal : Sound requestId (if failed then c₁.signalError h else c₁) := by
      split_ifs
      · exact hentry.signalError h
      · exact hentry
    refine hsignal.setHandler fun s' packet' hstate => ?_
    rcases hstate with heq | heq
    · cases heq
    · cases heq
      exact hpacket
  | erase h s packet herasing =>
    exact (hc.setPending fun s' hs' => by cases hs').setHandler_idle (by simp) (by simp)
  | complete h s hcompleting halive =>
    have hentry : Sound requestId (c.setEntry s (PendingResponse.complete (c.entry s))) :=
      hc.setEntry (hc.filled s) fun r hr => hc.returned s r hr
    exact hentry.setHandler_idle (by simp) (by simp)
  | giveUp h hreading => exact hc.stop.setHandler_idle (by simp) (by simp)
  | stopRunning h hreading hstopped => exact hc.setHandler_idle (by simp) (by simp)
  | exit h hleaving =>
    have hexit : Sound requestId { c with
        runningHandlers := c.runningHandlers - 1
        shouldRun := update c.shouldRun h false } :=
      ⟨hc.pending, hc.packets, hc.filled, hc.returned⟩
    refine hexit.setHandler fun s packet hstate => ?_
    split_ifs at hstate
    · rcases hstate with heq | heq <;> cases heq
    · rcases hstate with heq | heq <;> cases heq
  | finish h hfinishing =>
    have hresponse : ∀ s, ((c.completeAll requestId).entry s).response = (c.entry s).response ∧
        ((c.completeAll requestId).entry s).received = (c.entry s).received := by
      intro s
      simp only [completeAll]
      split_ifs <;> exact ⟨rfl, rfl⟩
    have hfinish : Sound requestId (c.completeAll requestId) := by
      refine ⟨fun _ _ heq => ?_, hc.packets, fun s => ?_, fun s r hr => ?_⟩
      · cases heq
      · rw [(hresponse s).1, (hresponse s).2]
        exact hc.filled s
      · rw [(hresponse s).1]
        exact hc.returned s r hr
    exact hfinish.setHandler_idle (by simp) (by simp)
  | stop => exact hc.stop
  | stopHandler h hstopped => exact ⟨hc.pending, hc.packets, hc.filled, hc.returned⟩

end Sound

/-! ## Handlers -/

/-- The sections after which no entry is lost. -/
def Allowed (requestId : S → Nat) (c : Client S H) : Event S H → Prop
  | .register s => ∀ s', c.Alive s' → requestId s' ≠ requestId s
  | .leave s => ∀ h, (c.handler h).entry ≠ some s
  | .connect _ created _ => created = true
  | .receive _ packet => ∀ h s, (c.handler h).entry = some s → requestId s ≠ packet.requestId
  | _ => True

instance [Fintype S] [Fintype H] (requestId : S → Nat) (c : Client S H) :
    (e : Event S H) → Decidable (Allowed requestId c e)
  | .register _ | .leave _ | .connect _ _ _ => by unfold Allowed; infer_instance
  | .receive _ packet => decidable_of_iff
      (∀ h, ∀ s ∈ (c.handler h).entry, requestId s ≠ packet.requestId) Iff.rfl
  | .begin _ | .sendRequestPacket _ _ | .check _ | .wake _ | .work _ _ _ | .erase _ | .complete _
  | .giveUp _ | .stopRunning _ | .exit _ | .finish _ | .stop | .stopHandler _ =>
    inferInstanceAs (Decidable True)

/-- Handlers end when the client has stopped, and the last one finishes. -/
structure Handlers [Fintype H] (c : Client S H) : Prop where
  ended : ∀ h, (c.handler h).ended = true → c.stopped = true
  shouldRun : ∀ h, c.shouldRun h = false → c.stopped = true
  running : c.runningHandlers =
    (univ.filter fun h => (c.handler h).finished = false).card
  finishing : ∀ h, c.handler h = .finishing → c.runningHandlers = 0

namespace Handlers

variable [Fintype H]

omit [DecidableEq S] [DecidableEq H] in
/-- What the handlers do not see. -/
theorem congr (hc : Handlers c) (hstopped : c.stopped = true → c'.stopped = true)
    (hhandler : c'.handler = c.handler) (hrun : c'.shouldRun = c.shouldRun)
    (hrunning : c'.runningHandlers = c.runningHandlers) : Handlers c' where
  ended := fun h hended => hstopped (hc.ended h (hhandler ▸ hended))
  shouldRun := fun h hshould => hstopped (hc.shouldRun h (hrun ▸ hshould))
  running := by
    rw [hrunning, hhandler]
    exact hc.running
  finishing := fun h hfinishing => by
    rw [hrunning]
    exact hc.finishing h (hhandler ▸ hfinishing)

omit [DecidableEq S] [DecidableEq H] in
theorem signalError (hc : Handlers c) (h : H) : Handlers (c.signalError h) := by
  unfold Client.signalError
  split_ifs
  · exact hc.congr (fun _ => rfl) rfl rfl rfl
  · exact hc

omit [DecidableEq S] in
/-- A handler that is counted before and after, or neither. -/
theorem setHandler (hc : Handlers c) {before : HandlerState S} (hbefore : c.handler h = before)
    (hcounted : state.finished = before.finished) (hended : state.ended = true → c.stopped = true)
    (hnot : state ≠ .finishing) :
    Handlers (c.setHandler h state) where
  ended := fun h' hended' => by
    unfold Client.setHandler at hended' ⊢
    by_cases heq : h' = h
    · subst heq
      simp only [update_self] at hended'
      exact hended hended'
    · simp only [update_of_ne heq] at hended'
      exact hc.ended h' hended'
  shouldRun := hc.shouldRun
  running := by
    have hsame : ∀ h', ((c.setHandler h state).handler h').finished = (c.handler h').finished := by
      intro h'
      unfold Client.setHandler
      by_cases heq : h' = h
      · subst heq
        simp only [update_self, hbefore, hcounted]
      · simp only [update_of_ne heq]
    simp only [hsame]
    exact hc.running
  finishing := fun h' hfinishing => by
    unfold Client.setHandler at hfinishing
    by_cases heq : h' = h
    · subst heq
      simp only [update_self] at hfinishing
      exact absurd hfinishing hnot
    · simp only [update_of_ne heq] at hfinishing
      exact hc.finishing h' hfinishing

omit [DecidableEq S] [DecidableEq H] in
/-- When no handler is counted, each has finished or is finishing. -/
theorem finished (hc : Handlers c) (hzero : c.runningHandlers = 0) (h : H) :
    (c.handler h).finished = true := by
  rw [hc.running, Finset.card_eq_zero] at hzero
  by_contra hnot
  have hmem : h ∈ univ.filter fun h => (c.handler h).finished = false :=
    Finset.mem_filter.mpr ⟨mem_univ h, Bool.of_not_eq_true hnot⟩
  rw [hzero] at hmem
  cases hmem

theorem moves (hc : Handlers c) (hallowed : Allowed requestId c e) (hmoves : Moves requestId c e c')
    :
    Handlers c' := by
  cases hmoves with
  | begin s hready => exact hc.congr id rfl rfl rfl
  | register s hregistering => exact hc.congr id rfl rfl rfl
  | sent s written sent hsending => exact hc.congr id rfl rfl rfl
  | notSent s written hsending => exact hc.congr (fun _ => rfl) rfl rfl rfl
  | check s sent hchecking => exact hc.congr id rfl rfl rfl
  | leave s hleaving => exact hc.congr id rfl rfl rfl
  | wake s hwaiting hdone => exact hc.congr id rfl rfl rfl
  | noSocket h connected hstarting => cases hallowed
  | notConnected h created hstarting =>
    have hstop : Handlers c.stop := hc.congr (fun _ => rfl) rfl rfl rfl
    exact hstop.setHandler hstarting rfl (fun _ => rfl) (by simp)
  | connected h hstarting =>
    exact hc.setHandler hstarting rfl (fun hended => by cases hended) (by simp)
  | unknown h packet => exact hc
  | receive h packet s hreading hpending =>
    exact hc.setHandler hreading rfl (fun hended => by cases hended) (by simp)
  | provided h body s packet hworking =>
    exact hc.setHandler hworking rfl (fun hended => by cases hended) (by simp)
  | notProvided h body s packet hworking =>
    have hhandler : (c.signalError h).handler h = .working s packet := by
      rw [← hworking]
      unfold Client.signalError
      split_ifs <;> rfl
    exact (hc.signalError h).setHandler hhandler rfl (fun hended => by cases hended) (by simp)
  | work h body done failed s packet hworking halive c₁ hc₁ =>
    have hentry : Handlers c₁ := by
      rw [hc₁]
      exact hc.congr id rfl rfl rfl
    have hsignal : Handlers (if failed then c₁.signalError h else c₁) := by
      split_ifs
      · exact hentry.signalError h
      · exact hentry
    have hhandler : (if failed then c₁.signalError h else c₁).handler h = .working s packet := by
      rw [← hworking, hc₁]
      unfold Client.signalError
      split_ifs <;> rfl
    exact hsignal.setHandler hhandler rfl (fun hended => by cases hended) (by simp)
  | erase h s packet herasing =>
    have hpending : Handlers (c.setPending packet.requestId none) := hc.congr id rfl rfl rfl
    exact hpending.setHandler herasing rfl (fun hended => by cases hended) (by simp)
  | complete h s hcompleting halive =>
    have hentry : Handlers (c.setEntry s (PendingResponse.complete (c.entry s))) :=
      hc.congr id rfl rfl rfl
    exact hentry.setHandler hcompleting rfl (fun hended => by cases hended) (by simp)
  | giveUp h hreading =>
    have hstop : Handlers c.stop := hc.congr (fun _ => rfl) rfl rfl rfl
    exact hstop.setHandler hreading rfl (fun _ => rfl) (by simp)
  | stopRunning h hreading hstopped =>
    exact hc.setHandler hreading rfl (fun _ => hc.shouldRun h hstopped) (by simp)
  | exit h hleaving =>
    have hstopped : c.stopped = true := hc.ended h (by rw [hleaving]; rfl)
    have hcounted : h ∈ univ.filter fun h => (c.handler h).finished = false :=
      Finset.mem_filter.mpr ⟨mem_univ h, by rw [hleaving]; rfl⟩
    generalize hstate : (if c.runningHandlers - 1 = 0 then HandlerState.finishing
      else HandlerState.exited (S := S)) = state
    have hfinished : state.finished = true := by
      rw [← hstate]
      split_ifs <;> rfl
    refine ⟨fun _ _ => hstopped, fun _ _ => hstopped, ?_, fun h' hfinishing => ?_⟩
    · -- The handler is no longer counted.
      have herase : (univ.filter fun h' =>
          (update c.handler h state h').finished = false) =
          (univ.filter fun h' => (c.handler h').finished = false).erase h := by
        ext h'
        simp only [Finset.mem_filter, mem_univ, true_and, Finset.mem_erase]
        by_cases heq : h' = h
        · subst heq
          simp [hfinished]
        · simp [heq]
      have hcard := Finset.card_erase_of_mem hcounted
      rw [← herase, ← hc.running] at hcard
      exact hcard.symm
    · unfold Client.setHandler at hfinishing
      show c.runningHandlers - 1 = 0
      by_cases heq : h' = h
      · subst heq
        simp only [update_self] at hfinishing
        by_contra hne
        rw [if_neg hne] at hstate
        cases hstate.trans hfinishing
      · simp only [update_of_ne heq] at hfinishing
        have hzero := hc.finishing h' hfinishing
        omega
  | finish h hfinishing =>
    have hstopped : c.stopped = true := hc.ended h (by rw [hfinishing]; rfl)
    have hfinish : Handlers (c.completeAll requestId) := hc.congr id rfl rfl rfl
    exact hfinish.setHandler hfinishing rfl (fun _ => hstopped) (by simp)
  | stop => exact hc.congr (fun _ => rfl) rfl rfl rfl
  | stopHandler h hstopped =>
    exact ⟨fun _ _ => hstopped, fun _ _ => hstopped, hc.running, hc.finishing⟩

end Handlers

/-! ## Entries -/

omit [DecidableEq S] in
/-- A handler's section, with the entry it works with. -/
theorem entry_setHandler (h h' : H) (state : HandlerState S) :
    (c.setHandler h state).handler h' = if h' = h then state else c.handler h' :=
  update_apply ..

omit [DecidableEq S] in
theorem not_exited_setHandler (hstate : state ≠ .exited) :
    ¬∀ h', (c.setHandler h state).handler h' = .exited := by
  intro hall
  have hself := hall h
  rw [entry_setHandler, if_pos rfl] at hself
  exact hstate hself

/-- Each entry is pending, in the hands of one handler, or done, and there until then. -/
structure Entries (requestId : S → Nat) (c : Client S H) : Prop where
  heldAlive : ∀ h s, (c.handler h).entry = some s → c.Alive s
  heldUndone : ∀ h s, (c.handler h).entry = some s → (c.entry s).isDone = false
  one : ∀ h h' s, (c.handler h).entry = some s → (c.handler h').entry = some s → h = h'
  pendingId : ∀ id s, c.pendingResponses id = some s → requestId s = id
  pendingAlive : ∀ id s, c.pendingResponses id = some s → c.Alive s
  pendingUndone : ∀ id s, c.pendingResponses id = some s → (c.entry s).isDone = false
  lookedId : ∀ h s packet, c.handler h = .working s packet ∨ c.handler h = .erasing s packet →
    packet.requestId = requestId s
  lookedPending : ∀ h s packet,
    c.handler h = .working s packet ∨ c.handler h = .erasing s packet →
      c.pendingResponses (requestId s) = some s
  erased : ∀ h s, c.handler h = .completing s → c.pendingResponses (requestId s) ≠ some s
  unanswered : ∀ s, c.Alive s → (c.entry s).isDone = true ∨
    c.pendingResponses (requestId s) = some s ∨ ∃ h, c.handler h = .completing s
  ids : ∀ s s', c.Alive s → c.Alive s' → requestId s = requestId s' → s = s'
  completions : ∀ s, (c.entry s).completions = if (c.entry s).isDone then 1 else 0
  received : ∀ s, (c.entry s).received = [] ∨ (∃ x, (c.entry s).received = [x]) ∧
    ((c.entry s).isDone = true ∨
      ∃ h, (∃ packet, c.handler h = .erasing s packet) ∨ c.handler h = .completing s)

namespace Entries

omit [DecidableEq S] [DecidableEq H] in
/-- What the entries do not see. -/
theorem congr (hc : Entries requestId c) (halive : ∀ s, c'.Alive s ↔ c.Alive s)
    (hentry : c'.entry = c.entry) (hpending : c'.pendingResponses = c.pendingResponses)
    (hhandler : c'.handler = c.handler) : Entries requestId c' := by
  obtain ⟨h1, h2, h3, h4, h5, h6, h7, h8, h9, h10, h11, h12, h13⟩ := hc
  constructor
  all_goals simp only [hentry, hpending, hhandler, halive]
  all_goals assumption

omit [DecidableEq H] in
theorem alive_setSend (s' : S) (state : SendState) :
    (c.setSend s state).Alive s' ↔ if s' = s then state.active = true else c.Alive s' := by
  unfold Alive Client.setSend
  by_cases heq : s' = s
  · subst heq
    simp only [update_self, if_true]
  · simp only [update_of_ne heq, if_neg heq]

omit [DecidableEq H] in
theorem setSend (hc : Entries requestId c) {before state : SendState} (hbefore : c.send s = before)
    (hactive : state.active = before.active) : Entries requestId (c.setSend s state) := by
  refine hc.congr (fun s' => ?_) rfl rfl rfl
  rw [alive_setSend]
  split_ifs with heq
  · rw [heq, Alive, hbefore, hactive]
  · rfl

omit [DecidableEq S] [DecidableEq H] in
theorem stop (hc : Entries requestId c) : Entries requestId c.stop :=
  hc.congr (fun _ => Iff.rfl) rfl rfl rfl

omit [DecidableEq S] [DecidableEq H] in
theorem signalError (hc : Entries requestId c) (h : H) :
    Entries requestId (c.signalError h) := by
  unfold Client.signalError
  split_ifs
  · exact hc.stop
  · exact hc

/-- What a handler goes on to while the entries stay as they are. -/
inductive Turn (requestId : S → Nat) (c : Client S H) : HandlerState S → HandlerState S → Prop
  /-- Without an entry, before and after. -/
  | idle {before state : HandlerState S} (hnone : before.entry = none) (hstate : state.entry = none) :
      Turn requestId c before state
  /-- It looks up an entry that no other works with. -/
  | receive {s : S} {packet : DataPacket} (hfound : c.pendingResponses packet.requestId = some s)
      (hfree : ∀ h s, (c.handler h).entry = some s → requestId s ≠ packet.requestId) :
      Turn requestId c .reading (.working s packet)
  /-- It goes on reading, with the entry still pending. -/
  | provided {s : S} {packet : DataPacket} : Turn requestId c (.working s packet) .reading
  | notProvided {s : S} {packet : DataPacket} :
      Turn requestId c (.working s packet) (.erasing s packet)

omit [DecidableEq S] in
theorem setHandler (hc : Entries requestId c) {before : HandlerState S}
    (hbefore : c.handler h = before) (hturn : Turn requestId c before state) :
    Entries requestId (c.setHandler h state) := by
  have halive : ∀ s, (c.setHandler h state).Alive s ↔ c.Alive s := fun _ => Iff.rfl
  have hentry : (c.setHandler h state).entry = c.entry := rfl
  have hpending : (c.setHandler h state).pendingResponses = c.pendingResponses := rfl
  have hhandler := fun h' => entry_setHandler (c := c) h h' state
  generalize c.setHandler h state = c' at *
  obtain ⟨h1, h2, h3, h4, h5, h6, h7, h8, h9, h10, h11, h12, h13⟩ := hc
  cases hturn
  all_goals
    constructor
    all_goals simp only [halive, hentry, hpending, hhandler]
    all_goals grind [HandlerState.entry]

omit [DecidableEq H] in
/-- The new entry takes no other's place. -/
theorem register (hc : Entries requestId c) (hregistering : c.send s = .registering)
    (hfree : ∀ s', c.Alive s' → requestId s' ≠ requestId s) :
    Entries requestId
      (((c.setEntry s {}).setPending (requestId s) (some s)).setSend s .sending) := by
  have hdead : ¬c.Alive s := by
    unfold Alive
    rw [hregistering]
    decide
  generalize hc' : ((c.setEntry s {}).setPending (requestId s) (some s)).setSend s .sending = c'
  have halive : ∀ s', c'.Alive s' ↔ if s' = s then true = true else c.Alive s' := by
    rw [← hc']
    exact fun s' => alive_setSend s' _
  have hentry : ∀ s', c'.entry s' = if s' = s then {} else c.entry s' := by
    rw [← hc']
    exact fun s' => update_apply ..
  have hpending : ∀ id, c'.pendingResponses id =
      if id = requestId s then some s else c.pendingResponses id := by
    rw [← hc']
    exact fun id => update_apply ..
  have hhandler : c'.handler = c.handler := by
    rw [← hc']
    rfl
  clear hc'
  obtain ⟨h1, h2, h3, h4, h5, h6, h7, h8, h9, h10, h11, h12, h13⟩ := hc
  constructor
  all_goals simp only [halive, hentry, hpending, hhandler]
  all_goals grind [HandlerState.entry]

omit [DecidableEq H] in
/-- A `Send` returns with an entry that nobody refers to. -/
theorem returns (hc : Entries requestId c) {result : Option Response}
    (hheld : ∀ h, (c.handler h).entry ≠ some s) (hnot : ∀ id, c.pendingResponses id ≠ some s) :
    Entries requestId (c.setSend s (.returned result)) := by
  have halive : ∀ s', (c.setSend s (.returned result)).Alive s' ↔
      if s' = s then false = true else c.Alive s' := fun s' => alive_setSend s' _
  have hentry : (c.setSend s (.returned result)).entry = c.entry := rfl
  have hpending : (c.setSend s (.returned result)).pendingResponses = c.pendingResponses := rfl
  have hhandler : (c.setSend s (.returned result)).handler = c.handler := rfl
  generalize c.setSend s (.returned result) = c' at *
  obtain ⟨h1, h2, h3, h4, h5, h6, h7, h8, h9, h10, h11, h12, h13⟩ := hc
  constructor
  all_goals simp only [halive, hentry, hpending, hhandler]
  all_goals grind

omit [DecidableEq H] in
/-- A `Send` returns on the path of errors, with an entry that no handler works with. -/
theorem leave (hc : Entries requestId c) (hleaving : c.send s = .leaving)
    (hheld : ∀ h, (c.handler h).entry ≠ some s) :
    Entries requestId ((c.setPending (requestId s) none).setSend s (.returned none)) := by
  have hsend : c.Alive s := by
    unfold Alive
    rw [hleaving]
    rfl
  generalize hc' : (c.setPending (requestId s) none).setSend s (.returned none) = c'
  have halive : ∀ s', c'.Alive s' ↔ if s' = s then false = true else c.Alive s' := by
    rw [← hc']
    exact fun s' => alive_setSend s' _
  have hentry : c'.entry = c.entry := by
    rw [← hc']
    rfl
  have hpending : ∀ id, c'.pendingResponses id =
      if id = requestId s then none else c.pendingResponses id := by
    rw [← hc']
    exact fun id => update_apply ..
  have hhandler : c'.handler = c.handler := by
    rw [← hc']
    rfl
  clear hc'
  obtain ⟨h1, h2, h3, h4, h5, h6, h7, h8, h9, h10, h11, h12, h13⟩ := hc
  constructor
  all_goals simp only [halive, hentry, hpending, hhandler]
  all_goals grind [HandlerState.entry]

variable {packet : DataPacket}

/-- The response is filled once, by the handler that works with the entry. -/
theorem work (hc : Entries requestId c) (hworking : c.handler h = .working s packet)
    (body : List Byte) (response : Response) :
    Entries requestId ((c.setEntry s { c.entry s with
      response := response
      received := (packet, body) :: (c.entry s).received }).setHandler h (.erasing s packet)) := by
  have hnone : (c.entry s).received = [] := by
    rcases hc.received s with hnil | ⟨-, hdone | ⟨h', ⟨packet', hh'⟩ | hh'⟩⟩
    · exact hnil
    · exact absurd hdone (by simp [hc.heldUndone h s (by rw [hworking]; rfl)])
    · have heq := hc.one h h' s (by rw [hworking]; rfl) (by rw [hh']; rfl)
      subst heq
      cases hworking.symm.trans hh'
    · have heq := hc.one h h' s (by rw [hworking]; rfl) (by rw [hh']; rfl)
      subst heq
      cases hworking.symm.trans hh'
  generalize hnew : ({ c.entry s with
    response := response
    received := (packet, body) :: (c.entry s).received } : PendingResponse) = entry
  have hdone : entry.isDone = (c.entry s).isDone := by
    rw [← hnew]
  have hcompletions : entry.completions = (c.entry s).completions := by
    rw [← hnew]
  have hreceived : entry.received = [(packet, body)] := by
    rw [← hnew, hnone]
  have halive : ∀ s', ((c.setEntry s entry).setHandler h (.erasing s packet)).Alive s' ↔
      c.Alive s' := fun _ => Iff.rfl
  have hentry : ∀ s', ((c.setEntry s entry).setHandler h (.erasing s packet)).entry s' =
      if s' = s then entry else c.entry s' := fun s' => update_apply ..
  have hpending : ((c.setEntry s entry).setHandler h (.erasing s packet)).pendingResponses =
    c.pendingResponses := rfl
  have hhandler := fun h' => entry_setHandler (c := c.setEntry s entry) h h' (.erasing s packet)
  have hsame : (c.setEntry s entry).handler = c.handler := rfl
  rw [hsame] at hhandler
  generalize (c.setEntry s entry).setHandler h (.erasing s packet) = c' at *
  clear hnew hsame
  obtain ⟨h1, h2, h3, h4, h5, h6, h7, h8, h9, h10, h11, h12, h13⟩ := hc
  constructor
  all_goals simp only [halive, hentry, hpending, hhandler]
  all_goals grind [HandlerState.entry]

omit [DecidableEq S] in
/-- The entry of the request is no longer pending; no other is taken away. -/
theorem erase (hc : Entries requestId c) (herasing : c.handler h = .erasing s packet) :
    Entries requestId ((c.setPending packet.requestId none).setHandler h (.completing s)) := by
  have halive : ∀ s', ((c.setPending packet.requestId none).setHandler h (.completing s)).Alive s' ↔
      c.Alive s' := fun _ => Iff.rfl
  have hentry : ((c.setPending packet.requestId none).setHandler h (.completing s)).entry =
    c.entry := rfl
  have hpending : ∀ id,
      ((c.setPending packet.requestId none).setHandler h (.completing s)).pendingResponses id =
        if id = packet.requestId then none else c.pendingResponses id :=
    fun id => update_apply ..
  have hhandler := fun h' =>
    entry_setHandler (c := c.setPending packet.requestId none) h h' (.completing s)
  have hsame : (c.setPending packet.requestId none).handler = c.handler := rfl
  rw [hsame] at hhandler
  generalize (c.setPending packet.requestId none).setHandler h (.completing s) = c' at *
  clear hsame
  obtain ⟨h1, h2, h3, h4, h5, h6, h7, h8, h9, h10, h11, h12, h13⟩ := hc
  constructor
  all_goals simp only [halive, hentry, hpending, hhandler]
  all_goals grind [HandlerState.entry]

/-- The handler is done with the entry, for the first time. -/
theorem complete (hc : Entries requestId c) (hcompleting : c.handler h = .completing s) :
    Entries requestId
      ((c.setEntry s (PendingResponse.complete (c.entry s))).setHandler h .reading) := by
  have hdone : (PendingResponse.complete (c.entry s)).isDone = true := rfl
  have hcompletions : (PendingResponse.complete (c.entry s)).completions =
    (c.entry s).completions + 1 := rfl
  have hreceived : (PendingResponse.complete (c.entry s)).received = (c.entry s).received := rfl
  generalize PendingResponse.complete (c.entry s) = entry at *
  have halive : ∀ s', ((c.setEntry s entry).setHandler h .reading).Alive s' ↔ c.Alive s' :=
    fun _ => Iff.rfl
  have hentry : ∀ s', ((c.setEntry s entry).setHandler h .reading).entry s' =
      if s' = s then entry else c.entry s' := fun s' => update_apply ..
  have hpending : ((c.setEntry s entry).setHandler h .reading).pendingResponses =
    c.pendingResponses := rfl
  have hhandler := fun h' => entry_setHandler (c := c.setEntry s entry) h h' .reading
  have hsame : (c.setEntry s entry).handler = c.handler := rfl
  rw [hsame] at hhandler
  generalize (c.setEntry s entry).setHandler h .reading = c' at *
  clear hsame
  obtain ⟨h1, h2, h3, h4, h5, h6, h7, h8, h9, h10, h11, h12, h13⟩ := hc
  constructor
  all_goals simp only [halive, hentry, hpending, hhandler]
  all_goals grind [HandlerState.entry]

/-- What is pending is done; no handler works with an entry any more. -/
theorem finish (hc : Entries requestId c) {h : H} (hfree : ∀ h, (c.handler h).entry = none) :
    Entries requestId ((c.completeAll requestId).setHandler h .exited) := by
  have hdone : ∀ s, (PendingResponse.complete (c.entry s)).isDone = true := fun _ => rfl
  have hcompletions : ∀ s, (PendingResponse.complete (c.entry s)).completions =
    (c.entry s).completions + 1 := fun _ => rfl
  have hreceived : ∀ s, (PendingResponse.complete (c.entry s)).received =
    (c.entry s).received := fun _ => rfl
  generalize hc' : c.completeAll requestId = c₁
  have halive : ∀ s, (c₁.setHandler h .exited).Alive s ↔ c.Alive s := by
    rw [← hc']
    exact fun _ => Iff.rfl
  have hentry : ∀ s, (c₁.setHandler h .exited).entry s =
      if c.pendingResponses (requestId s) = some s then PendingResponse.complete (c.entry s)
      else c.entry s := by
    rw [← hc']
    exact fun _ => rfl
  have hpending : ∀ id, (c₁.setHandler h .exited).pendingResponses id = none := by
    rw [← hc']
    exact fun _ => rfl
  have hhandler : ∀ h', ((c₁.setHandler h .exited).handler h').entry = none := by
    intro h'
    rw [entry_setHandler, ← hc']
    split_ifs
    · rfl
    · exact hfree h'
  generalize c₁.setHandler h .exited = c' at *
  clear hc'
  obtain ⟨h1, h2, h3, h4, h5, h6, h7, h8, h9, h10, h11, h12, h13⟩ := hc
  have hworking : ∀ h' s packet, c'.handler h' ≠ .working s packet := by
    grind [HandlerState.entry]
  have herasing : ∀ h' s packet, c'.handler h' ≠ .erasing s packet := by
    grind [HandlerState.entry]
  have hcompleting : ∀ h' s, c'.handler h' ≠ .completing s := by
    grind [HandlerState.entry]
  have hnotErasing : ∀ h s packet, c.handler h ≠ .erasing s packet := by
    grind [HandlerState.entry]
  have hnotCompleting : ∀ h s, c.handler h ≠ .completing s := by
    grind [HandlerState.entry]
  constructor
  all_goals grind

variable [Fintype H]

theorem moves (hc : Entries requestId c) (hhandlers : Handlers c) (hallowed : Allowed requestId c e)
    (hmoves : Moves requestId c e c') : Entries requestId c' := by
  cases hmoves with
  | begin s hready =>
    refine hc.setSend hready ?_
    split_ifs <;> rfl
  | register s hregistering => exact hc.register hregistering hallowed
  | sent s written sent hsending => exact hc.setSend hsending rfl
  | notSent s written hsending => exact hc.stop.setSend hsending rfl
  | check s sent hchecking =>
    refine hc.setSend hchecking ?_
    split_ifs <;> rfl
  | leave s hleaving => exact hc.leave hleaving hallowed
  | wake s hwaiting hdone =>
    refine hc.returns (fun h hheld => ?_) fun id hpending => ?_
    · exact absurd hdone (by simp [hc.heldUndone h s hheld])
    · exact absurd hdone (by simp [hc.pendingUndone id s hpending])
  | noSocket h connected hstarting => exact hc.setHandler hstarting (.idle rfl rfl)
  | notConnected h created hstarting => exact hc.stop.setHandler hstarting (.idle rfl rfl)
  | connected h hstarting => exact hc.setHandler hstarting (.idle rfl rfl)
  | unknown h packet => exact hc
  | receive h packet s hreading hpending =>
    exact hc.setHandler hreading (.receive hpending hallowed)
  | provided h body s packet hworking => exact hc.setHandler hworking .provided
  | notProvided h body s packet hworking =>
    have hworking' : (c.signalError h).handler h = .working s packet := by
      rw [← hworking]
      unfold Client.signalError
      split_ifs <;> rfl
    exact (hc.signalError h).setHandler hworking' .notProvided
  | work h body done failed s packet hworking halive c₁ hc₁ =>
    have hwork := hc.work hworking body ((c.entry s).response.fill packet body)
    rw [← hc₁] at hwork
    split_ifs
    · refine hwork.congr (fun s' => ?_) ?_ ?_ ?_
      all_goals
        unfold Client.signalError
        split_ifs
      all_goals rfl
    · exact hwork
  | erase h s packet herasing => exact hc.erase herasing
  | complete h s hcompleting halive => exact hc.complete hcompleting
  | giveUp h hreading => exact hc.stop.setHandler hreading (.idle rfl rfl)
  | stopRunning h hreading hstopped => exact hc.setHandler hreading (.idle rfl rfl)
  | exit h hleaving =>
    have hexit : Entries requestId { c with
        runningHandlers := c.runningHandlers - 1
        shouldRun := update c.shouldRun h false } :=
      hc.congr (fun _ => Iff.rfl) rfl rfl rfl
    refine hexit.setHandler hleaving (.idle rfl ?_)
    split_ifs <;> rfl
  | finish h hfinishing =>
    refine hc.finish fun h' => ?_
    have hfinished := hhandlers.finished (hhandlers.finishing h hfinishing) h'
    cases hstate : c.handler h' with
    | finishing => rfl
    | exited => rfl
    | starting | reading | leaving | working | erasing | completing =>
      rw [hstate] at hfinished
      cases hfinished
  | stop => exact hc.stop
  | stopHandler h hstopped => exact hc.congr (fun _ => Iff.rfl) rfl rfl rfl

end Entries

/-! ## Runs -/

/-- When all handlers have exited, who waits is done. -/
def Answered (c : Client S H) : Prop :=
  (∀ h, c.handler h = .exited) → ∀ s, c.send s = .waiting → (c.entry s).isDone = true

variable [Fintype H]

/-- What holds along a run of allowed sections. -/
structure Protocol (requestId : S → Nat) (c : Client S H) : Prop where
  entries : Entries requestId c
  handlers : Handlers c
  answered : Answered c

theorem Protocol.answered_moves [Nonempty H] (hc : Protocol requestId c)
    (hentries : Entries requestId c') (hmoves : Moves requestId c e c') : Answered c' := by
  have hsend : ∀ {s : S} {state : SendState}, state ≠ .waiting →
      Answered (c.setSend s state) := by
    intro s state hstate hall s' hwaiting
    unfold setSend at hwaiting
    by_cases heq : s' = s
    · subst heq
      simp only [update_self] at hwaiting
      exact absurd hwaiting hstate
    · simp only [update_of_ne heq] at hwaiting
      exact hc.answered hall s' hwaiting
  cases hmoves with
  | begin s hready =>
    refine hsend ?_
    split_ifs <;> simp
  | register s hregistering =>
    intro hall s' hwaiting
    have hstate : ∀ (c : Client S H) (s : S), (c.setSend s .sending).send s = .sending :=
      fun _ _ => update_self ..
    by_cases heq : s' = s
    · subst heq
      rw [hstate] at hwaiting
      cases hwaiting
    · have hsame : (((c.setEntry s {}).setPending (requestId s) (some s)).setSend s .sending).entry
          s' = c.entry s' := update_of_ne heq ..
      have hbefore : (((c.setEntry s {}).setPending (requestId s) (some s)).setSend s .sending).send
          s' = c.send s' := update_of_ne heq ..
      rw [hsame]
      exact hc.answered hall s' (hbefore ▸ hwaiting)
  | sent s written sent hsending => exact hsend (by simp)
  | notSent s written hsending => exact hsend (by simp)
  | check s sent hchecking =>
    intro hall
    -- The last handler has exited after the client had stopped.
    have hstopped : c.stopped = true := by
      obtain ⟨h⟩ := (inferInstance : Nonempty H)
      exact hc.handlers.ended h (by rw [show c.handler h = _ from hall h]; rfl)
    have hleaving : (if c.stopped = true ∨ sent = false then SendState.leaving
        else .waiting) = .leaving := if_pos (.inl hstopped)
    rw [hleaving] at hall ⊢
    exact hsend (by simp) hall
  | leave s hleaving => exact hsend (by simp)
  | wake s hwaiting hdone => exact hsend (by simp)
  | noSocket h connected hstarting => exact fun hall => (not_exited_setHandler (by simp) hall).elim
  | notConnected h created hstarting =>
    exact fun hall => (not_exited_setHandler (by simp) hall).elim
  | connected h hstarting => exact fun hall => (not_exited_setHandler (by simp) hall).elim
  | unknown h packet => exact hc.answered
  | receive h packet s hreading hpending =>
    exact fun hall => (not_exited_setHandler (by simp) hall).elim
  | provided h body s packet hworking =>
    exact fun hall => (not_exited_setHandler (by simp) hall).elim
  | notProvided h body s packet hworking =>
    exact fun hall => (not_exited_setHandler (by simp) hall).elim
  | work h body done failed s packet hworking halive c₁ hc₁ =>
    exact fun hall => (not_exited_setHandler (by simp) hall).elim
  | erase h s packet herasing => exact fun hall => (not_exited_setHandler (by simp) hall).elim
  | complete h s hcompleting halive =>
    exact fun hall => (not_exited_setHandler (by simp) hall).elim
  | giveUp h hreading => exact fun hall => (not_exited_setHandler (by simp) hall).elim
  | stopRunning h hreading hstopped =>
    exact fun hall => (not_exited_setHandler (by simp) hall).elim
  | exit h hleaving =>
    -- If it is the last one, it has not exited yet.
    intro hall
    have hself := hall h
    rw [entry_setHandler, if_pos rfl] at hself
    have hrunning : c.runningHandlers - 1 ≠ 0 := by
      intro hzero
      rw [if_pos hzero] at hself
      cases hself
    have hallowed : Allowed requestId c (.exit h) := trivial
    have hcard := (hc.handlers.moves hallowed (.exit h hleaving)).running
    have hnone : ∀ h', h' ∈ univ → ¬((({ c with
        runningHandlers := c.runningHandlers - 1
        shouldRun := update c.shouldRun h false } : Client S H).setHandler h
          (if c.runningHandlers - 1 = 0 then .finishing else .exited)).handler h').finished =
            false := by
      intro h' _ hfinished
      rw [hall h'] at hfinished
      cases hfinished
    rw [Finset.filter_eq_empty_iff.mpr fun h' => hnone h'] at hcard
    exact (hrunning hcard).elim
  | finish h hfinishing =>
    -- Nothing is pending any more, and no handler works with an entry.
    intro hall s hwaiting
    rcases hentries.unanswered s (by unfold Alive; rw [hwaiting]; rfl) with
      hdone | hpending | ⟨h', hcompleting⟩
    · exact hdone
    · cases hpending
    · cases (hall h').symm.trans hcompleting
  | stop => exact hc.answered
  | stopHandler h hstopped => exact hc.answered

theorem Protocol.step [Nonempty H] {e : Event S H} (hc : Protocol requestId c)
    (hallowed : Allowed requestId c e) (hstep : c.step requestId e = some c') :
    Protocol requestId c' := by
  have hmoves := moves_of_step hstep
  have hentries := hc.entries.moves hc.handlers hallowed hmoves
  exact ⟨hentries, hc.handlers.moves hallowed hmoves, hc.answered_moves hentries hmoves⟩

omit [DecidableEq S] [DecidableEq H] in
theorem protocol_create (requestId : S → Nat) (connected : Bool) [Nonempty H] :
    Protocol requestId (create connected : Client S H) where
  entries := by
    have halive : ∀ s, ¬(create connected : Client S H).Alive s := fun s hs => by cases hs
    constructor
    · intro h s hs
      cases hs
    · intro h s hs
      cases hs
    · intro h h' s hs
      cases hs
    · intro id s hs
      cases hs
    · intro id s hs
      cases hs
    · intro id s hs
      cases hs
    · rintro h s packet (hs | hs) <;> cases hs
    · rintro h s packet (hs | hs) <;> cases hs
    · intro h s hs
      cases hs
    · exact fun s hs => (halive s hs).elim
    · exact fun s s' hs => (halive s hs).elim
    · exact fun s => rfl
    · exact fun s => .inl rfl
  handlers :=
    { ended := fun h hended => by cases hended
      shouldRun := fun h hshould => by cases hshould
      running := by
        have hall : ∀ h : H, ((create connected : Client S H).handler h).finished = false :=
          fun _ => rfl
        rw [Finset.filter_true_of_mem fun h _ => hall h]
        rfl
      finishing := fun h hfinishing => by cases hfinishing }
  answered := fun hall => by
    obtain ⟨h⟩ := (inferInstance : Nonempty H)
    cases hall h

omit [DecidableEq S] [DecidableEq H] in
theorem sound_create (requestId : S → Nat) (connected : Bool) :
    Sound requestId (create connected : Client S H) where
  pending := fun _ _ hs => by cases hs
  packets := fun _ _ _ hs => by rcases hs with hs | hs <;> cases hs
  filled := fun _ => ⟨rfl, List.forall_mem_nil _⟩
  returned := fun _ _ hs => by cases hs

/-- A response is put together from packets for its own request. In a run of allowed sections a
handler works with an entry only until the `Send` returns, an entry is done once and filled with one
packet at most, and when all handlers have exited no `Send` waits in vain. -/
theorem send_protocol [Nonempty H] (requestId : S → Nat) (connected : Bool) (c : Client S H)
    (h : Reaches (step requestId) (create connected) c) :
    (∀ s r, c.send s = .returned (some r) → r = fillAll (c.entry s).received ∧
      ∀ x ∈ (c.entry s).received, x.1.requestId = requestId s) ∧
    (ReachesIf (step requestId) (Allowed requestId) (create connected) c →
      (∀ h s, (c.handler h).entry = some s → c.Alive s) ∧
      (∀ s, (c.entry s).completions ≤ 1) ∧
      (∀ s r, c.send s = .returned (some r) → r = {} ∨ ∃ packet body,
        packet.requestId = requestId s ∧ r = Response.fill {} packet body) ∧
      ((∀ h, c.handler h = .exited) → ∀ s, c.send s = .waiting → (c.entry s).isDone = true)) := by
  have hsound : Sound requestId c := h.invariant (sound_create requestId connected)
    fun hc hstep => hc.moves (moves_of_step hstep)
  have hown : ∀ s r, c.send s = .returned (some r) → r = fillAll (c.entry s).received ∧
      ∀ x ∈ (c.entry s).received, x.1.requestId = requestId s := by
    intro s r hr
    rw [← hsound.returned s r hr]
    exact hsound.filled s
  refine ⟨hown, fun hallowed => ?_⟩
  have hprotocol : Protocol requestId c := hallowed.invariant (protocol_create requestId connected)
    fun hc hok hstep => hc.step hok hstep
  refine ⟨hprotocol.entries.heldAlive, fun s => ?_, fun s r hr => ?_, hprotocol.answered⟩
  · rw [hprotocol.entries.completions]
    split_ifs <;> decide
  · obtain ⟨hfill, hids⟩ := hown s r hr
    rcases hprotocol.entries.received s with hnil | ⟨⟨x, hx⟩, -⟩
    · rw [hnil] at hfill
      exact .inl hfill
    · rw [hx] at hfill hids
      exact .inr ⟨x.1, x.2, hids x (List.mem_singleton_self x), hfill⟩

/-! ## Orders in which an entry is lost -/

/-- A response without a buffer, to the request 0. -/
def answer : DataPacket := ⟨0, success, 5, 0⟩

/-- A request is sent. -/
def sends {S H : Type} (s : S) : List (Event S H) :=
  [.begin s, .register s, .sendRequestPacket s true, .check s]

/-- The client is stopped, and the handler ends. -/
def stops {S : Type} : List (Event S Unit) :=
  [.stop, .stopHandler (), .stopRunning (), .exit (), .finish ()]

/-- Of two requests one is answered before the handler ends. -/
def answersOne : List (Event Bool Unit) :=
  .connect () true true :: (sends false ++ sends true ++
    [.receive () answer, .work () [] true, .erase (), .complete (), .wake false] ++ stops)

/-- The one that is not answered is done when the handler has ended. -/
theorem send_protocol_answered :
    ∃ c, answersOne.foldlM (stepIf (step Bool.toNat) (Allowed Bool.toNat)) (create true) = some c ∧
      c.send true = .waiting ∧ (c.entry true).isDone = true ∧
      (∀ s, (c.entry s).completions ≤ 1) ∧ ∃ packet body, packet.requestId = 0 ∧
        c.send false = .returned (some (Response.fill {} packet body)) := by
  obtain ⟨c, hc, hexited, hwaiting, hsend⟩ : ∃ c,
      answersOne.foldlM (stepIf (step Bool.toNat) (Allowed Bool.toNat)) (create true) = some c ∧
      (∀ h, c.handler h = .exited) ∧ c.send true = .waiting ∧
      c.send false = .returned (some (Response.fill {} answer [])) := by decide +kernel
  have hallowed := ReachesIf.of_stepIf hc
  obtain ⟨-, hcompletions, hfilled, hdone⟩ :=
    (send_protocol Bool.toNat true c hallowed.reaches).2 hallowed
  refine ⟨c, hc, hwaiting, hdone hexited true hwaiting, hcompletions, ?_⟩
  rcases hfilled false _ hsend with hnone | ⟨packet, body, hid, hfill⟩
  · exact absurd hnone (by decide)
  · exact ⟨packet, body, hid, hfill ▸ hsend⟩

/-- The events from a new client, all requests having the id 0. -/
def afterEvents {S H : Type} [DecidableEq S] [DecidableEq H] [Fintype H]
    (events : List (Event S H)) : Option (Client S H) :=
  events.foldlM (step fun _ => 0) (create true)

/-- A `Send` leaves while a handler works with its entry; two handlers get an answer to the same
request; a `Send` that no answer came for returns the state of errors; of two with the same request
id one waits after the last handler, as does one after a handler without a socket. -/
theorem send_protocol_limits :
    (afterEvents (S := Unit) (H := Unit) [.connect () true true, .begin (), .register (),
        .receive () answer, .sendRequestPacket () false, .check (), .leave ()]).map
      (fun c => (c.handler (), c.send ())) = some (.working () answer, .returned none) ∧
    (afterEvents (H := Bool) (.connect false true true :: .connect true true true :: (sends () ++
        [.receive false answer, .receive true answer, .work false [] true, .erase false,
          .complete false, .work true [] true, .erase true, .complete true]))).map
      (fun c => (c.entry ()).completions) = some 2 ∧
    (afterEvents (.connect () true true :: (sends () ++ stops ++ [.wake ()]))).map
      (fun c => (c.send (), (c.entry ()).received)) = some (.returned (some {}), []) ∧
    (afterEvents (.connect () true true :: (sends false ++ sends true ++ stops))).map
      (fun c => (c.handler (), c.send false, (c.entry false).isDone)) =
        some (.exited, .waiting, false) ∧
    (afterEvents (.connect () false true :: .exit () :: .finish () :: sends ())).map
      (fun c => (c.handler (), c.send (), (c.entry ()).isDone)) =
        some (.exited, .waiting, false) := by decide +kernel

end Client

end Artic

end GbaStation.Network
