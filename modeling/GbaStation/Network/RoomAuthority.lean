import GbaStation.Network.RoomMembership

/-!
# Authority in a room

Who may moderate, whom a ban keeps out, and to whom packets are relayed.

- `room_authority`: these along every run.
-/

namespace GbaStation.Network

open List (mem_singleton mem_map forall_mem_singleton)
open Prod (snd fst)

/-- Neither relayed nor a ban list. -/
def Message.Ordinary : Message → Prop
  | .wifiPacket _ | .chatMessage _ _ _ | .modBanListResponse _ _ => False
  | _ => True

def Output.Ordinary {P : Type} : Output P → Prop
  | .send _ message | .broadcast message => message.Ordinary
  | .disconnect _ => True

namespace Room

variable {P : Type} [DecidableEq P]

/-! ## Permission -/

/-- User data that make a moderator, or the host of the room. -/
def Verified (hostUsername : List Byte) (userData : UserData) : Prop :=
  userData.moderator = true ∨ hostUsername ≠ [] ∧ userData.username = hostUsername

/-- The members have the user data of the backend, but for the flag that comes with the nickname of
the host. -/
def KeepsUserData (r : Room P) : Prop :=
  ∀ m ∈ r.members, m.nickname ≠ r.roomInformation.hostUsername → m.userData = m.verified

omit [DecidableEq P] in
theorem newMember_userData (r : Room P) (peer : P) (q : JoinRequest) (macAddress : List Byte)
    (userData : UserData)
    (hne : (r.newMember peer q macAddress userData).nickname ≠ r.roomInformation.hostUsername) :
    (r.newMember peer q macAddress userData).userData =
      (r.newMember peer q macAddress userData).verified := if_neg hne

theorem KeepsUserData.step {r r' : Room P} {e : Event P} (h : r.KeepsUserData)
    (hstep : r.step e = some r') :
    r'.KeepsUserData ∧ r'.roomInformation = r.roomInformation := by
  rcases step_cases hstep with ⟨peer, hostIp, -, rfl⟩ |
      ⟨peer, data, env, -, hshrinks | ⟨-, macAddress, -, rfl⟩⟩ | ⟨peer, -, hshrinks, -⟩
  · exact ⟨h, rfl⟩
  · refine ⟨?_, hshrinks.information⟩
    unfold KeepsUserData
    rw [hshrinks.information]
    exact hshrinks.forall (fun _ => Iff.rfl) h
  · refine ⟨fun m hm hne => ?_, rfl⟩
    rcases List.mem_append.mp hm with hm | hm
    · exact h m hm hne
    · obtain rfl := mem_singleton.mp hm
      exact r.newMember_userData peer _ macAddress env.userData hne
  · refine ⟨?_, hshrinks.information⟩
    unfold KeepsUserData
    rw [hshrinks.information]
    exact hshrinks.forall (fun _ => Iff.rfl) h

variable {r r' : Room P} {peer : P} {m : Member P} {e : Event P} {data : List Byte}
  {env : Environment}

theorem memberOf_some (h : r.memberOf peer = some m) : m ∈ r.members ∧ m.peer = peer := by
  have h : r.members.find? (fun m => m.peer = peer) = some m := h
  exact ⟨List.mem_of_find?_eq_some h, by simpa using List.find?_some h⟩

/-- Permission is decided by the user data of the first member with the peer. -/
theorem hasModPermission_iff (h : r.memberOf peer = some m) :
    r.hasModPermission peer = true ↔ Verified r.roomInformation.hostUsername m.userData := by
  unfold hasModPermission Verified
  rw [h]
  simp only
  split_ifs with hmoderator
  · exact ⟨fun _ => .inl hmoderator, fun _ => rfl⟩
  · rw [decide_eq_true_iff]
    exact ⟨.inr, fun hverified => hverified.resolve_left hmoderator⟩

theorem memberOf_of_hasModPermission (h : r.hasModPermission peer = true) :
    ∃ m, r.memberOf peer = some m := by
  unfold hasModPermission at h
  cases hmember : r.memberOf peer with
  | none =>
    rw [hmember] at h
    cases h
  | some m => exact ⟨m, rfl⟩

/-- But for the nickname of the host, the data of the backend decide. -/
theorem KeepsUserData.hasModPermission_iff (h : r.KeepsUserData)
    (hmember : r.memberOf peer = some m) (hne : m.nickname ≠ r.roomInformation.hostUsername) :
    r.hasModPermission peer = true ↔ Verified r.roomInformation.hostUsername m.verified := by
  rw [Room.hasModPermission_iff hmember, h m (memberOf_some hmember).1 hne]

/-! ## What is reserved for moderators -/

/-- A change of the ban lists, the removal of a member that has not disconnected, or the disclosure
of the ban lists. -/
def Reserved (r : Room P) (e : Event P) (r' : Room P) (out : List (Output P)) : Prop :=
  r'.usernameBanList ≠ r.usernameBanList ∨ r'.ipBanList ≠ r.ipBanList ∨
    (∃ m ∈ r.players, m ∉ r'.players ∧ e ≠ .disconnect m.peer) ∨
    ∃ peer usernames ips, .send peer (.modBanListResponse usernames ips) ∈ out

/-- Nothing that is reserved. -/
structure Harmless (r r' : Room P) (out : List (Output P)) : Prop where
  usernames : r'.usernameBanList = r.usernameBanList
  ips : r'.ipBanList = r.ipBanList
  players : ∀ m ∈ r.players, m ∈ r'.players
  undisclosed : ∀ peer usernames ips, .send peer (.modBanListResponse usernames ips) ∉ out

omit [DecidableEq P] in
theorem Harmless.not_reserved {out : List (Output P)} (h : r.Harmless r' out) :
    ¬r.Reserved e r' out := by
  rintro (husernames | hips | ⟨m, hm, hnot, -⟩ | ⟨peer, usernames, ips, hmem⟩)
  · exact husernames h.usernames
  · exact hips h.ips
  · exact hnot (h.players m hm)
  · exact h.undisclosed peer usernames ips hmem

/-! ## What is sent -/

omit [DecidableEq P] in
theorem ordinary_sendStatusMessage (r : Room P) (type : StatusMessageType)
    (nickname username : List Byte) :
    ∀ o ∈ r.sendStatusMessage type nickname username, o.Ordinary := by
  intro o ho
  obtain ⟨m, -, rfl⟩ := mem_map.mp ho
  trivial

omit [DecidableEq P] in
/-- What is sent when a member is taken out. -/
theorem ordinary_removed (r : Room P) (peer : P) (message : Message) (hmessage : message.Ordinary)
    (type : StatusMessageType) (nickname username : List Byte) :
    ∀ o ∈ [.send peer message, .disconnect peer] ++ r.sendStatusMessage type nickname username ++
      [r.broadcastRoomInformation], o.Ordinary := by
  refine List.forall_mem_append.mpr ⟨List.forall_mem_append.mpr ⟨?_, ?_⟩, ?_⟩
  · exact List.forall_mem_cons.mpr ⟨hmessage, forall_mem_singleton.mpr trivial⟩
  · exact ordinary_sendStatusMessage _ _ _ _
  · exact forall_mem_singleton.mpr trivial

/-- Joining sends ordinary messages. -/
theorem ordinary_handleJoinRequest {out : List (Output P)}
    (h : r.handleJoinRequest peer data env = some (r', out)) : ∀ o ∈ out, o.Ordinary := by
  rcases handleJoinRequest_cases h with ⟨-, message, hrefuses, rfl⟩ |
      ⟨macAddress, success, -, -, hsuccess, rfl⟩
  · intro o ho
    obtain rfl := mem_singleton.mp ho
    cases message <;> trivial
  · refine List.forall_mem_append.mpr ⟨ordinary_sendStatusMessage _ _ _ _, ?_⟩
    refine List.forall_mem_cons.mpr ⟨trivial, forall_mem_singleton.mpr ?_⟩
    rcases hsuccess with rfl | rfl <;> trivial

theorem ordinary_handleModKickPacket (r : Room P) (peer : P) (data : List Byte) :
    ∀ o ∈ (r.handleModKickPacket peer data).2, o.Ordinary := by
  unfold handleModKickPacket
  split_ifs
  · exact forall_mem_singleton.mpr trivial
  · simp only
    split
    · exact forall_mem_singleton.mpr trivial
    · exact ordinary_removed _ _ .hostKicked trivial _ _ _

theorem ordinary_handleModBanPacket (r : Room P) (peer : P) (data : List Byte) :
    ∀ o ∈ (r.handleModBanPacket peer data).2, o.Ordinary := by
  unfold handleModBanPacket
  split_ifs
  · exact forall_mem_singleton.mpr trivial
  · simp only
    split
    · exact forall_mem_singleton.mpr trivial
    · exact ordinary_removed _ _ .hostBanned trivial _ _ _

theorem ordinary_handleModUnbanPacket (r : Room P) (peer : P) (data : List Byte) :
    ∀ o ∈ (r.handleModUnbanPacket peer data).2, o.Ordinary := by
  unfold handleModUnbanPacket
  split_ifs
  · exact forall_mem_singleton.mpr trivial
  · simp only
    split_ifs
    · exact ordinary_sendStatusMessage _ _ _ _
    · exact forall_mem_singleton.mpr trivial

theorem ordinary_handleClientDisconnection (r : Room P) (client : P) :
    ∀ o ∈ (r.handleClientDisconnection client).2, o.Ordinary := by
  refine List.forall_mem_append.mpr ⟨List.forall_mem_append.mpr ⟨?_, ?_⟩, ?_⟩
  · exact forall_mem_singleton.mpr trivial
  · split
    · split_ifs
      · exact ordinary_sendStatusMessage _ _ _ _
      · exact List.forall_mem_nil _
    · exact List.forall_mem_nil _
  · exact forall_mem_singleton.mpr trivial

/-- A packet that is handled by relaying it or by sending the ban lists, or with ordinary
messages. -/
theorem handlePacket_out {out : List (Output P)} (h : r.handlePacket peer data env = some (r', out))
    :
    ((data.head?.bind requestType ≠ some .wifiPacket ∧
      data.head?.bind requestType ≠ some .chatMessage) ∧ ∀ o ∈ out, o.Ordinary) ∨
    (data.head?.bind requestType = some .wifiPacket ∧
      out = (r.handleWifiPacket peer data env).2) ∨
    (data.head?.bind requestType = some .chatMessage ∧ out = (r.handleChatPacket peer data).2) ∨
    data.head?.bind requestType = some .modGetBanList ∧ r.hasModPermission peer = true ∧
      out = [.send peer (.modBanListResponse r.usernameBanList r.ipBanList)] := by
  unfold handlePacket at h
  cases data with
  | nil => cases h
  | cons type data =>
    simp only at h
    have hhead : (type :: data).head?.bind requestType = requestType type := rfl
    cases htype : requestType type with
    | none =>
      rw [htype] at h
      cases h
      exact .inl ⟨by rw [hhead, htype]; decide, List.forall_mem_nil _⟩
    | some request =>
      rw [htype] at h hhead
      cases request with
      | joinRequest => exact .inl ⟨by rw [hhead]; decide, ordinary_handleJoinRequest h⟩
      | setGameInfo =>
        cases h
        exact .inl ⟨by rw [hhead]; decide, forall_mem_singleton.mpr trivial⟩
      | wifiPacket =>
        exact .inr (.inl ⟨hhead, (congrArg snd (Option.some.inj h)).symm⟩)
      | chatMessage =>
        exact .inr (.inr (.inl ⟨hhead, (congrArg snd (Option.some.inj h)).symm⟩))
      | modKick =>
        have hout : (r.handleModKickPacket peer (type :: data)).2 = out :=
          congrArg snd (Option.some.inj h)
        exact .inl ⟨by rw [hhead]; decide, hout ▸ ordinary_handleModKickPacket r peer _⟩
      | modBan =>
        have hout : (r.handleModBanPacket peer (type :: data)).2 = out :=
          congrArg snd (Option.some.inj h)
        exact .inl ⟨by rw [hhead]; decide, hout ▸ ordinary_handleModBanPacket r peer _⟩
      | modUnban =>
        have hout : (r.handleModUnbanPacket peer (type :: data)).2 = out :=
          congrArg snd (Option.some.inj h)
        exact .inl ⟨by rw [hhead]; decide, hout ▸ ordinary_handleModUnbanPacket r peer _⟩
      | modGetBanList =>
        have hout : (r.handleModGetBanListPacket peer).2 = out :=
          congrArg snd (Option.some.inj h)
        unfold handleModGetBanListPacket at hout
        by_cases hpermission : r.hasModPermission peer = false
        · rw [if_pos hpermission] at hout
          exact .inl ⟨by rw [hhead]; decide, hout ▸ forall_mem_singleton.mpr trivial⟩
        · rw [if_neg hpermission] at hout
          exact .inr (.inr (.inr ⟨hhead, Bool.of_not_eq_false hpermission, hout.symm⟩))

/-! ## Moderators -/

/-- What a packet does to the ban lists, and that only moderators remove members. -/
theorem handlePacket_moderates {out : List (Output P)}
    (h : r.handlePacket peer data env = some (r', out)) (hdenied : r.hasModPermission peer = false)
    :
    r'.usernameBanList = r.usernameBanList ∧ r'.ipBanList = r.ipBanList ∧
      ∀ m ∈ r.players, m ∈ r'.players := by
  have hsame : r.usernameBanList = r.usernameBanList ∧ r.ipBanList = r.ipBanList ∧
      ∀ m ∈ r.players, m ∈ r.players := ⟨rfl, rfl, fun _ hm => hm⟩
  unfold handlePacket at h
  cases data with
  | nil => cases h
  | cons type data =>
    simp only at h
    cases htype : requestType type with
    | none =>
      rw [htype] at h
      cases h
      exact hsame
    | some request =>
      rw [htype] at h
      cases request with
      | joinRequest =>
        rcases handleJoinRequest_cases h with ⟨rfl, -⟩ | ⟨macAddress, _, -, rfl, -⟩
        · exact hsame
        · refine ⟨rfl, rfl, fun m hm => ?_⟩
          unfold players at hm ⊢
          rw [List.map_append]
          exact List.mem_append_left _ hm
      | setGameInfo =>
        cases h
        refine ⟨rfl, rfl, fun m hm => ?_⟩
        have hplayers : (r.handleGameNamePacket peer (type :: data)).1.players = r.players :=
          handleGameNamePacket_players r peer _
        exact hplayers ▸ hm
      | wifiPacket =>
        have hroom : (r.handleWifiPacket peer (type :: data) env).1 = r' :=
          congrArg fst (Option.some.inj h)
        rw [handleWifiPacket_eq] at hroom
        exact hroom ▸ hsame
      | chatMessage =>
        have hroom : (r.handleChatPacket peer (type :: data)).1 = r' :=
          congrArg fst (Option.some.inj h)
        rw [handleChatPacket_eq] at hroom
        exact hroom ▸ hsame
      | modKick =>
        have hroom : (r.handleModKickPacket peer (type :: data)).1 = r' :=
          congrArg fst (Option.some.inj h)
        unfold handleModKickPacket at hroom
        rw [if_pos hdenied] at hroom
        exact hroom ▸ hsame
      | modBan =>
        have hroom : (r.handleModBanPacket peer (type :: data)).1 = r' :=
          congrArg fst (Option.some.inj h)
        unfold handleModBanPacket at hroom
        rw [if_pos hdenied] at hroom
        exact hroom ▸ hsame
      | modUnban =>
        have hroom : (r.handleModUnbanPacket peer (type :: data)).1 = r' :=
          congrArg fst (Option.some.inj h)
        unfold handleModUnbanPacket at hroom
        rw [if_pos hdenied] at hroom
        exact hroom ▸ hsame
      | modGetBanList =>
        have hroom : (r.handleModGetBanListPacket peer).1 = r' :=
          congrArg fst (Option.some.inj h)
        rw [handleModGetBanListPacket_eq] at hroom
        exact hroom ▸ hsame

/-- What is reserved is only done for a member with the permission. -/
theorem handle_reserved {out : List (Output P)} (h : r.handle e = some (r', out))
    (hreserved : r.Reserved e r' out) :
    ∃ peer data env, e = .receive peer data env ∧ r.hasModPermission peer = true := by
  have hordinary : (∀ o ∈ out, o.Ordinary) →
      ∀ peer usernames ips, .send peer (.modBanListResponse usernames ips) ∉ out :=
    fun hout _ _ _ hmem => (hout _ hmem).elim
  cases e with
  | connect peer hostIp =>
    cases h
    exact absurd hreserved (Harmless.not_reserved ⟨rfl, rfl, fun _ hm => hm, by simp⟩)
  | receive peer data env =>
    refine ⟨peer, data, env, rfl, ?_⟩
    by_contra hdenied
    have hdenied : r.hasModPermission peer = false := Bool.of_not_eq_true hdenied
    obtain ⟨husernames, hips, hplayers⟩ := handlePacket_moderates h hdenied
    refine Harmless.not_reserved ⟨husernames, hips, hplayers, ?_⟩ hreserved
    rcases handlePacket_out h with ⟨-, hout⟩ | ⟨-, rfl⟩ | ⟨-, rfl⟩ | ⟨-, hpermission, -⟩
    · exact hordinary hout
    · rintro p usernames ips hmem
      unfold handleWifiPacket at hmem
      simp only at hmem
      split_ifs at hmem
      · obtain ⟨m, -, heq⟩ := mem_map.mp hmem
        cases heq
      · split at hmem
        · cases mem_singleton.mp hmem
        · cases hmem
    · rintro p usernames ips hmem
      unfold handleChatPacket at hmem
      split at hmem
      · cases hmem
      · obtain ⟨m, -, heq⟩ := mem_map.mp hmem
        cases heq
    · exact absurd (hdenied.symm.trans hpermission) (by decide)
  | disconnect peer =>
    have heq : (({ r with departed := peer :: r.departed } :
      Room P).handleClientDisconnection peer) = (r', out) := Option.some.inj h
    have hout := ordinary_handleClientDisconnection
      ({ r with departed := peer :: r.departed } : Room P) peer
    rw [heq] at hout
    have hroom : _ = r' := congrArg fst heq
    subst hroom
    rcases hreserved with husernames | hips | ⟨m, hm, hnot, hne⟩ | ⟨p, usernames, ips, hmem⟩
    · exact absurd rfl husernames
    · exact absurd rfl hips
    · -- Only a member with the peer is removed.
      obtain ⟨m₀, hm₀, rfl⟩ := mem_map.mp hm
      refine absurd (List.mem_map_of_mem ?_) hnot
      refine (List.mem_eraseP_of_neg ?_).mpr hm₀
      intro hpeer
      exact hne (congrArg Event.disconnect (of_decide_eq_true hpeer).symm)
    · exact absurd hmem (hordinary hout p usernames ips)

/-! ## Relaying -/

/-- The destination of a packet. -/
def destinationAddress (data : List Byte) (env : Environment) : List Byte :=
  ((({ data := data } : Packet).ignoreBytes (1 + 1 + 1 + 6)).readArray env.before 6).1

/-- Chat messages come from members and go to all others; a packet goes to the member with the
destination, or from one peer to all others. -/
structure Relayed (r : Room P) (e : Event P) (out : List (Output P)) : Prop where
  chat : ∀ p nickname username message,
    .send p (.chatMessage nickname username message) ∈ out →
      ∃ peer data env m, e = .receive peer data env ∧ r.memberOf peer = some m ∧
        nickname = m.nickname ∧ username = m.userData.username ∧ p ≠ peer ∧
        ∃ m' ∈ r.members, m'.peer = p
  chatToAll : ∀ peer data env sender, e = .receive peer data env →
    data.head?.bind requestType = some .chatMessage → r.memberOf peer = some sender →
      ∀ m ∈ r.members, m.peer ≠ peer → .send m.peer (.chatMessage sender.nickname
        sender.userData.username ((readText data).take maxMessageSize)) ∈ out
  packet : ∀ p data, .send p (.wifiPacket data) ∈ out →
    ∃ peer env m, e = .receive peer data env ∧ m ∈ r.members ∧ m.peer = p ∧
      (destinationAddress data env = broadcastMac ∧ p ≠ peer ∨
        m.macAddress = destinationAddress data env ∧ out = [.send p (.wifiPacket data)])
  broadcast : ∀ peer data env, e = .receive peer data env →
    data.head?.bind requestType = some .wifiPacket → destinationAddress data env = broadcastMac →
      ∀ m ∈ r.members, m.peer ≠ peer → .send m.peer (.wifiPacket data) ∈ out
  neverToAll : ∀ message, .broadcast message ∈ out → message.Ordinary

theorem mem_sendToOthers {message : Message} {o : Output P} :
    o ∈ r.sendToOthers peer message ↔
      ∃ m ∈ r.members, m.peer ≠ peer ∧ o = .send m.peer message := by
  unfold sendToOthers
  simp only [mem_map, List.mem_filter, decide_eq_true_eq]
  constructor
  · rintro ⟨m, ⟨hm, hne⟩, rfl⟩
    exact ⟨m, hm, hne, rfl⟩
  · rintro ⟨m, hm, hne, rfl⟩
    exact ⟨m, ⟨hm, hne⟩, rfl⟩

/-- Ordinary messages relay nothing. -/
theorem Relayed.of_ordinary {out : List (Output P)} (hout : ∀ o ∈ out, o.Ordinary)
    (htype : ∀ peer data env, e = .receive peer data env →
      data.head?.bind requestType ≠ some .wifiPacket ∧
        data.head?.bind requestType ≠ some .chatMessage) : r.Relayed e out where
  chat := fun _ _ _ _ hmem => (hout _ hmem).elim
  chatToAll := fun peer data env _ he hchat => absurd hchat (htype peer data env he).2
  packet := fun _ _ hmem => (hout _ hmem).elim
  broadcast := fun peer data env he hwifi => absurd hwifi (htype peer data env he).1
  neverToAll := fun _ hmem => hout _ hmem

theorem handleWifiPacket_relayed (r : Room P) (peer : P) (data : List Byte) (env : Environment)
    (htype : data.head?.bind requestType = some .wifiPacket) :
    r.Relayed (.receive peer data env) (r.handleWifiPacket peer data env).2 := by
  have hnoChat : ∀ {p d e}, Event.receive peer data env = .receive p d e →
      d.head?.bind requestType ≠ some .chatMessage := by
    intro p d e he hchat
    cases he
    cases htype.symm.trans hchat
  unfold handleWifiPacket
  by_cases hall : destinationAddress data env = broadcastMac
  · unfold destinationAddress at hall
    simp only [if_pos hall]
    refine ⟨fun p nickname username message hmem => ?_,
      fun _ _ _ _ he hchat => absurd hchat (hnoChat he), fun p d hmem => ?_,
      fun p d e he _ _ m hm hne => ?_, fun message hmem => ?_⟩
    · obtain ⟨m, -, -, heq⟩ := mem_sendToOthers.mp hmem
      cases heq
    · obtain ⟨m, hm, hne, heq⟩ := mem_sendToOthers.mp hmem
      cases heq
      exact ⟨peer, env, m, rfl, hm, rfl, .inl ⟨hall, hne⟩⟩
    · cases he
      exact mem_sendToOthers.mpr ⟨m, hm, hne, rfl⟩
    · obtain ⟨m, -, -, heq⟩ := mem_sendToOthers.mp hmem
      cases heq
  · have hnotAll : ∀ {p d e}, Event.receive peer data env = .receive p d e →
        destinationAddress d e ≠ broadcastMac := by
      intro p d e he
      cases he
      exact hall
    unfold destinationAddress at hall
    simp only [if_neg hall]
    split
    · rename_i m hm
      refine ⟨fun p nickname username message hmem => ?_,
        fun _ _ _ _ he hchat => absurd hchat (hnoChat he), fun p d hmem => ?_,
        fun _ _ _ he _ hdestination => absurd hdestination (hnotAll he), fun message hmem => ?_⟩
      · cases mem_singleton.mp hmem
      · cases mem_singleton.mp hmem
        refine ⟨peer, env, m, rfl, List.mem_of_find?_eq_some hm, rfl, .inr ⟨?_, rfl⟩⟩
        have haddress := List.find?_some hm
        exact of_decide_eq_true haddress
      · cases mem_singleton.mp hmem
    · exact ⟨nofun, fun _ _ _ _ he hchat => absurd hchat (hnoChat he), nofun,
        fun _ _ _ he _ hdestination => absurd hdestination (hnotAll he), nofun⟩

theorem handleChatPacket_relayed (r : Room P) (peer : P) (data : List Byte) (env : Environment)
    (htype : data.head?.bind requestType = some .chatMessage) :
    r.Relayed (.receive peer data env) (r.handleChatPacket peer data).2 := by
  have hnoPacket : ∀ {p d e}, Event.receive peer data env = .receive p d e →
      d.head?.bind requestType ≠ some .wifiPacket := by
    intro p d e he hwifi
    cases he
    cases htype.symm.trans hwifi
  unfold handleChatPacket
  split
  · rename_i hnone
    refine ⟨nofun, fun p d e sender he _ hsender => ?_, nofun,
      fun _ _ _ he hwifi => absurd hwifi (hnoPacket he), nofun⟩
    cases he
    cases hnone.symm.trans hsender
  · rename_i sendingMember hmember
    refine ⟨fun p nickname username message hmem => ?_, fun p d e sender he _ hsender m hm hne => ?_,
      fun p d hmem => ?_, fun _ _ _ he hwifi => absurd hwifi (hnoPacket he), fun message hmem => ?_⟩
    · obtain ⟨m, hm, hne, heq⟩ := mem_sendToOthers.mp hmem
      cases heq
      exact ⟨peer, data, env, sendingMember, rfl, hmember, rfl, rfl, hne, m, hm, rfl⟩
    · cases he
      cases hmember.symm.trans hsender
      exact mem_sendToOthers.mpr ⟨m, hm, hne, rfl⟩
    · obtain ⟨m, -, -, heq⟩ := mem_sendToOthers.mp hmem
      cases heq
    · obtain ⟨m, -, -, heq⟩ := mem_sendToOthers.mp hmem
      cases heq

theorem handle_relayed {out : List (Output P)} (h : r.handle e = some (r', out)) :
    r.Relayed e out := by
  cases e with
  | connect peer hostIp =>
    cases h
    exact Relayed.of_ordinary (List.forall_mem_nil _) fun _ _ _ he => by cases he
  | receive peer data env =>
    rcases handlePacket_out h with ⟨hne, hout⟩ | ⟨htype, rfl⟩ | ⟨htype, rfl⟩ | ⟨htype, -, rfl⟩
    · refine Relayed.of_ordinary hout fun _ _ _ he => ?_
      cases he
      exact hne
    · obtain ⟨hchat, hchatToAll, hpacket, hbroadcast, hall⟩ := handleWifiPacket_relayed
        ({ r with departed := r.departed.filter (· ≠ peer) } : Room P) peer data env htype
      exact ⟨hchat, hchatToAll, hpacket, hbroadcast, hall⟩
    · obtain ⟨hchat, hchatToAll, hpacket, hbroadcast, hall⟩ := handleChatPacket_relayed
        ({ r with departed := r.departed.filter (· ≠ peer) } : Room P) peer data env htype
      exact ⟨hchat, hchatToAll, hpacket, hbroadcast, hall⟩
    · refine ⟨fun _ _ _ _ hmem => ?_, fun p d e m he hchat => ?_, fun _ _ hmem => ?_,
        fun p d e he hwifi => ?_, fun _ hmem => ?_⟩
      · cases mem_singleton.mp hmem
      · cases he
        cases htype.symm.trans hchat
      · cases mem_singleton.mp hmem
      · cases he
        cases htype.symm.trans hwifi
      · cases mem_singleton.mp hmem
  | disconnect peer =>
    have hout := ordinary_handleClientDisconnection
      ({ r with departed := peer :: r.departed } : Room P) peer
    have heq : (({ r with departed := peer :: r.departed } :
      Room P).handleClientDisconnection peer) = (r', out) := Option.some.inj h
    rw [heq] at hout
    exact Relayed.of_ordinary hout fun _ _ _ he => by cases he

/-! ## Bans -/

/-- Joining does not admit who is banned, and a ban lists the member it removes; of the others it
lists those that share the username or the address. -/
structure KeepsOut (r : Room P) (e : Event P) (r' : Room P) : Prop where
  joins : ∀ m ∈ r'.players, m ∉ r.players → ¬r'.isBanned m
  bans : ∀ peer data env target, e = .receive peer data env →
    data.head?.bind requestType = some .modBan → r.hasModPermission peer = true →
    r.members.find? (fun m => m.nickname = readText data) = some target →
      r'.members = r.members.eraseP (fun m => m.nickname = target.nickname) ∧
      (target.userData.username ≠ [] → target.userData.username ∈ r'.usernameBanList) ∧
      r.hostIp target.peer ∈ r'.ipBanList ∧
      ∀ m, r'.isBanned m → r.isBanned m ∨ m.userData.username = target.userData.username ∨
        r.hostIp m.peer = r.hostIp target.peer

theorem mem_addBan {ban x : List Byte} {list : List (List Byte)} :
    x ∈ addBan ban list ↔ x ∈ list ∨ x = ban := by
  unfold addBan
  split_ifs with hmem
  · exact ⟨.inl, fun hx => hx.elim id fun heq => heq ▸ hmem⟩
  · rw [List.mem_append, mem_singleton]

theorem handle_keepsOut {out : List (Output P)} (h : r.handle e = some (r', out)) :
    r.KeepsOut e r' := by
  constructor
  · intro m hm hnew hbanned
    have hstep : r.step e = some r' := by
      unfold step
      rw [h]
      rfl
    rcases step_cases hstep with ⟨peer, hostIp, -, rfl⟩ |
        ⟨peer, data, env, -, hshrinks | ⟨-, macAddress, hadmitted, rfl⟩⟩ | ⟨peer, -, hshrinks, -⟩
    · exact hnew hm
    · exact hnew (hshrinks.players.subset hm)
    · obtain ⟨m₀, hm₀, rfl⟩ := mem_map.mp hm
      rcases List.mem_append.mp hm₀ with hm₀ | hm₀
      · exact hnew (List.mem_map_of_mem hm₀)
      · obtain rfl := mem_singleton.mp hm₀
        exact hadmitted.notBanned hbanned
    · exact hnew (hshrinks.players.subset hm)
  · rintro peer data env target rfl htype hpermission htarget
    cases data with
    | nil => cases htype
    | cons type data =>
      have htype : requestType type = some .modBan := htype
      have hnamed : target.nickname = readText (type :: data) := by
        simpa using List.find?_some htarget
      have hroom : (({ r with departed := r.departed.filter (· ≠ peer) } :
          Room P).handleModBanPacket peer (type :: data)).1 = r' := by
        have h : ({ r with departed := r.departed.filter (· ≠ peer) } : Room P).handlePacket peer
          (type :: data) env = some (r', out) := h
        unfold handlePacket at h
        simp only at h
        rw [htype] at h
        exact congrArg fst (Option.some.inj h)
      have hallowed : ¬({ r with departed := r.departed.filter (· ≠ peer) } :
          Room P).hasModPermission peer = false := by
        have hsame : ({ r with departed := r.departed.filter (· ≠ peer) } :
          Room P).hasModPermission peer = r.hasModPermission peer := rfl
        rw [hsame, hpermission]
        decide
      unfold handleModBanPacket at hroom
      simp only [if_neg hallowed, htarget] at hroom
      subst hroom
      refine ⟨by rw [hnamed]; rfl, fun hne => ?_, mem_addBan.mpr (.inr rfl), ?_⟩
      · simp only [if_pos hne]
        exact mem_addBan.mpr (.inr rfl)
      · rintro m (⟨hne, hmem⟩ | hmem)
        · simp only at hmem
          split_ifs at hmem with husername
          · rcases mem_addBan.mp hmem with hold | hnew
            · exact .inl (.inl ⟨hne, hold⟩)
            · exact .inr (.inl hnew)
          · exact .inl (.inl ⟨hne, hmem⟩)
        · rcases mem_addBan.mp hmem with hold | hnew
          · exact .inl (.inr hold)
          · exact .inr (.inr hnew)

theorem keepsUserData_of_reaches {information : RoomInformation} {password : List Byte}
    {usernames ips : List (List Byte)} {hostIp : P → List Byte}
    (h : Reaches step (create information password usernames ips hostIp) r) :
    r.KeepsUserData ∧ r.roomInformation = information :=
  h.invariant (I := fun r => r.KeepsUserData ∧ r.roomInformation = information)
    ⟨List.forall_mem_nil _, rfl⟩
    fun hr hstep => ⟨(hr.1.step hstep).1, (hr.1.step hstep).2.trans hr.2⟩

/-- Under every nickname but that of the host, authority depends on the verified user data alone,
also between two runs. What is reserved is done for members with authority only, who is listed does
not join, and packets go where `Relayed` says. -/
theorem room_authority (information : RoomInformation) (password : List Byte)
    (usernames ips : List (List Byte)) (hostIp : P → List Byte) (r : Room P)
    (h : Reaches step (create information password usernames ips hostIp) r) :
    r.Distinct ∧
    (∀ peer, r.hasModPermission peer = true → ∃ m, r.memberOf peer = some m ∧
      (m.nickname = information.hostUsername ∨ Verified information.hostUsername m.verified)) ∧
    (∀ (information₂ : RoomInformation) (password₂ : List Byte)
      (usernames₂ ips₂ : List (List Byte)) (hostIp₂ : P → List Byte) (r₂ : Room P),
      Reaches step (create information₂ password₂ usernames₂ ips₂ hostIp₂) r₂ →
      information₂.hostUsername = information.hostUsername →
      ∀ peer peer₂ m m₂, r.memberOf peer = some m → r₂.memberOf peer₂ = some m₂ →
        m.nickname ≠ information.hostUsername → m₂.nickname ≠ information.hostUsername →
        m.verified = m₂.verified → r.hasModPermission peer = r₂.hasModPermission peer₂) ∧
    ∀ e r' out, r.handle e = some (r', out) →
      (r.Reserved e r' out →
        ∃ peer data env, e = .receive peer data env ∧ r.hasModPermission peer = true) ∧
      r.KeepsOut e r' ∧ r.Relayed e out := by
  obtain ⟨hkeeps, hinformation⟩ := keepsUserData_of_reaches h
  refine ⟨distinct_of_reaches h, fun peer hpermission => ?_, ?_, fun e r' out hhandle =>
    ⟨handle_reserved hhandle, handle_keepsOut hhandle, handle_relayed hhandle⟩⟩
  · obtain ⟨m, hm⟩ := memberOf_of_hasModPermission hpermission
    refine ⟨m, hm, ?_⟩
    by_cases hhost : m.nickname = information.hostUsername
    · exact .inl hhost
    · rw [hkeeps.hasModPermission_iff hm (hinformation ▸ hhost), hinformation] at hpermission
      exact .inr hpermission
  · intro information₂ password₂ usernames₂ ips₂ hostIp₂ r₂ h₂ hhost peer peer₂ m m₂ hm hm₂ hne hne₂
      hverified
    obtain ⟨hkeeps₂, hinformation₂⟩ := keepsUserData_of_reaches h₂
    rw [Bool.eq_iff_iff, hkeeps.hasModPermission_iff hm (hinformation ▸ hne),
      hkeeps₂.hasModPermission_iff hm₂ (hinformation₂ ▸ hhost ▸ hne₂), hinformation,
      hinformation₂, hhost, hverified]

/-! ## The nickname of the host, and who shares an address -/

/-- A peer sends a packet to the member with a number. -/
def sendsTo (peer : Nat) (number : Byte) : Event Nat :=
  .receive peer ([5] ++ List.replicate 8 0 ++ [0, 0, 0, 0, 0, number]) plainEnvironment

/-- A peer writes to the others. -/
def writes (peer : Nat) : Event Nat :=
  .receive peer ([6] ++ packString [0x68, 0x69]) plainEnvironment

/-- After the ban of one of three members, the others get what the second one writes, and what is
reserved is for the host. -/
theorem room_authority_hosted : ∃ r r' out, [.connect 2 [7], joinsAsHost 1, joins 2 2, joins 3 3,
      joins 4 4, asks 18 1 2].foldlM step smallRoom = some r ∧ r.ipBanList = [[7]] ∧
    r.handle (writes 3) = some (r', out) ∧
    (∀ m ∈ r.members, m.peer ≠ 3 →
      .send m.peer (.chatMessage [0x75, 0x73, 0x65, 0x72, 0x33] [] [0x68, 0x69]) ∈ out) ∧
    ∀ e r' out, r.handle e = some (r', out) → r.Reserved e r' out →
      ∃ data env, e = .receive 1 data env := by
  let host : List Byte := [0x68, 0x6F, 0x73, 0x74]
  obtain ⟨r, hr, hbanned, hsender, hauthority⟩ : ∃ r, [.connect 2 [7], joinsAsHost 1, joins 2 2,
      joins 3 3, joins 4 4, asks 18 1 2].foldlM step smallRoom = some r ∧ r.ipBanList = [[7]] ∧
      r.memberOf 3 = some ⟨[0x75, 0x73, 0x65, 0x72, 0x33], [3], {}, [0, 0, 0, 0, 0, 3], {}, 3, {}⟩ ∧
      ∀ m ∈ r.members, m.nickname = host ∨ Verified host m.verified → m.peer = 1 := by
    unfold Verified
    decide +kernel
  obtain ⟨⟨r', out⟩, hhandle⟩ : ∃ next, r.handle (writes 3) = some next := ⟨_, rfl⟩
  obtain ⟨-, hpermission, -, hevents⟩ := room_authority _ _ _ _ _ r (Reaches.of_foldlM hr)
  refine ⟨r, r', out, hr, hbanned, hhandle,
    (hevents _ _ _ hhandle).2.2.chatToAll _ _ _ _ rfl rfl hsender, fun e r'' out' he hreserved => ?_⟩
  obtain ⟨peer, data, env, rfl, hallowed⟩ := (hevents _ _ _ he).1 hreserved
  obtain ⟨m, hm, hhost⟩ := hpermission peer hallowed
  obtain ⟨hmem, rfl⟩ := memberOf_some hm
  exact ⟨data, env, by rw [hauthority m hmem hhost]⟩

/-- Whoever joins as the host may moderate; after a ban who shares the address is a member still;
packets of a peer that is no member are relayed. -/
theorem authority_of_nickname :
    (∃ r, smallRoom.step (joinsAsHost 1) = some r ∧ r.hasModPermission 1 = true ∧
      ∀ m ∈ r.members, ¬Verified r.roomInformation.hostUsername m.verified) ∧
    (∃ r, [.connect 2 [7], .connect 3 [7], joinsAsHost 1, joins 2 2, joins 3 3,
        asks 18 1 2].foldlM step smallRoom = some r ∧ ∃ m ∈ r.members, r.isBanned m) ∧
    ∃ r r' data, smallRoom.step (joins 1 1) = some r ∧ r.memberOf 2 = none ∧
      r.handle (sendsTo 2 1) = some (r', [.send 1 (.wifiPacket data)]) := by
  refine ⟨?_, by decide +kernel, ?_⟩
  · unfold Verified
    decide +kernel
  · obtain ⟨r, hr, hmember, next, hhandle, hout⟩ : ∃ r, smallRoom.step (joins 1 1) = some r ∧
        r.memberOf 2 = none ∧ ∃ next, r.handle (sendsTo 2 1) = some next ∧
          next.2 = [.send 1 (.wifiPacket ([5] ++ List.replicate 8 0 ++ [0, 0, 0, 0, 0, 1]))] := by
      decide +kernel
    exact ⟨r, next.1, _, hr, hmember, hhandle.trans (congrArg some (Prod.ext rfl hout))⟩

end Room

end GbaStation.Network
