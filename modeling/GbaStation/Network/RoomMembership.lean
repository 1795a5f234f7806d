import GbaStation.Network.Room
import Mathlib.Data.List.Nodup

/-!
# Members of a room

Nicknames, addresses and console ids are looked up before a member is added, and so they stay
distinct. Whether the peer of a join request is a member already is not looked up.
-/

namespace GbaStation.Network

/-- All of a member but its game. -/
def Member.withoutGame {P : Type} (m : Member P) : Member P := { m with gameInfo := {} }

/-- The answers to a join request that is refused. -/
def Message.Refuses : Message → Prop
  | .roomIsFull | .wrongPassword | .nameCollision | .macCollision | .consoleIdCollision
  | .versionMismatch _ | .hostBanned => True
  | _ => False

namespace Room

variable {P : Type}

/-- The members, with no look at their games. -/
def players (r : Room P) : List (Member P) := r.members.map Member.withoutGame

/-! ## What a step can do to the members -/

/-- The checks that a member passes when it joins. -/
structure Admitted (r : Room P) (m : Member P) : Prop where
  slots : r.members.length < r.roomInformation.memberSlots
  nickname : r.isValidNickname m.nickname = true
  macAddress : r.isValidMacAddress m.macAddress = true
  notBroadcast : m.macAddress ≠ broadcastMac
  notUnset : m.macAddress ≠ noPreferredMac
  consoleId : r.isValidConsoleId m.consoleIdHash = true
  notBanned : ¬r.isBanned m

variable {r r' : Room P} {peer : P} {β : Type} {m : Member P}

theorem assignMac_ok {preferredMac macAddress : List Byte} {randomBytes : List (Byte × Byte × Byte)}
    (h : r.assignMac preferredMac randomBytes = some (.ok macAddress)) :
    r.isValidMacAddress macAddress = true ∧ macAddress ≠ noPreferredMac := by
  unfold assignMac at h
  split_ifs at h with hpreferred hvalid
  · cases h
    exact ⟨hvalid, hpreferred⟩
  · cases h
  · obtain ⟨address, hgenerate, heq⟩ := Option.map_eq_some_iff.mp h
    cases heq
    refine ⟨List.find?_some hgenerate, ?_⟩
    obtain ⟨⟨a, b, c⟩, -, rfl⟩ := List.mem_map.mp (List.mem_of_find?_eq_some hgenerate)
    -- A generated address starts with 0x00.
    intro heq
    exact absurd (congrArg List.head? heq) (by simp [nintendoOui, noPreferredMac])

theorem assignMac_error {preferredMac : List Byte} {message : Message}
    {randomBytes : List (Byte × Byte × Byte)}
    (h : r.assignMac preferredMac randomBytes = some (.error message)) :
    message = .macCollision := by
  unfold assignMac at h
  split_ifs at h
  · cases h
  · cases h
    rfl
  · obtain ⟨address, -, heq⟩ := Option.map_eq_some_iff.mp h
    cases heq

/-- What every packet but a join request, and a disconnection, leave of the room. -/
structure Shrinks (r r' : Room P) : Prop where
  information : r'.roomInformation = r.roomInformation
  departed : r'.departed = r.departed
  hostIp : r'.hostIp = r.hostIp
  players : r'.players.Sublist r.players

theorem Shrinks.refl (r : Room P) : r.Shrinks r := ⟨rfl, rfl, rfl, List.Sublist.refl _⟩

/-- Taking out a member, whatever happens to the ban lists. -/
theorem Shrinks.eraseP (hinformation : r'.roomInformation = r.roomInformation)
    (hdeparted : r'.departed = r.departed) (hhostIp : r'.hostIp = r.hostIp) {p : Member P → Bool}
    (hmembers : r'.members = r.members.eraseP p) : r.Shrinks r' := by
  refine ⟨hinformation, hdeparted, hhostIp, ?_⟩
  unfold Room.players
  rw [hmembers]
  exact List.Sublist.map _ List.eraseP_sublist

/-! ## The invariants -/

/-- What tells the members apart, and how many there are. -/
structure Distinct (r : Room P) : Prop where
  nicknames : (r.members.map Member.nickname).Nodup
  macAddresses : (r.members.map Member.macAddress).Nodup
  consoleIds : (r.members.map Member.consoleIdHash).Nodup
  slots : r.members.length ≤ r.roomInformation.memberSlots
  macAddress : ∀ m ∈ r.members, m.macAddress ≠ broadcastMac ∧ m.macAddress ≠ noPreferredMac

/-- A peer is at most one member, and none after it has disconnected. -/
structure OnePeerEach (r : Room P) : Prop where
  peers : (r.members.map Member.peer).Nodup
  departed : ∀ m ∈ r.members, m.peer ∉ r.departed

theorem map_players (r : Room P) {f : Member P → β} (hf : ∀ m, f m.withoutGame = f m) :
    r.players.map f = r.members.map f := by
  unfold players
  rw [List.map_map]
  exact List.map_congr_left fun m _ => hf m

/-- What does not look at the games, of the members that are left. -/
theorem Shrinks.map (h : r.Shrinks r') {f : Member P → β} (hf : ∀ m, f m.withoutGame = f m) :
    (r'.members.map f).Sublist (r.members.map f) := by
  rw [← r.map_players hf, ← r'.map_players hf]
  exact h.players.map f

/-- Every member that is left was there before. -/
theorem Shrinks.forall (h : r.Shrinks r') {p : Member P → Prop} (hp : ∀ m, p m.withoutGame ↔ p m)
    (hall : ∀ m ∈ r.members, p m) : ∀ m ∈ r'.members, p m := by
  intro m hm
  obtain ⟨m₀, hm₀, heq⟩ := List.mem_map.mp (h.players.subset (List.mem_map_of_mem hm))
  exact (hp m).mp (heq ▸ (hp m₀).mpr (hall m₀ hm₀))

theorem Distinct.shrinks (h : r.Distinct) (hs : r.Shrinks r') : r'.Distinct where
  nicknames := (hs.map fun _ => rfl).nodup h.nicknames
  macAddresses := (hs.map fun _ => rfl).nodup h.macAddresses
  consoleIds := (hs.map fun _ => rfl).nodup h.consoleIds
  slots := by
    have hle := (hs.map (f := Member.nickname) fun _ => rfl).length_le
    rw [List.length_map, List.length_map] at hle
    exact hs.information ▸ Nat.le_trans hle h.slots
  macAddress := hs.forall (fun _ => Iff.rfl) h.macAddress

/-- One more element that the others differ from. -/
theorem nodup_concat {f : Member P → β} {members : List (Member P)} (h : (members.map f).Nodup)
    (hm : ∀ x ∈ members, f x ≠ f m) : ((members ++ [m]).map f).Nodup := by
  rw [List.map_append]
  refine List.nodup_append.mpr ⟨h, List.nodup_singleton _, fun a ha b hb => ?_⟩
  obtain ⟨x, hx, rfl⟩ := List.mem_map.mp ha
  obtain rfl := List.mem_singleton.mp hb
  exact hm x hx

theorem Distinct.join (h : r.Distinct) (hm : r.Admitted m) :
    ({ r with members := r.members ++ [m] } : Room P).Distinct := by
  have hnickname := hm.nickname
  have hmac := hm.macAddress
  have hconsole := hm.consoleId
  simp only [isValidNickname, decide_eq_true_eq, List.all_eq_true] at hnickname
  simp only [isValidMacAddress, decide_eq_true_eq, List.all_eq_true] at hmac
  simp only [isValidConsoleId, decide_eq_true_eq, List.all_eq_true] at hconsole
  refine ⟨nodup_concat h.nicknames hnickname.2.2.2, nodup_concat h.macAddresses hmac,
    nodup_concat h.consoleIds hconsole, ?_, fun x hx => ?_⟩
  · show (r.members ++ [m]).length ≤ r.roomInformation.memberSlots
    rw [List.length_append]
    exact hm.slots
  · rcases List.mem_append.mp hx with hx | hx
    · exact h.macAddress x hx
    · obtain rfl := List.mem_singleton.mp hx
      exact ⟨hm.notBroadcast, hm.notUnset⟩

theorem distinct_create (information : RoomInformation) (password : List Byte)
    (usernames ips : List (List Byte)) (hostIp : P → List Byte) :
    (create information password usernames ips hostIp).Distinct :=
  ⟨List.nodup_nil, List.nodup_nil, List.nodup_nil, Nat.zero_le _, List.forall_mem_nil _⟩

theorem onePeerEach_create (information : RoomInformation) (password : List Byte)
    (usernames ips : List (List Byte)) (hostIp : P → List Byte) :
    (create information password usernames ips hostIp).OnePeerEach :=
  ⟨List.nodup_nil, List.forall_mem_nil _⟩

/-! ## The handlers -/

variable [DecidableEq P]

/-- A join request is refused, or adds a member that passes the checks. -/
theorem handleJoinRequest_cases {data : List Byte} {env : Environment} {out : List (Output P)}
    (h : r.handleJoinRequest peer data env = some (r', out)) :
    (r' = r ∧ ∃ message, message.Refuses ∧ out = [.send peer message]) ∨ ∃ macAddress success,
      let m := r.newMember peer (readJoinRequest data env.before) macAddress env.userData
      r.Admitted m ∧ r' = { r with members := r.members ++ [m] } ∧
        (success = .joinSuccess macAddress ∨ success = .joinSuccessAsMod macAddress) ∧
        out = r.sendStatusMessage .memberJoin m.nickname m.userData.username ++
          [r'.broadcastRoomInformation, .send peer success] := by
  unfold handleJoinRequest at h
  generalize readJoinRequest data env.before = q at h ⊢
  by_cases hslots : r.roomInformation.memberSlots ≤ r.members.length
  · rw [if_pos hslots] at h
    cases h
    exact .inl ⟨rfl, .roomIsFull, trivial, rfl⟩
  rw [if_neg hslots] at h
  by_cases hpass : q.pass ≠ r.password
  · rw [if_pos hpass] at h
    cases h
    exact .inl ⟨rfl, .wrongPassword, trivial, rfl⟩
  rw [if_neg hpass] at h
  by_cases hnickname : r.isValidNickname q.nickname = false
  · rw [if_pos hnickname] at h
    cases h
    exact .inl ⟨rfl, .nameCollision, trivial, rfl⟩
  rw [if_neg hnickname] at h
  cases hmac : r.assignMac q.preferredMac env.randomBytes with
  | none =>
    rw [hmac] at h
    cases h
  | some result =>
    rw [hmac] at h
    cases result with
    | error message =>
      cases h
      exact .inl ⟨rfl, message, assignMac_error hmac ▸ trivial, rfl⟩
    | ok macAddress =>
      obtain ⟨hvalid, hunset⟩ := assignMac_ok hmac
      simp only at h
      by_cases hconsole : r.isValidConsoleId q.consoleIdHash = false
      · rw [if_pos hconsole] at h
        cases h
        exact .inl ⟨rfl, .consoleIdCollision, trivial, rfl⟩
      rw [if_neg hconsole] at h
      by_cases hversion : q.clientVersion ≠ networkVersion
      · rw [if_pos hversion] at h
        cases h
        exact .inl ⟨rfl, .versionMismatch networkVersion, trivial, rfl⟩
      rw [if_neg hversion] at h
      by_cases hbanned : r.isBanned (r.newMember peer q macAddress env.userData)
      · rw [if_pos hbanned] at h
        cases h
        exact .inl ⟨rfl, .hostBanned, trivial, rfl⟩
      rw [if_neg hbanned] at h
      simp only [Option.some.injEq, Prod.mk.injEq] at h
      obtain ⟨rfl, rfl⟩ := h
      refine .inr ⟨macAddress, _, ?_, rfl, ?_, rfl⟩
      · exact ⟨Nat.not_le.mp hslots, Bool.of_not_eq_false hnickname, hvalid, hunset, hunset,
          Bool.of_not_eq_false hconsole, hbanned⟩
      · split_ifs
        · exact .inr rfl
        · exact .inl rfl

theorem updateFirst_map {α : Type} {p : α → Bool} {f : α → α} {g : α → β} (h : ∀ x, g (f x) = g x)
    (xs : List α) : (updateFirst p f xs).map g = xs.map g := by
  induction xs with
  | nil => rfl
  | cons x xs ih =>
    unfold updateFirst
    split_ifs
    · rw [List.map_cons, List.map_cons, h]
    · rw [List.map_cons, List.map_cons, ih]

theorem handleModKickPacket_shrinks (r : Room P) (peer : P) (data : List Byte) :
    r.Shrinks (r.handleModKickPacket peer data).1 := by
  unfold handleModKickPacket
  split_ifs
  · exact Shrinks.refl r
  · simp only
    split
    · exact Shrinks.refl r
    · exact Shrinks.eraseP rfl rfl rfl rfl

theorem handleModBanPacket_shrinks (r : Room P) (peer : P) (data : List Byte) :
    r.Shrinks (r.handleModBanPacket peer data).1 := by
  unfold handleModBanPacket
  split_ifs
  · exact Shrinks.refl r
  · simp only
    split
    · exact Shrinks.refl r
    · exact Shrinks.eraseP rfl rfl rfl rfl

theorem handleModUnbanPacket_shrinks (r : Room P) (peer : P) (data : List Byte) :
    r.Shrinks (r.handleModUnbanPacket peer data).1 := by
  unfold handleModUnbanPacket
  split_ifs
  · exact Shrinks.refl r
  · simp only
    split_ifs
    · exact ⟨rfl, rfl, rfl, List.Sublist.refl _⟩
    · exact Shrinks.refl r

theorem handleModGetBanListPacket_eq (r : Room P) (peer : P) :
    (r.handleModGetBanListPacket peer).1 = r := by
  unfold handleModGetBanListPacket
  split_ifs <;> rfl

theorem handleWifiPacket_eq (r : Room P) (peer : P) (data : List Byte) (env : Environment) :
    (r.handleWifiPacket peer data env).1 = r := by
  unfold handleWifiPacket
  simp only
  split_ifs
  · rfl
  · split <;> rfl

theorem handleChatPacket_eq (r : Room P) (peer : P) (data : List Byte) :
    (r.handleChatPacket peer data).1 = r := by
  unfold handleChatPacket
  split <;> rfl

theorem handleGameNamePacket_players (r : Room P) (peer : P) (data : List Byte) :
    (r.handleGameNamePacket peer data).1.players = r.players := by
  exact updateFirst_map (fun m => by rfl) r.members

theorem handleGameNamePacket_shrinks (r : Room P) (peer : P) (data : List Byte) :
    r.Shrinks (r.handleGameNamePacket peer data).1 :=
  ⟨rfl, rfl, rfl, handleGameNamePacket_players r peer data ▸ List.Sublist.refl _⟩

/-- A packet of a peer is a join request that is granted, or removes members at most. -/
theorem handlePacket_cases {data : List Byte} {env : Environment} {out : List (Output P)}
    (h : r.handlePacket peer data env = some (r', out)) :
    r.Shrinks r' ∨ data.head?.bind requestType = some .joinRequest ∧ ∃ macAddress,
      let m := r.newMember peer (readJoinRequest data env.before) macAddress env.userData
      r.Admitted m ∧ r' = { r with members := r.members ++ [m] } := by
  unfold handlePacket at h
  cases data with
  | nil => cases h
  | cons type data =>
    simp only at h
    cases htype : requestType type with
    | none =>
      rw [htype] at h
      cases h
      exact .inl (Shrinks.refl r)
    | some request =>
      rw [htype] at h
      cases request with
      | joinRequest =>
        rcases handleJoinRequest_cases h with ⟨rfl, -⟩ | ⟨macAddress, _, hadmitted, heq, -⟩
        · exact .inl (Shrinks.refl _)
        · exact .inr ⟨htype, macAddress, hadmitted, heq⟩
      | setGameInfo =>
        cases h
        exact .inl (handleGameNamePacket_shrinks r peer _)
      | wifiPacket =>
        simp only [Option.some.injEq] at h
        have heq := handleWifiPacket_eq r peer (type :: data) env
        rw [h] at heq
        exact .inl (heq ▸ Shrinks.refl r)
      | chatMessage =>
        simp only [Option.some.injEq] at h
        have heq := handleChatPacket_eq r peer (type :: data)
        rw [h] at heq
        exact .inl (heq ▸ Shrinks.refl r)
      | modKick =>
        simp only [Option.some.injEq] at h
        have hshrinks := handleModKickPacket_shrinks r peer (type :: data)
        rw [h] at hshrinks
        exact .inl hshrinks
      | modBan =>
        simp only [Option.some.injEq] at h
        have hshrinks := handleModBanPacket_shrinks r peer (type :: data)
        rw [h] at hshrinks
        exact .inl hshrinks
      | modUnban =>
        simp only [Option.some.injEq] at h
        have hshrinks := handleModUnbanPacket_shrinks r peer (type :: data)
        rw [h] at hshrinks
        exact .inl hshrinks
      | modGetBanList =>
        simp only [Option.some.injEq] at h
        have heq := handleModGetBanListPacket_eq r peer
        rw [h] at heq
        exact .inl (heq ▸ Shrinks.refl r)

/-! ## Steps -/

/-- A peer that asks to join is not a member. -/
def Unjoined (r : Room P) : Event P → Prop
  | .receive peer data _ => data.head?.bind requestType = some .joinRequest →
    ∀ m ∈ r.members, m.peer ≠ peer
  | _ => True

instance (r : Room P) : (e : Event P) → Decidable (r.Unjoined e)
  | .receive _ _ _ => inferInstanceAs (Decidable (_ → ∀ m ∈ r.members, _))
  | .connect _ _ | .disconnect _ => .isTrue trivial

theorem handleClientDisconnection_shrinks (r : Room P) (client : P) :
    r.Shrinks (r.handleClientDisconnection client).1 := Shrinks.eraseP rfl rfl rfl rfl

/-- A step adds a member that has passed the checks, or removes some at most. -/
theorem step_cases {e : Event P} (h : r.step e = some r') :
    (∃ peer hostIp, e = .connect peer hostIp ∧
      r' = { r with hostIp := Function.update r.hostIp peer hostIp }) ∨
    (∃ peer data env, let r₀ : Room P := { r with departed := r.departed.filter (· ≠ peer) }
      e = .receive peer data env ∧ (r₀.Shrinks r' ∨
        data.head?.bind requestType = some .joinRequest ∧ ∃ macAddress,
          let m := r.newMember peer (readJoinRequest data env.before) macAddress env.userData
          r.Admitted m ∧ r' = { r₀ with members := r.members ++ [m] })) ∨
    ∃ peer, let r₀ : Room P := { r with departed := peer :: r.departed }
      e = .disconnect peer ∧ r₀.Shrinks r' ∧
        r'.members = r.members.eraseP fun m => m.peer = peer := by
  obtain ⟨⟨r₁, out⟩, hhandle, rfl⟩ := Option.map_eq_some_iff.mp h
  cases e with
  | connect peer hostIp =>
    cases hhandle
    exact .inl ⟨peer, hostIp, rfl, rfl⟩
  | receive peer data env =>
    refine .inr (.inl ⟨peer, data, env, rfl, ?_⟩)
    rcases handlePacket_cases hhandle with hshrinks | ⟨htype, macAddress, hadmitted, heq⟩
    · exact .inl hshrinks
    · obtain ⟨hslots, hnickname, hmac, hbroadcast, hunset, hconsole, hbanned⟩ := hadmitted
      exact .inr ⟨htype, macAddress,
        ⟨hslots, hnickname, hmac, hbroadcast, hunset, hconsole, hbanned⟩, heq⟩
  | disconnect peer =>
    have heq := Option.some.inj hhandle
    have hshrinks := handleClientDisconnection_shrinks
      ({ r with departed := peer :: r.departed } : Room P) peer
    have hmembers : (({ r with departed := peer :: r.departed } :
        Room P).handleClientDisconnection peer).1.members =
          r.members.eraseP fun m => m.peer = peer := rfl
    rw [heq] at hshrinks hmembers
    exact .inr (.inr ⟨peer, rfl, hshrinks, hmembers⟩)

/-- Members stay distinct in every step. -/
theorem Distinct.step {r r' : Room P} {e : Event P} (h : r.Distinct) (hstep : r.step e = some r') :
    r'.Distinct := by
  -- The peers that have departed do not matter here.
  have hsame : ∀ departed, ({ r with departed := departed } : Room P).Distinct := fun _ =>
    ⟨h.nicknames, h.macAddresses, h.consoleIds, h.slots, h.macAddress⟩
  rcases step_cases hstep with ⟨peer, hostIp, -, rfl⟩ |
      ⟨peer, data, env, -, hshrinks | ⟨-, macAddress, hadmitted, rfl⟩⟩ | ⟨peer, -, hshrinks, -⟩
  · exact ⟨h.nicknames, h.macAddresses, h.consoleIds, h.slots, h.macAddress⟩
  · exact (hsame _).shrinks hshrinks
  · obtain ⟨hnicknames, hmacs, hconsoles, hslots, hmac⟩ := h.join hadmitted
    exact ⟨hnicknames, hmacs, hconsoles, hslots, hmac⟩
  · exact (hsame _).shrinks hshrinks

/-- Of distinct peers, none is left of the one that is taken out. -/
theorem peer_ne_of_mem_eraseP {members : List (Member P)} (h : (members.map Member.peer).Nodup)
    (hm : m ∈ members.eraseP fun m => m.peer = peer) : m.peer ≠ peer := by
  induction members with
  | nil => cases hm
  | cons x xs ih =>
    obtain ⟨hx, hxs⟩ := List.nodup_cons.mp h
    by_cases hpeer : x.peer = peer
    · rw [List.eraseP_cons_of_pos (by simpa using hpeer)] at hm
      intro heq
      exact hx (List.mem_map.mpr ⟨m, hm, heq.trans hpeer.symm⟩)
    · rw [List.eraseP_cons_of_neg (by simpa using hpeer)] at hm
      rcases List.mem_cons.mp hm with rfl | hm
      · exact hpeer
      · exact ih hxs hm

theorem OnePeerEach.step {r r' : Room P} {e : Event P} (h : r.OnePeerEach) (hok : r.Unjoined e)
    (hstep : r.step e = some r') : r'.OnePeerEach := by
  rcases step_cases hstep with ⟨peer, hostIp, -, rfl⟩ |
      ⟨peer, data, env, rfl, hshrinks | ⟨htype, macAddress, -, rfl⟩⟩ |
      ⟨peer, rfl, hshrinks, hmembers⟩
  · exact ⟨h.peers, h.departed⟩
  · refine ⟨(hshrinks.map fun _ => rfl).nodup h.peers, ?_⟩
    rw [hshrinks.departed]
    refine hshrinks.forall (fun _ => Iff.rfl) fun m hm hmem => h.departed m hm ?_
    exact (List.mem_filter.mp hmem).1
  · refine ⟨nodup_concat h.peers (hok htype), fun m hm hmem => ?_⟩
    obtain ⟨hmem, hne⟩ := List.mem_filter.mp hmem
    rcases List.mem_append.mp hm with hm | hm
    · exact h.departed m hm hmem
    · obtain rfl := List.mem_singleton.mp hm
      exact of_decide_eq_true hne rfl
  · refine ⟨(hshrinks.map fun _ => rfl).nodup h.peers, fun m hm hmem => ?_⟩
    rw [hmembers] at hm
    rw [hshrinks.departed] at hmem
    rcases List.mem_cons.mp hmem with heq | hmem
    · -- The first member with the peer is gone, and there was only one.
      exact peer_ne_of_mem_eraseP h.peers hm heq
    · exact h.departed m (List.mem_of_mem_eraseP hm) hmem

/-! ## Runs -/

/-- In every run, members are distinct. -/
theorem distinct_of_reaches {information : RoomInformation} {password : List Byte}
    {usernames ips : List (List Byte)} {hostIp : P → List Byte}
    (h : Reaches step (create information password usernames ips hostIp) r) : r.Distinct :=
  h.invariant (distinct_create information password usernames ips hostIp)
    fun hr hstep => hr.step hstep

/-- In every run in which no member asks to join, members are distinct, no peer is two of them, and
none that has disconnected is one. -/
theorem members_of_unjoined (information : RoomInformation) (password : List Byte)
    (usernames ips : List (List Byte)) (hostIp : P → List Byte) (r : Room P)
    (h : ReachesIf step Unjoined (create information password usernames ips hostIp) r) :
    r.Distinct ∧ r.OnePeerEach :=
  h.invariant (I := fun r => r.Distinct ∧ r.OnePeerEach)
    ⟨distinct_create information password usernames ips hostIp,
      onePeerEach_create information password usernames ips hostIp⟩
    fun hr hok hstep => ⟨hr.1.step hstep, hr.2.step hok hstep⟩

/-! ## A member that joins twice -/

/-- A string, with its length in network order. -/
def packString (s : List Byte) : List Byte := [0, 0, 0, .ofNat 8 s.length] ++ s

/-- A join request without a password. -/
def joinPacket (nickname consoleIdHash macAddress : List Byte) : List Byte :=
  [1] ++ packString nickname ++ packString consoleIdHash ++ macAddress ++ [0, 0, 0, 4] ++
    packString [] ++ packString []

/-- What comes with an event in the examples: no user data, and no random bytes. -/
def plainEnvironment : Environment := ⟨{}, [], fun _ => 0⟩

/-- A room of four, hosted by `host`, that bans nobody. -/
def smallRoom : Room Nat :=
  create ⟨[], [], 4, 0, [], [0x68, 0x6F, 0x73, 0x74]⟩ [] [] [] fun peer => [.ofNat 8 peer]

/-- The peer joins as the member with a number. -/
def joins (peer : Nat) (number : Byte) : Event Nat :=
  .receive peer (joinPacket [0x75, 0x73, 0x65, 0x72, 0x30 + number] [number]
    [0, 0, 0, 0, 0, number]) plainEnvironment

/-- A peer joins under the nickname of the host, with no user data. -/
def joinsAsHost (peer : Nat) : Event Nat :=
  .receive peer (joinPacket [0x68, 0x6F, 0x73, 0x74] [9] [0, 0, 0, 0, 0, 9]) plainEnvironment

/-- A peer asks for something about the member with a number. -/
def asks (type : Byte) (peer : Nat) (number : Byte) : Event Nat :=
  .receive peer ([type] ++ packString [0x75, 0x73, 0x65, 0x72, 0x30 + number]) plainEnvironment

/-- The host and three others join, one is kicked, and another leaves and joins again. -/
def comings : List (Event Nat) :=
  [joinsAsHost 1, joins 2 2, joins 3 3, joins 4 4, asks 17 1 2, .disconnect 3, joins 3 5,
    .disconnect 4]

theorem members_of_unjoined_comings : ∃ r, comings.foldlM (stepIf step Unjoined) smallRoom = some r ∧
    r.members.map Member.peer = [1, 3] ∧ r.departed = [4] ∧ r.Distinct ∧ r.OnePeerEach := by
  obtain ⟨r, hr, hpeers, hdeparted⟩ : ∃ r, comings.foldlM (stepIf step Unjoined) smallRoom = some r ∧
      r.members.map Member.peer = [1, 3] ∧ r.departed = [4] := by decide +kernel
  exact ⟨r, hr, hpeers, hdeparted, members_of_unjoined _ _ _ _ _ r (ReachesIf.of_stepIf hr)⟩

/-- A peer that joins twice is two members, and after it has disconnected it is one still. -/
theorem member_twice :
    (∃ r, [joins 1 1, joins 1 2].foldlM step smallRoom = some r ∧ ¬r.OnePeerEach) ∧
    ∃ r, [joins 1 1, joins 1 2, .disconnect 1].foldlM step smallRoom = some r ∧
      ∃ m ∈ r.members, m.peer ∈ r.departed := by
  constructor
  · obtain ⟨r, hr, hpeers⟩ : ∃ r, [joins 1 1, joins 1 2].foldlM step smallRoom = some r ∧
        ¬(r.members.map Member.peer).Nodup := by decide +kernel
    exact ⟨r, hr, fun h => hpeers h.peers⟩
  · decide +kernel

end Room

end GbaStation.Network
