import GbaStation.Common.BitSet
import GbaStation.Nwm.Uds

/-!
# The membership of a hosted network

The host records who is in its network in five places: the bits of `node_bitmask`, the array
`nodes`, two counts, the slots of `node_info`, and the entries of `node_map`. `Membership` says that
they agree.

- An authentication frame reserves nothing, so the capacity has to be there again when the client's
  start frame comes: `Regular` asks for it, and the host asserts it.
- `DisconnectNetwork` leaves a host with the membership of nobody, not even its own: `Emptied`.
-/

namespace GbaStation.Nwm

open GbaStation.BitSet
open Function (update update_of_ne)

/-! ## The invariant -/

/-- The five records of the membership agree. -/
structure Membership (status : ConnectionStatus) (infoTotal : Nat) (nodeInfo : List NodeInfo)
    (nodeMap : OrdMap Node) : Prop where
  /-- The counts are the number of set bits. -/
  count : (setBits status.nodeBitmask).card = status.totalNodes
  infoCount : infoTotal = status.totalNodes
  /-- `nodes` has its own index, plus one, at the set bits. -/
  nodes : ∀ i < udsMaxNodes, status.nodeBitmask.getLsbD i = true ↔ status.nodes i = i + 1
  /-- A set bit belongs to the host or to a member. -/
  owners : ∀ i < udsMaxNodes, status.nodeBitmask.getLsbD i = true ↔
    i = 0 ∨ ∃ mac node, nodeMap.get? mac = some node ∧ node.isMember = true ∧ node.nodeId = i + 1
  /-- Members have ids of their own, and not that of the host. -/
  distinct : ∀ mac node mac' node', nodeMap.get? mac = some node → nodeMap.get? mac' = some node' →
    node.isMember = true → node'.isMember = true → node.nodeId = node'.nodeId → mac = mac'
  notHost : ∀ mac node, nodeMap.get? mac = some node → node.isMember = true →
    1 < node.nodeId ∧ node.nodeId ≤ udsMaxNodes
  /-- There is a slot for every node, and the occupied ones are those of the set bits. -/
  slots : nodeInfo.length = status.maxNodes
  occupied : ∀ i, status.nodeBitmask.getLsbD i = true ↔
    ∃ info, nodeInfo[i]? = some info ∧ info.networkNodeId ≠ 0
  slotIds : ∀ i info, nodeInfo[i]? = some info → info.networkNodeId ≠ 0 →
    info.networkNodeId = i + 1
  totalLe : status.totalNodes ≤ status.maxNodes
  maxLe : status.maxNodes ≤ udsMaxNodes

/-- A host that nobody is in the network of: what `DisconnectNetwork` leaves. -/
structure Emptied (status : ConnectionStatus) (nodeMap : OrdMap Node) : Prop where
  noBits : status.nodeBitmask = 0#16
  noNodes : ∀ i, status.nodes i = 0
  noTotal : status.totalNodes = 0
  noMax : status.maxNodes = 0
  noMap : nodeMap = []

namespace Uds

/-- The membership that a host has recorded is consistent. -/
def Consistent (u : Uds) : Prop :=
  Membership u.connectionStatus u.networkInfo.totalNodes u.nodeInfo u.nodeMap

/-- What a host has recorded, after a `DisconnectNetwork` since it began hosting or without. -/
def HostInvariant (disconnected : Bool) (u : Uds) : Prop :=
  u.connectionStatus.status = .connectedAsHost →
    if disconnected then Emptied u.connectionStatus u.nodeMap else u.Consistent

/-- No client has a place in the network. -/
def NoMembers (u : Uds) : Prop := ∀ mac node, u.nodeMap.get? mac = some node → node.isMember = false

/-- No client has a place in the connection status. -/
def NoBits (u : Uds) : Prop :=
  ∀ i, 0 < i → i < udsMaxNodes →
    u.connectionStatus.nodeBitmask.getLsbD i = false ∧ u.connectionStatus.nodes i ≠ i + 1

/-- The events that the host is ready for:
- the sizes of a call are right;
- a network is only begun, and a host only shut down, when no client has a place;
- a start frame of a client in its handshake finds the network not full;
- a packet for this node is no management frame. -/
def Regular (u : Uds) : Event → Prop
  | .initializeWithVersion sharedmemSize memorySize _ => memorySize = sharedmemSize
  | .beginHostingNetwork info =>
    1 < info.maxNodes ∧ info.maxNodes ≤ udsMaxNodes ∧
      info.applicationDataSize ≤ applicationDataSize ∧ u.NoMembers ∧ u.NoBits
  | .shutdown => u.connectionStatus.status = .connectedAsHost → u.NoMembers
  | .eapolStart mac _ _ =>
    u.connectionStatus.status = .connectedAsHost → ∀ entry, u.nodeMap.get? mac = some entry →
      entry.connected = false → u.connectionStatus.totalNodes ≠ u.connectionStatus.maxNodes
  | .secureData packet =>
    u.inNetwork = true → packet.srcNodeId ≠ u.connectionStatus.networkNodeId →
      u.addressedToUs packet = true → packet.isManagement = false
  | _ => True

/-- Every event of a run is regular when it comes. -/
def RegularRun (u : Uds) : List Event → Prop
  | [] => True
  | e :: es => u.Regular e ∧ ∀ u', u.step e = some u' → u'.RegularRun es

/-- Whether the host has called `DisconnectNetwork` since it last began hosting. -/
def disconnectedBy (disconnected : Bool) : Event → Bool
  | .beginHostingNetwork _ => false
  | .disconnectNetwork => true
  | _ => disconnected

end Uds

/-! ## Joining and leaving -/

variable {mac : MacAddress} {node : Node}

namespace Membership

variable {status : ConnectionStatus} {infoTotal : Nat} {nodeInfo : List NodeInfo}
  {nodeMap : OrdMap Node}

/-- A set bit is that of a slot. -/
theorem bit_lt (h : Membership status infoTotal nodeInfo nodeMap) {i : Nat}
    (hi : status.nodeBitmask.getLsbD i = true) : i < status.maxNodes := by
  obtain ⟨info, hinfo, -⟩ := (h.occupied i).mp hi
  rw [← h.slots]
  exact (List.getElem?_eq_some_iff.mp hinfo).1

/-- The membership does not see entries that are no members. -/
theorem congr_map (h : Membership status infoTotal nodeInfo nodeMap) {nodeMap' : OrdMap Node}
    (hmem : ∀ mac node, node.isMember = true →
      (nodeMap'.get? mac = some node ↔ nodeMap.get? mac = some node)) :
    Membership status infoTotal nodeInfo nodeMap' where
  count := h.count
  infoCount := h.infoCount
  nodes := h.nodes
  owners := by
    intro i hi
    rw [h.owners i hi]
    constructor
    · rintro (h0 | ⟨mac, node, hget, hm, hid⟩)
      · exact .inl h0
      · exact .inr ⟨mac, node, (hmem mac node hm).mpr hget, hm, hid⟩
    · rintro (h0 | ⟨mac, node, hget, hm, hid⟩)
      · exact .inl h0
      · exact .inr ⟨mac, node, (hmem mac node hm).mp hget, hm, hid⟩
  distinct := by
    intro mac node mac' node' hget hget' hm hm' hid
    exact h.distinct mac node mac' node' ((hmem mac node hm).mp hget)
      ((hmem mac' node' hm').mp hget') hm hm' hid
  notHost := by
    intro mac node hget hm
    exact h.notHost mac node ((hmem mac node hm).mp hget) hm
  slots := h.slots
  occupied := h.occupied
  slotIds := h.slotIds
  totalLe := h.totalLe
  maxLe := h.maxLe

/-- Resetting a slot that is free changes nothing that counts. -/
theorem reset_free (h : Membership status infoTotal nodeInfo nodeMap) {index : Nat}
    (hfree : ∀ info, nodeInfo[index]? = some info → info.networkNodeId = 0) :
    Membership status infoTotal (nodeInfo.set index .zero) nodeMap where
  count := h.count
  infoCount := h.infoCount
  nodes := h.nodes
  owners := h.owners
  distinct := h.distinct
  notHost := h.notHost
  slots := by rw [List.length_set, h.slots]
  occupied := by
    intro i
    rw [h.occupied i, List.getElem?_set]
    by_cases hi : index = i
    · subst hi
      rw [if_pos rfl]
      constructor
      · rintro ⟨info, hinfo, hne⟩
        exact absurd (hfree info hinfo) hne
      · rintro ⟨info, hinfo, hne⟩
        -- the slot that was written is zeroed
        split at hinfo
        · cases hinfo
          exact absurd rfl hne
        · cases hinfo
    · rw [if_neg hi]
  slotIds := by
    intro i info hinfo hne
    rw [List.getElem?_set] at hinfo
    split at hinfo
    · split at hinfo
      · cases hinfo
        exact absurd rfl hne
      · cases hinfo
    · exact h.slotIds i info hinfo hne
  totalLe := h.totalLe
  maxLe := h.maxLe

variable {k : Nat}

/-- A client whose handshake ends takes a free place. -/
theorem admitNode (h : Membership status infoTotal nodeInfo nodeMap) {entry : Node}
    (hentry : nodeMap.get? mac = some entry) (hnot : entry.connected = false)
    (hk : k < status.maxNodes) (hclear : status.nodeBitmask.getLsbD k = false) (node : NodeInfo) :
    Membership
      { status with
        nodeBitmask := status.nodeBitmask ||| 1#16 <<< k
        changedNodes := status.changedNodes ||| 1#16 <<< k
        nodes := update status.nodes k (k + 1)
        totalNodes := incr8 status.totalNodes }
      (incr8 infoTotal) (nodeInfo.set k { node with networkNodeId := k + 1 })
      (nodeMap.set mac ⟨true, false, k + 1, nofun⟩) := by
  have hk16 : k < 16 := Nat.lt_of_lt_of_le hk h.maxLe
  -- the host has its bit, so the place is that of a client
  have hpos : 0 < k := by
    apply Nat.pos_of_ne_zero
    intro h0
    have := (h.owners 0 (by decide)).mpr (.inl rfl)
    rw [h0, this] at hclear
    cases hclear
  have hbits : ∀ i, (status.nodeBitmask ||| 1#16 <<< k).getLsbD i = true ↔
      status.nodeBitmask.getLsbD i = true ∨ i = k := by
    intro i
    rw [getLsbD_insert hk16, Bool.or_eq_true, decide_eq_true_eq]
  -- no member had the id before
  have hfresh : ∀ mac' node', nodeMap.get? mac' = some node' → node'.isMember = true →
      node'.nodeId ≠ k + 1 := by
    intro mac' node' hget hm hid
    have := (h.owners k hk16).mpr (.inr ⟨mac', node', hget, hm, hid⟩)
    rw [hclear] at this
    cases this
  have hget : ∀ mac' node',
    OrdMap.get? (OrdMap.set nodeMap mac ⟨true, false, k + 1, nofun⟩) mac' = some node' →
      mac' = mac ∧ node' = ⟨true, false, k + 1, nofun⟩ ∨ mac' ≠ mac ∧
        nodeMap.get? mac' = some node' := by
    intro mac' node' hg
    rw [OrdMap.get?_set] at hg
    by_cases hmac : mac' = mac
    · rw [if_pos hmac, hentry] at hg
      exact .inl ⟨hmac, (Option.some.inj hg).symm⟩
    · rw [if_neg hmac] at hg
      exact .inr ⟨hmac, hg⟩
  have hcount : (setBits (status.nodeBitmask ||| 1#16 <<< k)).card = status.totalNodes + 1 := by
    rw [card_insert hk16 hclear, h.count]
  have hle : status.totalNodes + 1 ≤ status.maxNodes := by
    rw [← hcount]
    refine card_le fun i hi => ?_
    rcases (hbits i).mp hi with hi | rfl
    · exact h.bit_lt hi
    · exact hk
  have hincr : incr8 status.totalNodes = status.totalNodes + 1 := by
    have := h.maxLe
    unfold udsMaxNodes at this
    unfold incr8
    omega
  have hslot : ∀ i, (nodeInfo.set k { node with networkNodeId := k + 1 })[i]? =
      if i = k then some { node with networkNodeId := k + 1 } else nodeInfo[i]? := by
    intro i
    have hlen : k < nodeInfo.length := h.slots ▸ hk
    rw [List.getElem?_set]
    by_cases hi : i = k
    · subst hi
      simp [hlen]
    · rw [if_neg fun hki => hi hki.symm, if_neg hi]
  constructor
  case count => rw [hcount, hincr]
  case infoCount => rw [h.infoCount]
  case nodes =>
    intro i hi
    rw [hbits]
    show _ ↔ update status.nodes k (k + 1) i = i + 1
    by_cases hik : i = k
    · subst hik
      simp
    · rw [update_of_ne hik, h.nodes i hi]
      simp [hik]
  case owners =>
    intro i hi
    rw [hbits, h.owners i hi]
    constructor
    · rintro ((h0 | ⟨mac', node', hg, hm, hid⟩) | hik)
      · exact .inl h0
      · -- a member before, so not the one whose entry is written
        have hmac : mac' ≠ mac := by
          rintro rfl
          rw [hentry] at hg
          cases hg
          simp [Node.isMember, hnot] at hm
        exact .inr ⟨mac', node', by rw [OrdMap.get?_set, if_neg hmac, hg], hm, hid⟩
      · refine .inr ⟨mac, ⟨true, false, k + 1, nofun⟩, ?_, rfl, ?_⟩
        · rw [OrdMap.get?_set, if_pos rfl, hentry]
          rfl
        · rw [hik]
    · rintro (h0 | ⟨mac', node', hg, hm, hid⟩)
      · exact .inl (.inl h0)
      · rcases hget mac' node' hg with ⟨-, rfl⟩ | ⟨-, hold⟩
        · exact .inr (Nat.succ.inj hid).symm
        · exact .inl (.inr ⟨mac', node', hold, hm, hid⟩)
  case distinct =>
    intro mac₁ node₁ mac₂ node₂ hg₁ hg₂ hm₁ hm₂ hid
    rcases hget mac₁ node₁ hg₁ with ⟨rfl, rfl⟩ | ⟨-, hold₁⟩
    · rcases hget mac₂ node₂ hg₂ with ⟨rfl, -⟩ | ⟨-, hold₂⟩
      · rfl
      · exact absurd hid.symm (hfresh mac₂ node₂ hold₂ hm₂)
    · rcases hget mac₂ node₂ hg₂ with ⟨rfl, rfl⟩ | ⟨-, hold₂⟩
      · exact absurd hid (hfresh mac₁ node₁ hold₁ hm₁)
      · exact h.distinct mac₁ node₁ mac₂ node₂ hold₁ hold₂ hm₁ hm₂ hid
  case notHost =>
    intro mac' node' hg hm
    rcases hget mac' node' hg with ⟨-, rfl⟩ | ⟨-, hold⟩
    · show 1 < k + 1 ∧ k + 1 ≤ 16
      omega
    · exact h.notHost mac' node' hold hm
  case slots => rw [List.length_set, h.slots]
  case occupied =>
    intro i
    rw [hbits, hslot]
    by_cases hik : i = k
    · simp [hik]
    · rw [if_neg hik, h.occupied i]
      simp [hik]
  case slotIds =>
    intro i info hinfo hne
    rw [hslot] at hinfo
    by_cases hik : i = k
    · rw [if_pos hik] at hinfo
      cases hinfo
      rw [hik]
    · rw [if_neg hik] at hinfo
      exact h.slotIds i info hinfo hne
  case totalLe =>
    show incr8 status.totalNodes ≤ status.maxNodes
    rw [hincr]
    exact hle
  case maxLe => exact h.maxLe

/-- The slot of a member is the one that its id says. -/
theorem findIdx_member (h : Membership status infoTotal nodeInfo nodeMap)
    (hget : nodeMap.get? mac = some node) (hm : node.isMember = true) (hid : node.nodeId = k + 1) :
    nodeInfo.findIdx? (fun info => info.networkNodeId = node.nodeId) = some k := by
  have hk16 : k < udsMaxNodes := by
    have := (h.notHost mac node hget hm).2
    omega
  obtain ⟨info, hinfo, hne⟩ :=
    (h.occupied k).mp ((h.owners k hk16).mpr (.inr ⟨mac, node, hget, hm, hid⟩))
  obtain ⟨hlen, helem⟩ := List.getElem?_eq_some_iff.mp hinfo
  rw [List.findIdx?_eq_some_iff_getElem]
  refine ⟨hlen, ?_, ?_⟩
  · rw [helem, hid]
    exact decide_eq_true (h.slotIds k info hinfo hne)
  · intro j hj hfound
    rw [decide_eq_true_eq, hid] at hfound
    -- an earlier slot has an id of its own
    have := h.slotIds j nodeInfo[j] (List.getElem?_eq_getElem _) (by omega)
    omega

/-- A slot with the id of a spectator is free. -/
theorem findIdx_spectator {index : Nat}
    (hfound : nodeInfo.findIdx? (fun info => info.networkNodeId = nodeIDSpec) = some index) :
    ∀ info, nodeInfo[index]? = some info → info.networkNodeId = 0 := by
  intro info hinfo
  obtain ⟨hlen, hid, -⟩ := List.findIdx?_eq_some_iff_getElem.mp hfound
  rw [List.getElem?_eq_getElem hlen] at hinfo
  cases hinfo
  exact of_decide_eq_true hid

/-- A client that leaves gives its place back. -/
theorem dismiss (h : Membership status infoTotal nodeInfo nodeMap)
    (hget : nodeMap.get? mac = some node) (hm : node.isMember = true) (hid : node.nodeId = k + 1) :
    Membership
      { status with
        nodeBitmask := status.nodeBitmask &&& ~~~(1#16 <<< k)
        changedNodes := status.changedNodes ||| 1#16 <<< k
        totalNodes := decr8 status.totalNodes
        nodes := update status.nodes k 0 }
      (decr8 infoTotal) (nodeInfo.set k .zero) (nodeMap.erase mac) := by
  obtain ⟨hgt, hle16⟩ := h.notHost mac node hget hm
  have hk16 : k < udsMaxNodes := by omega
  have hset : status.nodeBitmask.getLsbD k = true :=
    (h.owners k hk16).mpr (.inr ⟨mac, node, hget, hm, hid⟩)
  have hbits : ∀ i, (status.nodeBitmask &&& ~~~(1#16 <<< k)).getLsbD i = true ↔
      status.nodeBitmask.getLsbD i = true ∧ i ≠ k := by
    intro i
    rw [getLsbD_erase, Bool.and_eq_true, Bool.not_eq_true', decide_eq_false_iff_not]
  have hgone : ∀ mac' node', OrdMap.get? (OrdMap.erase nodeMap mac) mac' = some node' ↔
      mac' ≠ mac ∧ nodeMap.get? mac' = some node' := by
    intro mac' node'
    rw [OrdMap.get?_erase]
    by_cases hmac : mac' = mac <;> simp [hmac]
  have hpos : 0 < status.totalNodes := by
    rw [← h.count]
    exact Finset.card_pos.mpr ⟨k, mem_setBits.mpr hset⟩
  have hdecr : decr8 status.totalNodes = status.totalNodes - 1 := by
    have := h.totalLe
    have := h.maxLe
    unfold udsMaxNodes at this
    unfold decr8
    omega
  have hslot : ∀ i, (nodeInfo.set k NodeInfo.zero)[i]? =
      if i = k then some NodeInfo.zero else nodeInfo[i]? := by
    intro i
    have hlen : k < nodeInfo.length := h.slots ▸ h.bit_lt hset
    rw [List.getElem?_set]
    by_cases hi : i = k
    · subst hi
      simp [hlen]
    · rw [if_neg fun hki => hi hki.symm, if_neg hi]
  constructor
  case count => rw [card_erase hset, h.count, hdecr]
  case infoCount => rw [h.infoCount]
  case nodes =>
    intro i hi
    rw [hbits]
    show _ ↔ update status.nodes k 0 i = i + 1
    by_cases hik : i = k
    · subst hik
      simp
    · rw [update_of_ne hik, h.nodes i hi]
      simp [hik]
  case owners =>
    intro i hi
    rw [hbits, h.owners i hi]
    constructor
    · rintro ⟨h0 | ⟨mac', node', hg, hm', hid'⟩, hik⟩
      · exact .inl h0
      · refine .inr ⟨mac', node', (hgone mac' node').mpr ⟨?_, hg⟩, hm', hid'⟩
        -- the one that leaves owned the bit that is cleared
        rintro rfl
        rw [hget] at hg
        cases hg
        omega
    · rintro (h0 | ⟨mac', node', hg, hm', hid'⟩)
      · exact ⟨.inl h0, by omega⟩
      · obtain ⟨hmac, hold⟩ := (hgone mac' node').mp hg
        refine ⟨.inr ⟨mac', node', hold, hm', hid'⟩, ?_⟩
        rintro rfl
        exact hmac (h.distinct mac' node' mac node hold hget hm' hm (by omega))
  case distinct =>
    intro mac₁ node₁ mac₂ node₂ hg₁ hg₂
    exact h.distinct mac₁ node₁ mac₂ node₂ ((hgone _ _).mp hg₁).2 ((hgone _ _).mp hg₂).2
  case notHost =>
    intro mac' node' hg
    exact h.notHost mac' node' ((hgone mac' node').mp hg).2
  case slots => rw [List.length_set, h.slots]
  case occupied =>
    intro i
    rw [hbits, hslot]
    by_cases hik : i = k
    · simp [hik, NodeInfo.zero]
    · rw [if_neg hik, h.occupied i]
      simp [hik]
  case slotIds =>
    intro i info hinfo hne
    rw [hslot] at hinfo
    by_cases hik : i = k
    · rw [if_pos hik] at hinfo
      cases hinfo
      exact absurd rfl hne
    · rw [if_neg hik] at hinfo
      exact h.slotIds i info hinfo hne
  case totalLe =>
    have := h.totalLe
    show decr8 status.totalNodes ≤ status.maxNodes
    omega
  case maxLe => exact h.maxLe

/-- A network that begins has its host and nobody else. -/
theorem begin {max : Nat} (hmax : 1 < max) (hmaxLe : max ≤ udsMaxNodes) {node : NodeInfo}
    (hnode : node.networkNodeId = 1) (status : ConnectionStatus)
    (hclear : ∀ i, 0 < i → i < udsMaxNodes →
      status.nodeBitmask.getLsbD i = false ∧ status.nodes i ≠ i + 1)
    (hmap : ∀ mac node, nodeMap.get? mac = some node → node.isMember = false) :
    Membership
      { status with
        status := .connectedAsHost
        statusChangeReason := .connectionEstablished
        maxNodes := max
        totalNodes := 1
        networkNodeId := 1
        nodes := update status.nodes 0 1
        nodeBitmask := status.nodeBitmask ||| 1#16
        changedNodes := status.changedNodes ||| 1#16 }
      1 ((List.replicate max NodeInfo.zero).set 0 node) nodeMap := by
  have hbits : ∀ i, (status.nodeBitmask ||| 1#16).getLsbD i = true ↔ i = 0 := by
    intro i
    have hins : (status.nodeBitmask ||| 1#16 <<< 0).getLsbD i =
        (status.nodeBitmask.getLsbD i || decide (i = 0)) := getLsbD_insert (by decide) i
    rw [BitVec.shiftLeft_zero] at hins
    rw [hins, Bool.or_eq_true, decide_eq_true_eq]
    constructor
    · rintro (hi | hi)
      · by_contra h0
        have := (hclear i (Nat.pos_of_ne_zero h0) (BitVec.lt_of_getLsbD hi)).1
        rw [hi] at this
        cases this
      · exact hi
    · exact .inr
  have hnone : ∀ mac node', nodeMap.get? mac = some node' → node'.isMember ≠ true := by
    intro mac node' hg hm
    rw [hmap mac node' hg] at hm
    cases hm
  have hslot : ∀ i info, ((List.replicate max NodeInfo.zero).set 0 node)[i]? = some info →
      i = 0 ∧ info = node ∨ info = NodeInfo.zero := by
    intro i info hinfo
    rw [List.getElem?_set] at hinfo
    split at hinfo
    · rename_i h0
      split at hinfo
      · exact .inl ⟨h0.symm, (Option.some.inj hinfo).symm⟩
      · cases hinfo
    · exact .inr (List.eq_of_mem_replicate (List.mem_of_getElem? hinfo))
  constructor
  case count =>
    have : setBits (status.nodeBitmask ||| 1#16) = {0} := by
      ext i
      rw [mem_setBits, hbits, Finset.mem_singleton]
    rw [this, Finset.card_singleton]
  case infoCount => rfl
  case nodes =>
    intro i hi
    rw [hbits]
    show _ ↔ update status.nodes 0 1 i = i + 1
    by_cases h0 : i = 0
    · subst h0
      simp
    · rw [update_of_ne h0]
      simp [h0, (hclear i (Nat.pos_of_ne_zero h0) hi).2]
  case owners =>
    intro i hi
    rw [hbits]
    constructor
    · exact .inl
    · rintro (h0 | ⟨mac, node', hg, hm, -⟩)
      · exact h0
      · exact absurd hm (hnone mac node' hg)
  case distinct =>
    intro mac node' mac' node'' hg _ hm
    exact absurd hm (hnone mac node' hg)
  case notHost =>
    intro mac node' hg hm
    exact absurd hm (hnone mac node' hg)
  case slots => simp
  case occupied =>
    intro i
    rw [hbits]
    constructor
    · rintro rfl
      refine ⟨node, ?_, by omega⟩
      rw [List.getElem?_set]
      simp
      omega
    · rintro ⟨info, hinfo, hne⟩
      rcases hslot i info hinfo with ⟨h0, -⟩ | rfl
      · exact h0
      · exact absurd rfl hne
  case slotIds =>
    intro i info hinfo hne
    rcases hslot i info hinfo with ⟨rfl, rfl⟩ | rfl
    · exact hnode
    · exact absurd rfl hne
  case totalLe => exact Nat.le_of_lt hmax
  case maxLe => exact hmaxLe

end Membership

namespace Uds

variable {u : Uds} {disconnected : Bool}

/-! ## Frames -/

/-- A network that is not full has a node id to give. -/
theorem getNextAvailableNodeId_spec (h : u.Consistent)
    (hroom : u.connectionStatus.totalNodes ≠ u.connectionStatus.maxNodes) :
    ∃ k < u.connectionStatus.maxNodes, u.connectionStatus.nodeBitmask.getLsbD k = false ∧
      u.getNextAvailableNodeId = some (k + 1) := by
  have hlt : (setBits u.connectionStatus.nodeBitmask).card < u.connectionStatus.maxNodes := by
    rw [h.count]
    exact Nat.lt_of_le_of_ne h.totalLe hroom
  obtain ⟨i, hi, hclear⟩ := exists_clear hlt
  cases hfind : (List.range u.connectionStatus.maxNodes).find? fun index =>
      !u.connectionStatus.nodeBitmask.getLsbD index with
  | none =>
    have := List.find?_eq_none.mp hfind i (List.mem_range.mpr hi)
    simp [hclear] at this
  | some k =>
    refine ⟨k, List.mem_range.mp (List.mem_of_find?_eq_some hfind), ?_, ?_⟩
    · have := List.find?_some hfind
      simpa using this
    · unfold getNextAvailableNodeId
      rw [hfind]
      rfl

theorem authentication_invariant (h : u.HostInvariant disconnected) (mac : MacAddress) :
    (u.handleAuthenticationFrame mac).uds.HostInvariant disconnected := by
  unfold handleAuthenticationFrame
  split
  · exact h
  · split
    · exact h
    · rename_i hfree
      rw [Bool.not_eq_true, Option.isSome_eq_false_iff, Option.isNone_iff_eq_none] at hfree
      split
      · exact h
      · rename_i hroom
        intro hhost
        have hinv := h hhost
        cases disconnected with
        | true =>
          -- nobody is admitted to an emptied network: it is as full as it gets
          exact absurd (hinv.noMax.trans hinv.noTotal.symm) hroom
        | false =>
          refine hinv.congr_map fun mac' node hm => ?_
          rw [OrdMap.get?_emplace _ _ _ hfree]
          by_cases hmac : mac' = mac
          · subst hmac
            rw [if_pos rfl, hfree]
            constructor
            · rintro ⟨⟩
              cases hm
            · rintro ⟨⟩
          · rw [if_neg hmac]

theorem eapolStart_invariant (h : u.HostInvariant disconnected)
    (hroom : u.connectionStatus.status = .connectedAsHost →
      ∀ entry, u.nodeMap.get? mac = some entry → entry.connected = false →
        u.connectionStatus.totalNodes ≠ u.connectionStatus.maxNodes) (node : NodeInfo)
    (type : ConnectionType) :
    ∃ out, u.handleEAPoLStart mac node type = some out ∧ out.uds.HostInvariant disconnected := by
  unfold handleEAPoLStart
  split
  · exact ⟨_, rfl, h⟩
  · rename_i hstatus
    rw [ne_eq, not_not] at hstatus
    split
    · exact ⟨_, rfl, h⟩
    · rename_i entry hentry
      split
      · exact ⟨_, rfl, h⟩
      · rename_i hnot
        rw [Bool.not_eq_true] at hnot
        have hne := hroom hstatus entry hentry hnot
        rw [if_neg fun heq => hne heq.symm]
        have hinv := h hstatus
        cases disconnected with
        | true =>
          have := hinv.noMap
          rw [this] at hentry
          cases hentry
        | false =>
          cases type with
          | client =>
            obtain ⟨k, hk, hclear, hnext⟩ := getNextAvailableNodeId_spec hinv hne
            simp only [hnext]
            refine ⟨_, rfl, fun _ => ?_⟩
            exact hinv.admitNode hentry hnot hk hclear node
          | spectator =>
            refine ⟨_, rfl, fun _ => hinv.congr_map fun mac' node' hm => ?_⟩
            rw [OrdMap.get?_set]
            by_cases hmac : mac' = mac
            · subst hmac
              rw [if_pos rfl, hentry]
              -- neither the entry before nor the one of a spectator is a member
              constructor
              · rintro ⟨⟩
                cases hm
              · rintro ⟨⟩
                simp [Node.isMember, hnot] at hm
            · rw [if_neg hmac]
          | unknown value => exact ⟨_, rfl, fun _ => hinv⟩

/-- The entry of someone who is no member can be erased. -/
theorem erase_invariant (h : u.Consistent) (hget : u.nodeMap.get? mac = some node)
    (hm : node.isMember = false) :
    ({ u with nodeMap := u.nodeMap.erase mac } : Uds).Consistent := by
  refine Membership.congr_map h fun mac' node' hm' => ?_
  rw [OrdMap.get?_erase]
  by_cases hmac : mac' = mac
  · subst hmac
    rw [if_pos rfl, hget]
    constructor
    · rintro ⟨⟩
    · rintro ⟨⟩
      rw [hm] at hm'
      cases hm'
  · rw [if_neg hmac]

theorem deauthentication_invariant (h : u.HostInvariant disconnected) (mac : MacAddress) :
    (u.handleDeauthenticationFrame mac).uds.HostInvariant disconnected := by
  unfold handleDeauthenticationFrame
  split
  · exact h
  · rename_i hstatus
    rw [ne_eq, not_not] at hstatus
    have hinv := h hstatus
    split
    · exact h
    · rename_i node hget
      cases disconnected with
      | true =>
        have := hinv.noMap
        rw [this] at hget
        cases hget
      | false =>
        cases hconn : node.connected with
        | false =>
          refine fun _ => erase_invariant hinv hget ?_
          simp [Node.isMember, hconn]
        | true =>
          cases hspec : node.spec with
          | true =>
            have herase := erase_invariant hinv hget (by simp [Node.isMember, hspec])
            simp only [Bool.not_true, Bool.false_eq_true, if_false, if_true]
            split
            · exact fun _ => herase
            · rename_i index hfound
              rw [node.spec_id hspec] at hfound
              exact fun _ => herase.reset_free (Membership.findIdx_spectator hfound)
          | false =>
            have hm : node.isMember = true := by simp [Node.isMember, hconn, hspec]
            obtain ⟨k, hid⟩ : ∃ k, node.nodeId = k + 1 :=
              ⟨node.nodeId - 1, by have := (hinv.notHost mac node hget hm).1; omega⟩
            simp only [hinv.findIdx_member hget hm hid, Bool.not_true, Bool.false_eq_true, if_false]
            refine fun _ => ?_
            have := hinv.dismiss hget hm hid
            simp only [dismiss, hid, Nat.add_sub_cancel]
            exact this

/-- A packet for this node only reaches the queue of its channel. -/
theorem secureData_invariant (h : u.HostInvariant disconnected) {packet : SecureData}
    (hdata : u.inNetwork = true → packet.srcNodeId ≠ u.connectionStatus.networkNodeId →
      u.addressedToUs packet = true → packet.isManagement = false) :
    ∃ out, u.handleSecureDataPacket packet = some out ∧ out.uds.HostInvariant disconnected := by
  unfold handleSecureDataPacket
  split
  · exact ⟨_, rfl, h⟩
  · rename_i hin
    split
    · exact ⟨_, rfl, h⟩
    · rename_i hsrc
      split
      · split
        · exact ⟨_, rfl, h⟩
        · split
          · exact ⟨_, rfl, h⟩
          · exact ⟨_, rfl, h⟩
      · rename_i hto
        have := hdata (by simpa using hin) hsrc (by simpa using hto)
        rw [if_neg (by simp [this])]
        split
        · exact ⟨_, rfl, h⟩
        · split
          · exact ⟨_, rfl, h⟩
          · exact ⟨_, rfl, h⟩

/-! ## Calls -/

theorem beginHosting_invariant {info : NetworkInfo} (hmax : 1 < info.maxNodes)
    (hmaxLe : info.maxNodes ≤ udsMaxNodes) (hsize : info.applicationDataSize ≤ applicationDataSize)
    (hmap : u.NoMembers) (hbits : u.NoBits) :
    ∃ out, u.beginHostingNetwork info = some out ∧ out.uds.HostInvariant false := by
  unfold beginHostingNetwork
  rw [if_neg (not_not.mpr hmax), if_neg (not_not.mpr hsize)]
  refine ⟨_, rfl, fun _ => ?_⟩
  exact Membership.begin hmax hmaxLe rfl u.connectionStatus hbits hmap

theorem ejectClient_uds (networkNodeId : Nat) : (u.ejectClient networkNodeId).uds = u := by
  unfold ejectClient
  split
  · rfl
  · split
    · rfl
    · split
      · rfl
      · split <;> rfl

theorem disconnectNetwork_invariant : u.disconnectNetwork.uds.HostInvariant true := by
  unfold disconnectNetwork
  split
  · exact fun _ => ⟨rfl, fun _ => rfl, rfl, rfl, rfl⟩
  · intro hhost
    cases hhost

theorem destroyNetwork_invariant (h : u.HostInvariant disconnected) :
    u.destroyNetwork.uds.HostInvariant disconnected := by
  unfold destroyNetwork
  split
  · exact h
  · intro hhost
    cases hhost

theorem shutdown_invariant (h : u.HostInvariant disconnected)
    (hmap : u.connectionStatus.status = .connectedAsHost → u.NoMembers) :
    u.shutdown.uds.HostInvariant disconnected := by
  intro hhost
  have hinv := h hhost
  cases disconnected with
  | true => exact ⟨hinv.noBits, hinv.noNodes, hinv.noTotal, hinv.noMax, rfl⟩
  | false =>
    refine hinv.congr_map fun mac node hm => ?_
    constructor
    · intro hget
      cases hget
    · intro hget
      rw [hmap hhost mac node hget] at hm
      cases hm

/-! ## Runs -/

/-- One event, when the host is ready for it. -/
theorem step_invariant (h : u.HostInvariant disconnected) {e : Event} (hr : u.Regular e) :
    ∃ u', u.step e = some u' ∧ u'.HostInvariant (disconnectedBy disconnected e) := by
  suffices hout : ∃ out, u.handle e = some out ∧
      out.uds.HostInvariant (disconnectedBy disconnected e) by
    obtain ⟨out, hhandle, hinv⟩ := hout
    exact ⟨out.uds, by rw [step, hhandle]; rfl, hinv⟩
  cases e with
  | initializeWithVersion sharedmemSize memorySize node =>
    refine ⟨_, if_neg (not_not.mpr hr), ?_⟩
    intro hhost
    cases hhost
  | beginHostingNetwork info =>
    obtain ⟨hmax, hmaxLe, hsize, hmap, hbits⟩ := hr
    exact beginHosting_invariant hmax hmaxLe hsize hmap hbits
  | ejectClient networkNodeId =>
    refine ⟨_, rfl, ?_⟩
    rw [ejectClient_uds]
    exact h
  | disconnectNetwork => exact ⟨_, rfl, disconnectNetwork_invariant⟩
  | destroyNetwork => exact ⟨_, rfl, destroyNetwork_invariant h⟩
  | shutdown => exact ⟨_, rfl, shutdown_invariant h hr⟩
  | authentication mac =>
    simp only [handle]
    split
    · exact ⟨_, rfl, h⟩
    · exact ⟨_, rfl, authentication_invariant h mac⟩
  | eapolStart mac node type =>
    simp only [handle]
    split
    · exact ⟨_, rfl, h⟩
    · exact eapolStart_invariant h hr node type
  | secureData packet =>
    simp only [handle]
    split
    · exact ⟨_, rfl, h⟩
    · exact secureData_invariant h hr
  | deauthentication mac =>
    simp only [handle]
    split
    · exact ⟨_, rfl, h⟩
    · exact ⟨_, rfl, deauthentication_invariant h mac⟩

theorem regularRun_cons {u' : Uds} {e : Event} {es : List Event} (he : u.Regular e)
    (hstep : u.step e = some u') (hes : u'.RegularRun es) : u.RegularRun (e :: es) := by
  refine ⟨he, ?_⟩
  intro v hv
  rw [hstep] at hv
  cases hv
  exact hes

theorem run_invariant {es : List Event} (h : u.HostInvariant disconnected) (hr : u.RegularRun es) :
    ∃ u', u.run es = some u' ∧ u'.HostInvariant (es.foldl disconnectedBy disconnected) := by
  induction es generalizing u disconnected with
  | nil => exact ⟨u, rfl, h⟩
  | cons e es ih =>
    obtain ⟨he, hes⟩ := hr
    obtain ⟨u₁, hstep, h₁⟩ := step_invariant h he
    obtain ⟨u₂, hrun, h₂⟩ := ih h₁ (hes u₁ hstep)
    refine ⟨u₂, ?_, h₂⟩
    rw [run, hstep, Option.bind_some, hrun]

/-- In a run whose events all come when the host is ready for them, no assertion fails, and what a
host has recorded agrees. If it has called `DisconnectNetwork` since it began hosting, it has
nobody recorded, itself included. -/
theorem host_bookkeeping (mac : MacAddress) (es : List Event) (hr : (start mac).RegularRun es) :
    ∃ u, (start mac).run es = some u ∧
      (u.connectionStatus.status = .connectedAsHost →
        if es.foldl disconnectedBy false then Emptied u.connectionStatus u.nodeMap
        else Membership u.connectionStatus u.networkInfo.totalNodes u.nodeInfo u.nodeMap) := by
  refine run_invariant ?_ hr
  intro hhost
  cases hhost

/-- A client and a spectator join a network of two, and the client leaves. -/
theorem host_bookkeeping_visit :
    ∃ u, (start 7).run
      [.initializeWithVersion 0 0 .zero, .beginHostingNetwork ⟨0, 0, 0, 2, 0⟩, .authentication 1,
        .authentication 2, .eapolStart 2 .zero .spectator, .eapolStart 1 .zero .client,
        .deauthentication 1] = some u ∧
      (u.connectionStatus.status = .connectedAsHost →
        Membership u.connectionStatus u.networkInfo.totalNodes u.nodeInfo u.nodeMap) := by
  refine host_bookkeeping 7 _ ?_
  refine regularRun_cons rfl rfl ?_
  refine regularRun_cons ⟨by decide, by decide, by decide, nofun, ?_⟩ rfl ?_
  · intro i hpos _
    exact ⟨BitVec.getLsbD_zero .., (Nat.succ_ne_zero i).symm⟩
  -- the two handshakes come while the host is alone
  refine regularRun_cons trivial rfl ?_
  refine regularRun_cons trivial rfl ?_
  refine regularRun_cons (fun _ _ _ _ => by decide) rfl ?_
  refine regularRun_cons (fun _ _ _ _ => by decide) rfl ?_
  exact regularRun_cons trivial rfl trivial

/-- A host that disconnects from its network still is its host, of two counts that differ. -/
theorem disconnected_host_counts :
    ∃ u, (start 7).run
      [.initializeWithVersion 0 0 .zero, .beginHostingNetwork ⟨0, 0, 0, 2, 0⟩,
        .disconnectNetwork] = some u ∧
      u.connectionStatus.status = .connectedAsHost ∧
      u.connectionStatus.totalNodes = 0 ∧ u.networkInfo.totalNodes = 1 ∧
      ¬ Membership u.connectionStatus u.networkInfo.totalNodes u.nodeInfo u.nodeMap := by
  refine ⟨_, rfl, rfl, rfl, rfl, ?_⟩
  intro h
  cases h.infoCount

/-- Two handshakes at a time, with room for one: the second start frame fails the assertion. -/
example :
    (start 7).run
      [.initializeWithVersion 0 0 .zero, .beginHostingNetwork ⟨0, 0, 0, 2, 0⟩, .authentication 1,
        .authentication 2, .eapolStart 1 .zero .client, .eapolStart 2 .zero .client] = none :=
  rfl

end Uds

end GbaStation.Nwm
