import GbaStation.Common.OrdMap
import GbaStation.Common.PagedMemory

/-!
# The host side of local wireless play (`core/hle/service/nwm/nwm_uds.cpp`)

The `nwm::UDS` service as the host of a network sees it: the guest's calls, and the frames that
come from the room.

- A frame is what its parser returns: the fields that its handler reads.
- Every handler holds `connection_status_mutex`, so a run is a list of calls and frames.
- `none` is an assertion or an `UNREACHABLE` that ends the emulator.
- An outcome has the packets handed to `SendPacket`, in order. The events that are signalled, and
  the beacon timer, are left out.
-/

namespace GbaStation.Nwm

/-- The six bytes of a MAC address, which compare as a big-endian number. -/
abbrev MacAddress := Nat

/-! ## Constants -/

def broadcastMac : MacAddress := 0xFFFFFFFFFFFF
def broadcastNetworkNodeId : Nat := 0xFFFF
def hostDestNodeId : Nat := 1
def nodeIDSpec : Nat := 0
def udsMaxNodes : Nat := 16
def applicationDataSize : Nat := 0xC8
def defaultNetworkChannel : Nat := 11

/-! ## Data -/

structure NodeInfo where
  friendCodeSeed : Nat
  username : List Nat
  networkNodeId : Nat
deriving DecidableEq, Repr

/-- `NodeInfo::Reset`, and what a new slot of `node_info` holds. -/
def NodeInfo.zero : NodeInfo := ⟨0, List.replicate 10 0, 0⟩

inductive NetworkStatus where
  /-- The value-initialised status, before the first `Initialize`. -/
  | zero
  | notConnected
  | connectedAsHost
  | connecting
  | connectedAsClient
  | connectedAsSpectator
deriving DecidableEq, Repr

inductive NetworkStatusChangeReason where
  | none
  | connectionEstablished
  | connectionLost
deriving DecidableEq, Repr

structure ConnectionStatus where
  status : NetworkStatus
  statusChangeReason : NetworkStatusChangeReason
  networkNodeId : Nat
  changedNodes : BitVec 16
  /-- The array of `UDSMaxNodes` entries. -/
  nodes : Nat → Nat
  totalNodes : Nat
  maxNodes : Nat
  nodeBitmask : BitVec 16

/-- `connection_status = {}`. -/
def ConnectionStatus.zero : ConnectionStatus :=
  ⟨.zero, .none, 0, 0, fun _ => 0, 0, 0, 0⟩

/-- The fields of `NetworkInfo` that the host's bookkeeping reads or writes. -/
structure NetworkInfo where
  hostMacAddress : MacAddress
  channel : Nat
  totalNodes : Nat
  maxNodes : Nat
  applicationDataSize : Nat
deriving DecidableEq, Repr

inductive ConnectionType where
  | client
  | spectator
  /-- Any other byte. -/
  | unknown (value : Nat)
deriving DecidableEq, Repr

/-- An entry of `node_map`. The handlers only ever give `NodeIDSpec` to a spectator. -/
structure Node where
  connected : Bool
  spec : Bool
  nodeId : Nat
  spec_id : spec = true → nodeId = nodeIDSpec
deriving DecidableEq, Repr

/-- Whether an entry of `node_map` is a client that has a place in the network. -/
def Node.isMember (node : Node) : Bool := node.connected && !node.spec

structure BindNodeData where
  bindNodeId : Nat
  channel : Nat
  networkNodeId : Nat
  receivedPackets : List (List Byte)

/-- The state of the service. `macAddress` is what `GetMacAddress` returns. -/
structure Uds where
  initialized : Bool
  connectionStatus : ConnectionStatus
  currentNode : NodeInfo
  nodeInfo : List NodeInfo
  networkInfo : NetworkInfo
  networkChannel : Nat
  nodeMap : OrdMap Node
  channelData : OrdMap BindNodeData
  macAddress : MacAddress

/-- A `u8` that is counted up. -/
def incr8 (n : Nat) : Nat := (n + 1) % 2 ^ 8

/-- A `u8` that is counted down. -/
def decr8 (n : Nat) : Nat := (n + (2 ^ 8 - 1)) % 2 ^ 8

/-! ## Packets and results -/

inductive Packet where
  | authentication (dest : MacAddress)
  | associationResponse (dest : MacAddress)
  | nodeMap (entries : List (MacAddress × Nat))
  | eapolLogoff (assignedNodeId : Nat) (nodes : List NodeInfo) (maxNodes totalNodes : Nat)
  | secureData (data : List Byte)
  | deauthentication (dest : MacAddress)
deriving DecidableEq, Repr

/-- What a guest's call returns. -/
inductive ResultCode where
  | success
  | hostNotEjected
  | notAuthorized
  | wrongStatus
  | calledAsHost
deriving DecidableEq, Repr

structure Outcome where
  uds : Uds
  sent : List Packet
  result : ResultCode

/-- The outcome of a handler that returns without doing anything. -/
def Uds.ignore (u : Uds) : Outcome := ⟨u, [], .success⟩

namespace Uds

/-! ## Frames -/

/-- `GetNextAvailableNodeId`: the first node id whose bit is clear. -/
def getNextAvailableNodeId (u : Uds) : Option Nat :=
  ((List.range u.connectionStatus.maxNodes).find? fun index =>
    !u.connectionStatus.nodeBitmask.getLsbD index).map (· + 1)

/-- `BroadcastNodeMap`. -/
def broadcastNodeMap (u : Uds) : Packet :=
  .nodeMap ((u.nodeMap.filter fun e => e.2.isMember).map fun e => (e.1, e.2.nodeId))

/-- `HandleAuthenticationFrame` of a `SEQ1` frame. -/
def handleAuthenticationFrame (u : Uds) (mac : MacAddress) : Outcome :=
  if u.connectionStatus.status ≠ .connectedAsHost then u.ignore
  else if (u.nodeMap.get? mac).isSome then u.ignore
  else if u.connectionStatus.maxNodes = u.connectionStatus.totalNodes then u.ignore
  else
    -- `operator[]` makes a zeroed entry
    ⟨{ u with nodeMap := u.nodeMap.emplace mac ⟨false, false, 0, nofun⟩ },
      [.authentication mac, .associationResponse mac], .success⟩

/-- A client takes the place `nodeId`. -/
def admitNode (u : Uds) (mac : MacAddress) (node : NodeInfo) (nodeId : Nat) : Uds :=
  let bit := 1#16 <<< (nodeId - 1)
  { u with
    connectionStatus :=
      { u.connectionStatus with
        nodeBitmask := u.connectionStatus.nodeBitmask ||| bit
        changedNodes := u.connectionStatus.changedNodes ||| bit
        nodes := Function.update u.connectionStatus.nodes (nodeId - 1) nodeId
        totalNodes := incr8 u.connectionStatus.totalNodes }
    nodeInfo := u.nodeInfo.set (nodeId - 1) { node with networkNodeId := nodeId }
    networkInfo := { u.networkInfo with totalNodes := incr8 u.networkInfo.totalNodes }
    nodeMap := u.nodeMap.set mac ⟨true, false, nodeId, nofun⟩ }

/-- The logoff frame that ends a handshake. -/
def eapolLogoff (u : Uds) (assignedNodeId : Nat) : Packet :=
  .eapolLogoff assignedNodeId u.nodeInfo u.networkInfo.maxNodes u.networkInfo.totalNodes

/-- `HandleEAPoLPacket` of a start frame. -/
def handleEAPoLStart (u : Uds) (mac : MacAddress) (node : NodeInfo) (type : ConnectionType) :
    Option Outcome :=
  if u.connectionStatus.status ≠ .connectedAsHost then some u.ignore
  else
    match u.nodeMap.get? mac with
    | none => some u.ignore
    | some entry =>
      if entry.connected then some u.ignore
      else if u.connectionStatus.maxNodes = u.connectionStatus.totalNodes then none
      else
        match type with
        | .client => do
          let nodeId ← u.getNextAvailableNodeId
          let u' := u.admitNode mac node nodeId
          return ⟨u', [u'.broadcastNodeMap, u'.eapolLogoff nodeId], .success⟩
        | .spectator =>
          let u' := { u with nodeMap := u.nodeMap.set mac ⟨true, true, nodeIDSpec, fun _ => rfl⟩ }
          some ⟨u', [u'.eapolLogoff node.networkNodeId], .success⟩
        | .unknown _ => some ⟨u, [u.eapolLogoff node.networkNodeId], .success⟩

/-- The place of a client is given back. -/
def dismiss (u : Uds) (nodeId : Nat) : Uds :=
  let bit := 1#16 <<< (nodeId - 1)
  { u with
    connectionStatus :=
      { u.connectionStatus with
        nodeBitmask := u.connectionStatus.nodeBitmask &&& ~~~bit
        changedNodes := u.connectionStatus.changedNodes ||| bit
        totalNodes := decr8 u.connectionStatus.totalNodes
        nodes := Function.update u.connectionStatus.nodes (nodeId - 1) 0 }
    networkInfo := { u.networkInfo with totalNodes := decr8 u.networkInfo.totalNodes } }

/-- `node_it->Reset()`. -/
def resetNodeInfo (u : Uds) (index : Nat) : Uds :=
  { u with nodeInfo := u.nodeInfo.set index .zero }

/-- `HandleDeauthenticationFrame`. -/
def handleDeauthenticationFrame (u : Uds) (mac : MacAddress) : Outcome :=
  if u.connectionStatus.status ≠ .connectedAsHost then u.ignore
  else
    match u.nodeMap.get? mac with
    | none => u.ignore
    | some node =>
      let u := { u with nodeMap := u.nodeMap.erase mac }
      if !node.connected then u.ignore
      else
        match u.nodeInfo.findIdx? fun info => info.networkNodeId = node.nodeId with
        | none => u.ignore
        | some index =>
          if node.spec then (u.resetNodeInfo index).ignore
          else ((u.dismiss node.nodeId).resetNodeInfo index).ignore

/-- What `ParseSecureDataHeader` returns, with the data and the destination of the packet. -/
structure SecureData where
  isManagement : Bool
  dataChannel : Nat
  destNodeId : Nat
  srcNodeId : Nat
  destinationAddress : MacAddress
  data : List Byte

/-- Whether the service is in a network. -/
def inNetwork (u : Uds) : Bool :=
  u.connectionStatus.status = .connectedAsHost || u.connectionStatus.status = .connectedAsClient ||
    u.connectionStatus.status = .connectedAsSpectator

/-- Whether a packet is for this node. -/
def addressedToUs (u : Uds) (packet : SecureData) : Bool :=
  packet.destNodeId = u.connectionStatus.networkNodeId ||
    packet.destNodeId = broadcastNetworkNodeId

/-- `HandleSecureDataPacket`. -/
def handleSecureDataPacket (u : Uds) (packet : SecureData) : Option Outcome :=
  if !u.inNetwork then some u.ignore
  else if packet.srcNodeId = u.connectionStatus.networkNodeId then some u.ignore
  else if !u.addressedToUs packet then
    if packet.destinationAddress ≠ broadcastMac ∧
        u.connectionStatus.status ≠ .connectedAsHost then
      some u.ignore
    else if u.connectionStatus.status = .connectedAsHost ∧
        packet.destNodeId ≠ broadcastNetworkNodeId then
      some ⟨u, [.secureData packet.data], .success⟩
    else some u.ignore
  else if packet.isManagement then none
  else
    match u.channelData.get? packet.dataChannel with
    | none => some u.ignore
    | some channel =>
      if channel.networkNodeId ≠ broadcastNetworkNodeId ∧
          channel.networkNodeId ≠ packet.srcNodeId then
        some u.ignore
      else
        let channel :=
          { channel with receivedPackets := channel.receivedPackets ++ [packet.data] }
        some { u with channelData := u.channelData.set packet.dataChannel channel }.ignore

/-! ## Calls -/

/-- `Initialize`, which is `InitializeWithVersion` of the guest. `memorySize` is the size of the
shared memory that comes with the call. -/
def initializeWithVersion (u : Uds) (sharedmemSize memorySize : Nat) (node : NodeInfo) :
    Option Outcome :=
  if memorySize ≠ sharedmemSize then none
  else
    some { u with
      currentNode := node
      initialized := true
      connectionStatus := { ConnectionStatus.zero with status := .notConnected }
      nodeInfo := [node]
      channelData := [] }.ignore

/-- `BeginHostingNetwork`. -/
def beginHostingNetwork (u : Uds) (info : NetworkInfo) : Option Outcome :=
  if ¬ info.maxNodes > 1 then none
  else if ¬ info.applicationDataSize ≤ applicationDataSize then none
  else
    let current := { u.currentNode with networkNodeId := 1 }
    some { u with
      connectionStatus :=
        { u.connectionStatus with
          status := .connectedAsHost
          statusChangeReason := .connectionEstablished
          maxNodes := info.maxNodes
          totalNodes := 1
          networkNodeId := 1
          nodes := Function.update u.connectionStatus.nodes 0 1
          nodeBitmask := u.connectionStatus.nodeBitmask ||| 1#16
          changedNodes := u.connectionStatus.changedNodes ||| 1#16 }
      currentNode := current
      nodeInfo := (List.replicate info.maxNodes NodeInfo.zero).set 0 current
      networkInfo :=
        { info with
          totalNodes := 1
          hostMacAddress := u.macAddress
          channel := if info.channel ≠ 0 then info.channel else defaultNetworkChannel }
      networkChannel := if info.channel ≠ 0 then info.channel else u.networkChannel }.ignore

/-- `GetNodeMacAddress` without flags. -/
def getNodeMacAddress (u : Uds) (destNodeId : Nat) : Option MacAddress :=
  if destNodeId = broadcastNetworkNodeId then some broadcastMac
  else if destNodeId = hostDestNodeId then some u.networkInfo.hostMacAddress
  else (u.nodeMap.find? fun e => e.2.nodeId = destNodeId && e.2.connected).map Prod.fst

/-- `EjectClientHLE`. -/
def ejectClient (u : Uds) (networkNodeId : Nat) : Outcome :=
  if networkNodeId = 1 then ⟨u, [], .hostNotEjected⟩
  else if u.connectionStatus.status ≠ .connectedAsHost then ⟨u, [], .notAuthorized⟩
  else if networkNodeId = broadcastNetworkNodeId then
    ⟨u, List.replicate 3 (.deauthentication broadcastMac), .success⟩
  else
    match u.getNodeMacAddress networkNodeId with
    | none => u.ignore
    | some dest => ⟨u, [.deauthentication dest], .success⟩

/-- `connection_status = {}`, but for the status and the node id. -/
def resetConnection (u : Uds) (status : NetworkStatus) : Uds :=
  { u with
    connectionStatus :=
      { ConnectionStatus.zero with
        status := status
        networkNodeId := u.connectionStatus.networkNodeId }
    nodeMap := [] }

/-- `DisconnectNetworkHLE`. -/
def disconnectNetwork (u : Uds) : Outcome :=
  if u.connectionStatus.status = .connectedAsHost then
    -- "A real 3ds makes strange things here. We do the same"
    ⟨u.resetConnection .connectedAsHost, [], .calledAsHost⟩
  else
    ⟨{ u.resetConnection .notConnected with channelData := [] },
      [.deauthentication u.networkInfo.hostMacAddress], .success⟩

/-- `DestroyNetworkHLE`. -/
def destroyNetwork (u : Uds) : Outcome :=
  if u.connectionStatus.status ≠ .connectedAsHost then ⟨u, [], .wrongStatus⟩
  else { u.resetConnection .notConnected with channelData := [] }.ignore

/-- `ShutdownHLE`. -/
def shutdown (u : Uds) : Outcome :=
  { u with
    initialized := false
    channelData := []
    nodeMap := [] }.ignore

/-! ## Runs -/

/-- A call of the guest or a frame from the room. -/
inductive Event where
  | initializeWithVersion (sharedmemSize memorySize : Nat) (node : NodeInfo)
  | beginHostingNetwork (info : NetworkInfo)
  | ejectClient (networkNodeId : Nat)
  | disconnectNetwork
  | destroyNetwork
  | shutdown
  | authentication (mac : MacAddress)
  | eapolStart (mac : MacAddress) (node : NodeInfo) (type : ConnectionType)
  | secureData (packet : SecureData)
  | deauthentication (mac : MacAddress)

/-- A call is handled in any case; `OnWifiPacketReceived` drops frames before `Initialize` and
after `Shutdown`. -/
def handle (u : Uds) : Event → Option Outcome
  | .initializeWithVersion sharedmemSize memorySize node =>
    u.initializeWithVersion sharedmemSize memorySize node
  | .beginHostingNetwork info => u.beginHostingNetwork info
  | .ejectClient networkNodeId => some (u.ejectClient networkNodeId)
  | .disconnectNetwork => some u.disconnectNetwork
  | .destroyNetwork => some u.destroyNetwork
  | .shutdown => some u.shutdown
  | .authentication mac =>
    if !u.initialized then some u.ignore else some (u.handleAuthenticationFrame mac)
  | .eapolStart mac node type =>
    if !u.initialized then some u.ignore else u.handleEAPoLStart mac node type
  | .secureData packet =>
    if !u.initialized then some u.ignore else u.handleSecureDataPacket packet
  | .deauthentication mac =>
    if !u.initialized then some u.ignore else some (u.handleDeauthenticationFrame mac)

/-- The service after an event. -/
def step (u : Uds) (e : Event) : Option Uds := (u.handle e).map Outcome.uds

/-- The service after a run, unless an assertion fails. -/
def run (u : Uds) : List Event → Option Uds
  | [] => some u
  | e :: es => (u.step e).bind fun u' => u'.run es

/-- The service when it is made, on a system with the given MAC address. -/
def start (mac : MacAddress) : Uds where
  initialized := false
  connectionStatus := .zero
  currentNode := .zero
  nodeInfo := []
  networkInfo := ⟨0, 0, 0, 0, 0⟩
  networkChannel := defaultNetworkChannel
  nodeMap := []
  channelData := []
  macAddress := mac

end Uds

end GbaStation.Nwm
