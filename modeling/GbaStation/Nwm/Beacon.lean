import GbaStation.Common.Checked
import GbaStation.Nwm.Uds

/-!
# Beacon frames (`core/hle/service/nwm/uds_beacon.cpp`)

What a host broadcasts about its network, and how a console that hears it gets the nodes out of it.
The list of the nodes is encrypted and divided among two tags, by the size of a `NodeInfo` in memory;
the list itself is a header and smaller records.

- A `memcpy` out of a buffer is checked (`readAt`).
-/

namespace GbaStation.Nwm.Beacon

/-- MD5, SHA-1, and the keystream of AES in counter mode under the beacon key. -/
structure Crypto where
  md5 : List Byte → Vector Byte 0x10
  sha1 : List Byte → Vector Byte 0x14
  keystream : List Byte → Nat → Byte

/-! ## Constants -/

def encryptedDataSizeCutoff : Nat := 0xFA
/-- `sizeof(NodeInfo)`, with its padding. -/
def nodeInfoSize : Nat := 40
/-- `sizeof(BeaconNodeInfo)`. -/
def beaconNodeInfoSize : Nat := 0x1E
/-- `sizeof(BeaconData)`. -/
def beaconDataSize : Nat := 0x12

def nintendoOUI : List Byte := [0x00, 0x1F, 0x32]
def vendorSpecific : Byte := 221
def dummy : Byte := 20
def networkInfo : Byte := 21
def encryptedData0 : Byte := 24
def encryptedData1 : Byte := 25

/-! ## Data -/

structure NodeInfo where
  friendCodeSeed : BitVec 64
  username : Vector (BitVec 16) 10
  networkNodeId : BitVec 16
deriving DecidableEq, Repr

/-- The fields of `NetworkInfo` that a beacon has, in their order. -/
structure NetworkInfo where
  hostMacAddress : Vector Byte 6
  ouiValue : Vector Byte 3
  ouiType : Byte
  wlanCommId : BitVec 32
  id : Byte
  padding : Byte
  attributes : BitVec 16
  networkId : BitVec 32
  totalNodes : Byte
  maxNodes : Byte
  /-- What the tag copies of the padding. -/
  padding2 : Vector Byte 0xB
  applicationDataSize : Byte
  applicationData : Vector Byte 0xC8

/-- What `BeginHostingNetwork` makes sure of, for no more nodes than a session can have. -/
structure NetworkInfo.Hosted (info : NetworkInfo) : Prop where
  ouiValue : info.ouiValue.toList = nintendoOUI
  ouiType : info.ouiType = networkInfo
  applicationDataSize : info.applicationDataSize.toNat ≤ Nwm.applicationDataSize
  one_lt : 1 < info.maxNodes.toNat
  maxNodes_le : info.maxNodes.toNat ≤ udsMaxNodes

/-! ## Encoding -/

def littleEndianBytes (n value : Nat) : List Byte := (List.range n).map (bytesOf value)

def bigEndianBytes (n value : Nat) : List Byte := (littleEndianBytes n value).reverse

/-- A `BeaconNodeInfo`. -/
def NodeInfo.beaconBytes (node : NodeInfo) : List Byte :=
  bigEndianBytes 8 node.friendCodeSeed.toNat ++
    node.username.toList.flatMap (fun c => bigEndianBytes 2 c.toNat) ++
    bigEndianBytes 2 node.networkNodeId.toNat

def NodeInfo.ofBeaconBytes (bytes : List Byte) : NodeInfo where
  friendCodeSeed := .ofNat 64 (bigEndian (bytesAt bytes 0 8))
  username := .ofFn fun i => .ofNat 16 (bigEndian (bytesAt bytes (8 + 2 * i) 2))
  networkNodeId := .ofNat 16 (bigEndian (bytesAt bytes 28 2))

def generateFixedParameters : List Byte :=
  littleEndianBytes 8 900000000 ++ littleEndianBytes 2 100 ++ littleEndianBytes 2 0x0431

def generateSSIDTag : List Byte := [0, 8] ++ List.replicate 8 0

def generateBasicTaggedParameters : List Byte := generateSSIDTag

def generateNintendoDummyTag : List Byte :=
  [vendorSpecific, 7] ++ nintendoOUI ++ [dummy] ++ [0x0A, 0x00, 0x00]

/-- The 0x1F bytes of the structure from the OUI on. -/
def NetworkInfo.tagBytes (info : NetworkInfo) : List Byte :=
  info.ouiValue.toList ++ [info.ouiType] ++ bigEndianBytes 4 info.wlanCommId.toNat ++
    [info.id, info.padding] ++ bigEndianBytes 2 info.attributes.toNat ++
    bigEndianBytes 4 info.networkId.toNat ++ [info.totalNodes, info.maxNodes] ++
    info.padding2.toList

variable (c : Crypto) (info : NetworkInfo) (nodes : List NodeInfo)

def generateNintendoNetworkInfoTag : Except Fault (List Byte) := do
  let size := info.applicationDataSize.toNat
  ensure (info.ouiType = networkInfo) .assertion
  ensure (info.ouiValue.toList = nintendoOUI) .assertion
  ensure (size ≤ applicationDataSize) .assertion
  let body (hash : Vector Byte 0x14) := info.tagBytes ++ hash.toList ++
    [info.applicationDataSize] ++ info.applicationData.toList.take size
  return [vendorSpecific, .ofNat 8 (52 + size)] ++ body (c.sha1 (body (.replicate _ 0)))

def getBeaconCryptoCTR : List Byte :=
  info.hostMacAddress.toList ++ littleEndianBytes 4 info.wlanCommId.toNat ++ [info.id, 0] ++
    littleEndianBytes 4 info.networkId.toNat

/-- `ProcessData`, which encrypts and decrypts. -/
def processData (buffer : List Byte) : List Byte :=
  buffer.mapIdx fun i b => b ^^^ c.keystream (getBeaconCryptoCTR info) i

def generatedEncryptedData : List Byte :=
  let body := List.replicate (beaconDataSize - 0x10) 0 ++ nodes.flatMap NodeInfo.beaconBytes
  processData c info ((c.md5 body).toList ++ body)

def encryptedDataTag (ouiType : Byte) (payload : List Byte) : List Byte :=
  [vendorSpecific, .ofNat 8 (4 + payload.length)] ++ nintendoOUI ++ [ouiType] ++ payload

def generateNintendoFirstEncryptedDataTag : Except Fault (List Byte) := do
  let payloadSize := min encryptedDataSizeCutoff (nodes.length * nodeInfoSize)
  let payload ← readAt (generatedEncryptedData c info nodes) 0 payloadSize
  return encryptedDataTag encryptedData0 payload

def generateNintendoSecondEncryptedDataTag : Except Fault (List Byte) :=
  if nodes.length * nodeInfoSize ≤ encryptedDataSizeCutoff then return [] else do
  let payloadSize := nodes.length * nodeInfoSize - encryptedDataSizeCutoff
  ensure (4 + payloadSize ≤ 255) .assertion
  let payload ← readAt (generatedEncryptedData c info nodes) encryptedDataSizeCutoff payloadSize
  return encryptedDataTag encryptedData1 payload

def generateNintendoTaggedParameters : Except Fault (List Byte) := do
  ensure (info.maxNodes.toNat = nodes.length) .assertion
  let networkInfoTag ← generateNintendoNetworkInfoTag c info
  let firstDataTag ← generateNintendoFirstEncryptedDataTag c info nodes
  let secondDataTag ← generateNintendoSecondEncryptedDataTag c info nodes
  return generateNintendoDummyTag ++ networkInfoTag ++ firstDataTag ++ secondDataTag

def generateBeaconFrame : Except Fault (List Byte) := do
  let nintendoTags ← generateNintendoTaggedParameters c info nodes
  return generateFixedParameters ++ generateBasicTaggedParameters ++ nintendoTags

/-! ## Decoding -/

/-- `NWM_UDS::DecryptBeaconData`: the nodes that the guest gets. -/
def decryptBeaconData (data0 data1 : List Byte) : Except Fault (List NodeInfo) := do
  ensure ((← readAt data0 0 3) = nintendoOUI) .assertion
  ensure ((← byteAt data0 3) = encryptedData0) .assertion
  -- the sizes of the copies are unsigned
  ensure (4 ≤ data1.length) .read
  let beaconData := processData c info (data0.drop 4 ++ data1.drop 4)
  let _ ← readAt beaconData 0 beaconDataSize
  let nodes ← (List.range info.maxNodes.toNat).mapM fun i => do
    let bytes ← readAt beaconData (beaconDataSize + i * beaconNodeInfoSize) beaconNodeInfoSize
    return NodeInfo.ofBeaconBytes bytes
  ensure (nodes.length ≤ udsMaxNodes) .write
  return nodes

/-- A tag of a frame. -/
structure Tag where
  tagId : Byte
  payload : List Byte

def Tag.bytes (t : Tag) : List Byte := t.tagId :: .ofNat 8 t.payload.length :: t.payload

/-- The payload of the vendor's tag of a type; a tag that is missing has no data. -/
def vendorPayload (tags : List Tag) (ouiType : Byte) : List Byte :=
  let header := nintendoOUI ++ [ouiType]
  ((tags.find? fun t => t.tagId = vendorSpecific ∧ t.payload.take 4 = header).map
    Tag.payload).getD header

/-- The frame is complete and a sequence of tags, from which the nodes can be had again. -/
def RoundTrips : Prop :=
  ∃ frame tags, generateBeaconFrame c info nodes = .ok frame ∧
    (∀ t ∈ tags, t.payload.length < 0x100) ∧
    frame = generateFixedParameters ++ tags.flatMap Tag.bytes ∧
    decryptBeaconData c info (vendorPayload tags encryptedData0)
      (vendorPayload tags encryptedData1) = .ok nodes

/-! ## What the sizes come to -/

@[simp] theorem length_littleEndianBytes (n value : Nat) :
    (littleEndianBytes n value).length = n := by
  simp [littleEndianBytes]

@[simp] theorem length_bigEndianBytes (n value : Nat) : (bigEndianBytes n value).length = n := by
  simp [bigEndianBytes]

theorem length_beaconBytes (node : NodeInfo) : node.beaconBytes.length = beaconNodeInfoSize := by
  simp [NodeInfo.beaconBytes, List.length_flatMap, beaconNodeInfoSize]

/-- The data is a header and one record a node. -/
theorem length_generatedEncryptedData : (generatedEncryptedData c info nodes).length =
    beaconDataSize + nodes.length * beaconNodeInfoSize := by
  have hrecords : (nodes.flatMap NodeInfo.beaconBytes).length =
      nodes.length * beaconNodeInfoSize := by
    induction nodes with
    | nil => rfl
    | cons node nodes ih =>
      rw [List.flatMap_cons, List.length_append, ih, length_beaconBytes, List.length_cons,
        Nat.add_mul, Nat.one_mul, Nat.add_comm]
  rw [generatedEncryptedData, processData, List.length_mapIdx, List.length_append,
    List.length_append, hrecords, Vector.length_toList, List.length_replicate]
  unfold beaconDataSize
  omega

variable {info nodes}

theorem generateNintendoNetworkInfoTag_ok (h : info.Hosted) :
    ∃ tag, generateNintendoNetworkInfoTag c info = .ok tag := by
  rw [generateNintendoNetworkInfoTag, ensure, if_pos h.ouiType, ensure, if_pos h.ouiValue,
    ensure, if_pos h.applicationDataSize]
  exact ⟨_, rfl⟩

/-- Of a few nodes, the first tag is longer than the data. -/
theorem generateNintendoFirstEncryptedDataTag_eq (h : 1 < nodes.length) :
    (nodes.length < 8 → generateNintendoFirstEncryptedDataTag c info nodes = .error .read) ∧
      (8 ≤ nodes.length → ∃ tag, generateNintendoFirstEncryptedDataTag c info nodes = .ok tag) := by
  have hlen := length_generatedEncryptedData c info nodes
  unfold beaconDataSize beaconNodeInfoSize at hlen
  unfold generateNintendoFirstEncryptedDataTag encryptedDataSizeCutoff nodeInfoSize
  dsimp only
  constructor
  · intro hfew
    rw [readAt_outside (by omega)]
    rfl
  · intro hmany
    rw [readAt_inside (by omega)]
    exact ⟨_, rfl⟩

/-- The second tag is longer than the rest of the data, or than a tag can be. -/
theorem generateNintendoSecondEncryptedDataTag_eq (h : 8 ≤ nodes.length) :
    generateNintendoSecondEncryptedDataTag c info nodes =
      .error (if 12 < nodes.length then .assertion else .read) := by
  have hlen := length_generatedEncryptedData c info nodes
  unfold beaconDataSize beaconNodeInfoSize at hlen
  unfold generateNintendoSecondEncryptedDataTag encryptedDataSizeCutoff nodeInfoSize
  dsimp only
  rw [if_neg (by omega)]
  split_ifs with hmany
  · rw [ensure, if_neg (by omega)]
    rfl
  · rw [ensure, if_pos (by omega), readAt_outside (by omega)]
    rfl

/-- Where the frame of a hosted network ends. -/
theorem generateBeaconFrame_error (h : info.Hosted) (hn : nodes.length = info.maxNodes.toNat) :
    generateBeaconFrame c info nodes = .error (if 12 < nodes.length then .assertion else .read) := by
  have htwo : 1 < nodes.length := hn ▸ h.one_lt
  obtain ⟨networkInfoTag, hinfo⟩ := generateNintendoNetworkInfoTag_ok c h
  obtain ⟨hfew, hmany⟩ := (@generateNintendoFirstEncryptedDataTag_eq c info _) htwo
  rw [generateBeaconFrame, generateNintendoTaggedParameters, ensure, if_pos hn.symm, hinfo]
  rcases Nat.lt_or_ge nodes.length 8 with hlt | hge
  · rw [hfew hlt, if_neg (by omega)]
    rfl
  · obtain ⟨firstDataTag, hfirst⟩ := hmany hge
    rw [hfirst, generateNintendoSecondEncryptedDataTag_eq c hge]
    rfl

/-- No beacon of a hosted network makes it back. -/
theorem not_roundTrips (h : info.Hosted) (hn : nodes.length = info.maxNodes.toNat) :
    ¬ RoundTrips c info nodes := by
  rintro ⟨frame, tags, hframe, -⟩
  rw [generateBeaconFrame_error c h hn] at hframe
  cases hframe

section Example

/-- A cipher that does nothing, and hashes that are all zero. -/
def exampleCrypto : Crypto where
  md5 _ := .replicate _ 0
  sha1 _ := .replicate _ 0
  keystream _ _ := 0

/-- A network of `maxNodes` without application data. -/
def exampleInfo (maxNodes : Byte) : NetworkInfo where
  hostMacAddress := .replicate _ 0
  ouiValue := ⟨nintendoOUI.toArray, rfl⟩
  ouiType := networkInfo
  wlanCommId := 0
  id := 0
  padding := 0
  attributes := 0
  networkId := 0
  totalNodes := 1
  maxNodes
  padding2 := .replicate _ 0
  applicationDataSize := 0
  applicationData := .replicate _ 0

def exampleNode : NodeInfo := ⟨0, .replicate _ 0, 1⟩

theorem exampleInfo_hosted (maxNodes : Byte) (h : 1 < maxNodes.toNat)
    (h' : maxNodes.toNat ≤ udsMaxNodes) : (exampleInfo maxNodes).Hosted :=
  ⟨rfl, rfl, Nat.zero_le _, h, h'⟩

theorem not_roundTrips_sixteen :
    ¬ RoundTrips exampleCrypto (exampleInfo 16) (List.replicate 16 exampleNode) :=
  not_roundTrips exampleCrypto (exampleInfo_hosted 16 (by decide) (by decide)) rfl

/-- Two nodes: the first tag is made of 80 bytes of 78. -/
theorem two_nodes_not_roundTrips :
    (exampleInfo 2).Hosted ∧ ¬ RoundTrips exampleCrypto (exampleInfo 2) [exampleNode, exampleNode] := by
  have hread : generateBeaconFrame exampleCrypto (exampleInfo 2) [exampleNode, exampleNode] =
      .error .read := by decide +kernel
  refine ⟨exampleInfo_hosted 2 (by decide) (by decide), ?_⟩
  rintro ⟨frame, tags, hframe, -⟩
  rw [hread] at hframe
  cases hframe

end Example

end GbaStation.Nwm.Beacon
