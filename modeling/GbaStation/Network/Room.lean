import GbaStation.Common.Interleaving
import GbaStation.Network.Packet

/-!
# Rooms (`network/room.cpp`)

A room relays packets between its members. Its thread handles one event of the network at a time.

- `handleJoinRequest` and the handlers of the other packets, under the names of the source. Each
  gives the room afterwards and what is sent.

What the source gets from elsewhere comes with an event (`Environment`): the user data of the
verification backend, the random bytes of a generated address, and what is in memory that is read
without having been written. A packet without a type makes the source read through a null pointer;
there is no step for it. `verified` and `departed` are not in the source.
-/

namespace GbaStation.Network

/-- `network_version`. -/
def networkVersion : Nat := 4

/-- `MaxMessageSize`. -/
def maxMessageSize : Nat := 500

/-- `NoPreferredMac`: the room is to assign an address. -/
def noPreferredMac : List Byte := List.replicate 6 0xFF

/-- `BroadcastMac`. -/
def broadcastMac : List Byte := List.replicate 6 0xFF

/-- The bytes that every generated address starts with, of `NintendoOUI`. -/
def nintendoOui : List Byte := [0x00, 0x1F, 0x32]

/-- `VerifyUser::UserData`. -/
structure UserData where
  username : List Byte := []
  displayName : List Byte := []
  avatarUrl : List Byte := []
  moderator : Bool := false
deriving DecidableEq

structure GameInfo where
  name : List Byte := []
  id : Nat := 0
deriving DecidableEq

structure Member (P : Type) where
  nickname : List Byte
  consoleIdHash : List Byte
  gameInfo : GameInfo := {}
  macAddress : List Byte
  userData : UserData
  peer : P
  /-- What the verification backend has returned for the member. -/
  verified : UserData
deriving DecidableEq

structure RoomInformation where
  name : List Byte
  description : List Byte
  memberSlots : Nat
  port : Nat
  preferredGame : List Byte
  hostUsername : List Byte
deriving DecidableEq

structure Room (P : Type) where
  roomInformation : RoomInformation
  password : List Byte
  members : List (Member P) := []
  usernameBanList : List (List Byte) := []
  ipBanList : List (List Byte) := []
  /-- The host addresses of the peers, as text. -/
  hostIp : P → List Byte
  /-- The peers whose last event was a disconnection. -/
  departed : List P := []

/-- `StatusMessageTypes`. -/
inductive StatusMessageType where
  | memberJoin
  | memberLeave
  | memberKicked
  | memberBanned
  | addressUnbanned
deriving DecidableEq

/-- What `BroadcastRoomInformation` tells of a member. -/
structure MemberInformation where
  nickname : List Byte
  macAddress : List Byte
  gameInfo : GameInfo
  username : List Byte
  displayName : List Byte
  avatarUrl : List Byte
deriving DecidableEq

/-- The packets that a room sends. -/
inductive Message where
  | joinSuccess (macAddress : List Byte)
  | joinSuccessAsMod (macAddress : List Byte)
  | roomInformation (information : RoomInformation) (members : List MemberInformation)
  | wifiPacket (data : List Byte)
  | chatMessage (nickname username message : List Byte)
  | nameCollision
  | macCollision
  | versionMismatch (version : Nat)
  | wrongPassword
  | roomIsFull
  | consoleIdCollision
  | statusMessage (type : StatusMessageType) (nickname username : List Byte)
  | hostKicked
  | hostBanned
  | modBanListResponse (usernames ips : List (List Byte))
  | modPermissionDenied
  | modNoSuchUser
deriving DecidableEq

inductive Output (P : Type) where
  | send (peer : P) (message : Message)
  /-- To every peer that is connected. -/
  | broadcast (message : Message)
  | disconnect (peer : P)
deriving DecidableEq

/-- What the room gets from elsewhere while it handles an event. -/
structure Environment where
  userData : UserData
  randomBytes : List (Byte × Byte × Byte)
  before : Nat → Byte

inductive Event (P : Type) where
  | connect (peer : P) (hostIp : List Byte)
  | receive (peer : P) (data : List Byte) (env : Environment)
  | disconnect (peer : P)

namespace Room

variable {P : Type} [DecidableEq P]

/-! ## Checks -/

/-- The characters of `[ a-zA-Z0-9._-]`. -/
def isNicknameCharacter (b : Byte) : Bool :=
  b = 0x20 ∨ 0x61 ≤ b ∧ b ≤ 0x7A ∨ 0x41 ≤ b ∧ b ≤ 0x5A ∨ 0x30 ≤ b ∧ b ≤ 0x39 ∨
    b = 0x2E ∨ b = 0x5F ∨ b = 0x2D

/-- Of 4 to 20 such characters, and not taken by a member. -/
def isValidNickname (r : Room P) (nickname : List Byte) : Bool :=
  4 ≤ nickname.length ∧ nickname.length ≤ 20 ∧ nickname.all isNicknameCharacter ∧
    r.members.all fun m => m.nickname ≠ nickname

def isValidMacAddress (r : Room P) (address : List Byte) : Bool :=
  r.members.all fun m => m.macAddress ≠ address

def isValidConsoleId (r : Room P) (consoleIdHash : List Byte) : Bool :=
  r.members.all fun m => m.consoleIdHash ≠ consoleIdHash

/-- The first member with a peer. -/
def memberOf (r : Room P) (peer : P) : Option (Member P) := r.members.find? fun m => m.peer = peer

def hasModPermission (r : Room P) (client : P) : Bool :=
  match r.memberOf client with
  | none => false
  | some sendingMember =>
    -- Community moderator
    if sendingMember.userData.moderator then true
    -- Room host
    else r.roomInformation.hostUsername ≠ [] ∧
      sendingMember.userData.username = r.roomInformation.hostUsername

/-- The first address from the random bytes that is not taken; the source goes on until there is
one. -/
def generateMacAddress (r : Room P) (randomBytes : List (Byte × Byte × Byte)) :
    Option (List Byte) :=
  (randomBytes.map fun (a, b, c) => nintendoOui ++ [a, b, c]).find? r.isValidMacAddress

/-! ## Sending -/

def sendStatusMessage (r : Room P) (type : StatusMessageType) (nickname username : List Byte) :
    List (Output P) :=
  r.members.map fun m => .send m.peer (.statusMessage type nickname username)

def memberInformation (m : Member P) : MemberInformation :=
  ⟨m.nickname, m.macAddress, m.gameInfo, m.userData.username, m.userData.displayName,
    m.userData.avatarUrl⟩

def broadcastRoomInformation (r : Room P) : Output P :=
  .broadcast (.roomInformation r.roomInformation (r.members.map memberInformation))

/-- To every member but those with the peer. -/
def sendToOthers (r : Room P) (peer : P) (message : Message) : List (Output P) :=
  (r.members.filter fun m => m.peer ≠ peer).map fun m => .send m.peer message

/-! ## Joining -/

structure JoinRequest where
  nickname : List Byte
  consoleIdHash : List Byte
  preferredMac : List Byte
  clientVersion : Nat
  pass : List Byte

def readJoinRequest (data : List Byte) (before : Nat → Byte) : JoinRequest :=
  let packet : Packet := { data := data }
  let packet := packet.ignoreBytes 1
  let (nickname, packet) := packet.readString
  let (consoleIdHash, packet) := packet.readString
  let (preferredMac, packet) := packet.readArray before 6
  let (clientVersion, packet) := packet.readWord 4
  let (pass, _) := packet.readString
  ⟨nickname, consoleIdHash, preferredMac, clientVersion, pass⟩

/-- The address of a member that joins, or the answer if the preferred one is taken. There is none
if the random bytes do not give one. -/
def assignMac (r : Room P) (preferredMac : List Byte) (randomBytes : List (Byte × Byte × Byte)) :
    Option (Except Message (List Byte)) :=
  if preferredMac ≠ noPreferredMac then
    if r.isValidMacAddress preferredMac then some (.ok preferredMac)
    else some (.error .macCollision)
  else (r.generateMacAddress randomBytes).map .ok

/-- The member that joins, with the flag of a moderator if the nickname is the one of the host. -/
def newMember (r : Room P) (peer : P) (q : JoinRequest) (macAddress : List Byte)
    (userData : UserData) : Member P where
  nickname := q.nickname
  consoleIdHash := q.consoleIdHash
  macAddress := macAddress
  userData :=
    if q.nickname = r.roomInformation.hostUsername then { userData with moderator := true }
    else userData
  peer := peer
  verified := userData

/-- The username of a member is banned, or its address is. -/
def isBanned (r : Room P) (m : Member P) : Prop :=
  m.userData.username ≠ [] ∧ m.userData.username ∈ r.usernameBanList ∨
    r.hostIp m.peer ∈ r.ipBanList

instance (r : Room P) (m : Member P) : Decidable (r.isBanned m) :=
  inferInstanceAs (Decidable (_ ∧ _ ∨ _))

def handleJoinRequest (r : Room P) (peer : P) (data : List Byte) (env : Environment) :
    Option (Room P × List (Output P)) :=
  if r.roomInformation.memberSlots ≤ r.members.length then some (r, [.send peer .roomIsFull])
  else
    let q := readJoinRequest data env.before
    if q.pass ≠ r.password then some (r, [.send peer .wrongPassword])
    else if r.isValidNickname q.nickname = false then some (r, [.send peer .nameCollision])
    else
      match r.assignMac q.preferredMac env.randomBytes with
      | none => none
      | some (.error message) => some (r, [.send peer message])
      | some (.ok macAddress) =>
        if r.isValidConsoleId q.consoleIdHash = false then
          some (r, [.send peer .consoleIdCollision])
        else if q.clientVersion ≠ networkVersion then
          some (r, [.send peer (.versionMismatch networkVersion)])
        else
          let member := r.newMember peer q macAddress env.userData
          if r.isBanned member then some (r, [.send peer .hostBanned])
          else
            let joined := r.sendStatusMessage .memberJoin member.nickname member.userData.username
            let r := { r with members := r.members ++ [member] }
            let success :=
              if r.hasModPermission peer then .joinSuccessAsMod macAddress
              else .joinSuccess macAddress
            some (r, joined ++ [r.broadcastRoomInformation, .send peer success])

/-! ## Moderation -/

/-- The string of a request, after its type. -/
def readText (data : List Byte) : List Byte :=
  let packet : Packet := { data := data }
  (packet.ignoreBytes 1).readString.1

/-- Taking out the member with a nickname, after telling it why. -/
def removeNamed (r : Room P) (nickname : List Byte) : Room P :=
  { r with members := r.members.eraseP fun m => m.nickname = nickname }

def handleModKickPacket (r : Room P) (peer : P) (data : List Byte) :
    Room P × List (Output P) :=
  if r.hasModPermission peer = false then (r, [.send peer .modPermissionDenied])
  else
    let nickname := readText data
    match r.members.find? fun m => m.nickname = nickname with
    | none => (r, [.send peer .modNoSuchUser])
    | some target =>
      let r := r.removeNamed nickname
      (r, [.send target.peer .hostKicked, .disconnect target.peer] ++
        r.sendStatusMessage .memberKicked nickname target.userData.username ++
        [r.broadcastRoomInformation])

/-- `emplace_back` unless it is in the list. -/
def addBan (ban : List Byte) (list : List (List Byte)) : List (List Byte) :=
  if ban ∈ list then list else list ++ [ban]

def handleModBanPacket (r : Room P) (peer : P) (data : List Byte) : Room P × List (Output P) :=
  if r.hasModPermission peer = false then (r, [.send peer .modPermissionDenied])
  else
    let nickname := readText data
    match r.members.find? fun m => m.nickname = nickname with
    | none => (r, [.send peer .modNoSuchUser])
    | some target =>
      let username := target.userData.username
      let r := r.removeNamed nickname
      let r := { r with
        usernameBanList :=
          if username ≠ [] then addBan username r.usernameBanList else r.usernameBanList
        ipBanList := addBan (r.hostIp target.peer) r.ipBanList }
      (r, [.send target.peer .hostBanned, .disconnect target.peer] ++
        r.sendStatusMessage .memberBanned target.nickname username ++
        [r.broadcastRoomInformation])

def handleModUnbanPacket (r : Room P) (peer : P) (data : List Byte) : Room P × List (Output P) :=
  if r.hasModPermission peer = false then (r, [.send peer .modPermissionDenied])
  else
    let address := readText data
    if address ∈ r.usernameBanList ∨ address ∈ r.ipBanList then
      ({ r with
          usernameBanList := r.usernameBanList.erase address
          ipBanList := r.ipBanList.erase address },
        r.sendStatusMessage .addressUnbanned address [])
    else (r, [.send peer .modNoSuchUser])

def handleModGetBanListPacket (r : Room P) (peer : P) : Room P × List (Output P) :=
  if r.hasModPermission peer = false then (r, [.send peer .modPermissionDenied])
  else (r, [.send peer (.modBanListResponse r.usernameBanList r.ipBanList)])

/-! ## Relaying -/

def handleWifiPacket (r : Room P) (peer : P) (data : List Byte) (env : Environment) :
    Room P × List (Output P) :=
  let packet : Packet := { data := data }
  -- The type of the message, and the type, channel and transmitter of the packet.
  let packet := packet.ignoreBytes (1 + 1 + 1 + 6)
  let (destinationAddress, _) := packet.readArray env.before 6
  if destinationAddress = broadcastMac then (r, r.sendToOthers peer (.wifiPacket data))
  else
    match r.members.find? fun m => m.macAddress = destinationAddress with
    | some member => (r, [.send member.peer (.wifiPacket data)])
    | none => (r, [])

def handleChatPacket (r : Room P) (peer : P) (data : List Byte) : Room P × List (Output P) :=
  match r.memberOf peer with
  | none => (r, [])
  | some sendingMember =>
    let message := (readText data).take maxMessageSize
    (r, r.sendToOthers peer
      (.chatMessage sendingMember.nickname sendingMember.userData.username message))

/-- A change of the first element that has a property. -/
def updateFirst {α : Type} (p : α → Bool) (f : α → α) : List α → List α
  | [] => []
  | x :: xs => if p x then f x :: xs else x :: updateFirst p f xs

def handleGameNamePacket (r : Room P) (peer : P) (data : List Byte) : Room P × List (Output P) :=
  let packet : Packet := { data := data }
  let (name, packet) := (packet.ignoreBytes 1).readString
  let (id, _) := packet.readWord 8
  let r := { r with
    members := updateFirst (fun m => m.peer = peer)
      (fun m => { m with gameInfo := ⟨name, id⟩ }) r.members }
  (r, [r.broadcastRoomInformation])

def handleClientDisconnection (r : Room P) (client : P) : Room P × List (Output P) :=
  let left := r.memberOf client
  let r := { r with members := r.members.eraseP fun m => m.peer = client }
  let announced := match left with
    | some m =>
      if m.nickname ≠ [] then r.sendStatusMessage .memberLeave m.nickname m.userData.username
      else []
    | none => []
  (r, [.disconnect client] ++ announced ++ [r.broadcastRoomInformation])

/-! ## The loop of the server -/

/-- `RoomMessageTypes` of the packets that a room handles. -/
inductive RequestType where
  | joinRequest
  | setGameInfo
  | wifiPacket
  | chatMessage
  | modKick
  | modBan
  | modUnban
  | modGetBanList
deriving DecidableEq

def requestType : Byte → Option RequestType
  | 1 => some .joinRequest
  | 4 => some .setGameInfo
  | 5 => some .wifiPacket
  | 6 => some .chatMessage
  | 17 => some .modKick
  | 18 => some .modBan
  | 19 => some .modUnban
  | 20 => some .modGetBanList
  | _ => none

/-- A packet that was received. -/
def handlePacket (r : Room P) (peer : P) (data : List Byte) (env : Environment) :
    Option (Room P × List (Output P)) :=
  match data with
  | [] => none
  | type :: _ =>
    match requestType type with
    | some .joinRequest => r.handleJoinRequest peer data env
    | some .setGameInfo => some (r.handleGameNamePacket peer data)
    | some .wifiPacket => some (r.handleWifiPacket peer data env)
    | some .chatMessage => some (r.handleChatPacket peer data)
    | some .modKick => some (r.handleModKickPacket peer data)
    | some .modBan => some (r.handleModBanPacket peer data)
    | some .modUnban => some (r.handleModUnbanPacket peer data)
    | some .modGetBanList => some (r.handleModGetBanListPacket peer)
    | none => some (r, [])

/-- One event of the network. -/
def handle (r : Room P) : Event P → Option (Room P × List (Output P))
  | .connect peer hostIp => some ({ r with hostIp := Function.update r.hostIp peer hostIp }, [])
  | .receive peer data env =>
    ({ r with departed := r.departed.filter (· ≠ peer) } : Room P).handlePacket peer data env
  | .disconnect peer =>
    some (({ r with departed := peer :: r.departed } : Room P).handleClientDisconnection peer)

def step (r : Room P) (e : Event P) : Option (Room P) := (r.handle e).map Prod.fst

/-- A room that was just created, with the ban lists it is given. -/
def create (information : RoomInformation) (password : List Byte)
    (usernames ips : List (List Byte)) (hostIp : P → List Byte) : Room P where
  roomInformation := information
  password := password
  usernameBanList := usernames
  ipBanList := ips
  hostIp := hostIp

end Room

end GbaStation.Network
