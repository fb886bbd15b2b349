import Mathlib.Tactic.Common

set_option autoImplicit false

/-!
# The wire protocol and the configuration

`protocol.h`, `message.proto` and `config.h`. The code generated from `message.proto` is not part
of the repository: parsing and serialising are the fields of `Codec`, and every result holds for
any codec. Strings that protobuf keeps as `string` are `String`; `bytes` fields, packet bodies and
send buffers are `Bytes`.
-/

namespace AuraChat

abbrev Bytes : Type := List UInt8

/-- The bytes of a string literal of the source. -/
def bytes (s : String) : Bytes := s.toUTF8.data.toList

/-- The number of values of a `uint32_t`. -/
def uint32Size : ℕ := 4294967296

structure PacketHeader where
  magic : UInt32
  bodyLen : UInt32
  cmd : UInt32
  seq : UInt32
  deriving DecidableEq, Repr

def protoMagic : UInt32 := 0xDEADBEEF

def maxBodyLen : UInt32 := 65535

/-- What `handle_read` has tested when it cuts a packet off: the magic number, the bound on the length,
and that the whole body is there. -/
def PacketHeader.Framed (hdr : PacketHeader) (body : Bytes) : Prop :=
  hdr.magic = protoMagic ∧ hdr.bodyLen ≤ maxBodyLen ∧ body.length = hdr.bodyLen.toNat

instance (hdr : PacketHeader) (body : Bytes) : Decidable (hdr.Framed body) := by
  unfold PacketHeader.Framed; infer_instance

inductive CmdType
  | login | chat | ack | heartbeat | register | addFriend | acceptFriend | friendList
  | searchUser | friendRequests
  deriving DecidableEq, Repr

/-- The number of a command on the wire. -/
def CmdType.code : CmdType → UInt32
  | login => 1
  | chat => 2
  | ack => 3
  | heartbeat => 4
  | register => 5
  | addFriend => 6
  | acceptFriend => 7
  | friendList => 8
  | searchUser => 9
  | friendRequests => 10

/-! ## Messages -/

structure ChatMessage where
  fromUid : Int := 0
  toUid : Int := 0
  content : Bytes := []
  timestamp : Int := 0
  isStream : Bool := false
  isLastChunk : Bool := false
  streamSeq : Int := 0
  deriving DecidableEq, Repr

structure Response where
  success : Bool := false
  msg : String := ""
  uid : Int := 0
  deriving DecidableEq, Repr

structure LoginRequest where
  username : String
  password : String
  deriving DecidableEq, Repr

structure RegisterRequest where
  username : String
  password : String
  deriving DecidableEq, Repr

structure FriendInfo where
  uid : Int
  username : String
  online : Bool
  deriving DecidableEq, Repr

structure AddFriendRequest where
  toUid : Int
  message : String
  deriving DecidableEq, Repr

structure AcceptFriendRequest where
  requestId : Int
  deriving DecidableEq, Repr

structure FriendRequestInfo where
  id : Int
  fromUid : Int
  fromUsername : String
  message : String
  deriving DecidableEq, Repr

structure SearchUserRequest where
  keyword : String
  deriving DecidableEq, Repr

structure UserList where
  users : List FriendInfo
  deriving DecidableEq, Repr

structure FriendRequestList where
  requests : List FriendRequestInfo
  deriving DecidableEq, Repr

/-- `ParseFromString` and `SerializeToString` of the messages the server reads and writes. -/
structure Codec where
  parseLoginRequest : Bytes → Option LoginRequest
  parseRegisterRequest : Bytes → Option RegisterRequest
  parseChatMessage : Bytes → Option ChatMessage
  parseAddFriendRequest : Bytes → Option AddFriendRequest
  parseAcceptFriendRequest : Bytes → Option AcceptFriendRequest
  parseSearchUserRequest : Bytes → Option SearchUserRequest
  serializeResponse : Response → Bytes
  serializeChatMessage : ChatMessage → Bytes
  serializeUserList : UserList → Bytes
  serializeFriendRequestList : FriendRequestList → Bytes

/-! ## Configuration -/

/-- The settings of `config.h` that the server reads, with their defaults. -/
structure Config where
  workerNum : ℕ
  poolSize : ℕ := 10000
  maxSendBuf : ℕ := 5 * 1024 * 1024
  aiMaxConcurrent : ℕ := 20
  rateLimitMsgs : Int := 20
  rateLimitWindow : Int := 1
  deriving DecidableEq, Repr

/-- What the server is built with: its settings, the message codec and the hash of
`DBBatchWriter::file_hash`. -/
structure Params where
  cfg : Config
  codec : Codec
  fileHash : String → String

/-- The threads of the pool: `ThreadPool(worker_num * 2)`. -/
def Params.poolThreads (P : Params) : ℕ := P.cfg.workerNum * 2

end AuraChat
