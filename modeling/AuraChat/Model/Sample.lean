import AuraChat.Model.Server

set_option autoImplicit false

/-!
# A small instance

One worker, a pool of three contexts and two pool threads, on a store with two users. The codec
follows the proto3 wire format for fields of type varint and length-delimited, with ASCII strings;
the packets of the schedules below are the bytes that a client would send.
-/

namespace AuraChat.Sample

open Interleave

/-! ## The wire format -/

def varint : Bytes → Option (ℕ × Bytes)
  | [] => none
  | b :: bs =>
      if b < 128 then some (b.toNat, bs)
      else (varint bs).map fun p => (b.toNat - 128 + 128 * p.1, p.2)

/-- The fields of a message, as pairs of a number and a value; the first argument bounds the number
of fields. -/
def fields : ℕ → Bytes → Option (List (ℕ × (ℕ ⊕ Bytes)))
  | _, [] => some []
  | 0, _ :: _ => none
  | k + 1, bs => do
      let (tag, bs) ← varint bs
      let (v, bs) ← varint bs
      if tag % 8 = 0 then
        let rest ← fields k bs
        some ((tag / 8, .inl v) :: rest)
      else if tag % 8 = 2 ∧ v ≤ bs.length then
        let rest ← fields k (bs.drop v)
        some ((tag / 8, .inr (bs.take v)) :: rest)
      else none

def number (fs : List (ℕ × (ℕ ⊕ Bytes))) (k : ℕ) : Int :=
  match fs.findRev? fun f => f.1 == k with
  | some (_, .inl v) => v
  | _ => 0

def blob (fs : List (ℕ × (ℕ ⊕ Bytes))) (k : ℕ) : Bytes :=
  match fs.findRev? fun f => f.1 == k with
  | some (_, .inr v) => v
  | _ => []

def text (fs : List (ℕ × (ℕ ⊕ Bytes))) (k : ℕ) : String :=
  String.ofList ((blob fs k).map fun b => Char.ofNat b.toNat)

/-- A varint of at most two bytes. -/
def putVarint (n : ℕ) : Bytes :=
  if n < 128 then [n.toUInt8] else [(n % 128 + 128).toUInt8, (n / 128).toUInt8]

def putNumber (k : ℕ) (n : Int) : Bytes :=
  if n = 0 then [] else putVarint (8 * k) ++ putVarint n.toNat

def putBlob (k : ℕ) (b : Bytes) : Bytes :=
  if b = [] then [] else putVarint (8 * k + 2) ++ putVarint b.length ++ b

def codec : Codec where
  parseLoginRequest b := (fields b.length b).map fun fs => ⟨text fs 1, text fs 2⟩
  parseRegisterRequest b := (fields b.length b).map fun fs => ⟨text fs 1, text fs 2⟩
  parseChatMessage b := (fields b.length b).map fun fs =>
    { fromUid := number fs 1, toUid := number fs 2, content := blob fs 3, timestamp := number fs 4 }
  parseAddFriendRequest b := (fields b.length b).map fun fs => ⟨number fs 1, text fs 2⟩
  parseAcceptFriendRequest b := (fields b.length b).map fun fs => ⟨number fs 1⟩
  parseSearchUserRequest b := (fields b.length b).map fun fs => ⟨text fs 1⟩
  serializeResponse r := putNumber 1 (if r.success then 1 else 0) ++ putBlob 2 (bytes r.msg) ++
    putNumber 3 r.uid
  serializeChatMessage m := putNumber 1 m.fromUid ++ putNumber 2 m.toUid ++ putBlob 3 m.content ++
    putNumber 4 m.timestamp ++ putNumber 5 (if m.isStream then 1 else 0) ++
    putNumber 6 (if m.isLastChunk then 1 else 0) ++ putNumber 7 m.streamSeq
  serializeUserList l := l.users.flatMap fun u => putBlob 1
    (putNumber 1 u.uid ++ putBlob 2 (bytes u.username) ++ putNumber 3 (if u.online then 1 else 0))
  serializeFriendRequestList l := l.requests.flatMap fun r => putBlob 1
    (putNumber 1 r.id ++ putNumber 2 r.fromUid ++ putBlob 3 (bytes r.fromUsername) ++
      putBlob 4 (bytes r.message))

/-! ## The server -/

def params : Params where
  cfg := { workerNum := 1, poolSize := 3 }
  codec := codec
  fileHash p := "#" ++ p

/-- The users `a` and `b`, with passwords `p` and `q`. -/
def db : Store where
  users := [⟨1000, "a", "#p"⟩, ⟨1001, "b", "#q"⟩]
  nextUid := 1002

def header (cmd : CmdType) (body : Bytes) (seq : UInt32) : PacketHeader :=
  ⟨protoMagic, body.length.toUInt32, cmd.code, seq⟩

/-- A packet of a client. -/
def packet (c : ℕ) (cmd : CmdType) (body : Bytes) : Label := .read c (header cmd body 1) body

/-- `LoginRequest` of user `a` and of user `b`. -/
def loginA : Bytes := [0x0A, 1, 0x61, 0x12, 1, 0x70]
def loginB : Bytes := [0x0A, 1, 0x62, 0x12, 1, 0x71]

/-- `ChatMessage` to user `b` with the text `hi`. -/
def chatToB : Bytes := [0x10, 0xE9, 0x07, 0x1A, 2, 0x68, 0x69]

/-- `ChatMessage` to the AI user with the text `hi`. -/
def chatToAi : Bytes := [0x10, 0x8F, 0x4E, 0x1A, 2, 0x68, 0x69]

/-- Accept a connection on a descriptor and run the functor that adds it. -/
def connect (fd : Int) : List Label := [.accept fd, .swap 0, .functor 0]

/-- A connection is dropped and closed to the end; `logged` when its context has a uid. -/
def disconnect (c : ℕ) (logged : Bool) : List Label :=
  .drop c :: List.replicate (if logged then 7 else 3) (.close 0)

/-- Thread `i` takes a task and makes `k` calls. -/
def work (i k : ℕ) : List Label := .dequeue i {} :: List.replicate k (.thread i {})

/-- A client asks the AI user something, and thread `i` hands it to the AI manager. -/
def ask (c i : ℕ) : List Label := packet c .chat chatToAi :: work i 8

/-- The scheduler takes a request and puts it on the pool, and thread `i` makes `k` calls for it. -/
def serve (i k : ℕ) : List Label := [.schedule 0, .dispatch] ++ work i k

/-- The small server with `n` slots for AI streams. -/
def slots (n : ℕ) : Params := { params with cfg := { params.cfg with aiMaxConcurrent := n } }

theorem exists_run (C : Label → State → Prop) [∀ l s, Decidable (C l s)] (ls : List Label)
    (p : State → Prop) (h : ∃ s ∈ runAll (step params) C ls (State.init params db), p s) :
    ∃ s, RunTo params db C s ∧ p s :=
  exists_reach ls h

theorem exists_run_slots (n : ℕ) (C : Label → State → Prop) [∀ l s, Decidable (C l s)]
    (ls : List Label) (p : State → Prop)
    (h : ∃ s ∈ runAll (step (slots n)) C ls (State.init (slots n) db), p s) :
    ∃ s, RunTo (slots n) db C s ∧ p s :=
  exists_reach ls h

end AuraChat.Sample
