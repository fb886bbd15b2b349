import AuraChat.Lib.Decoder
import AuraChat.Model.Net

set_option autoImplicit false

/-!
# Packets on the wire

How the two ends cut the byte stream into packets: `send_packet` of the client and
`TcpConnection::handle_read`, `Worker::send_packet_in_loop` and `receive_loop` of the client. A header
is copied as it lies in memory, least significant byte first on both ends.

One turn of each of the two decoding loops is a function of the buffer (`handleReadNext`,
`receiveNext`); the loops run it until it waits for more or stops.
-/

namespace AuraChat

open Stream

/-! ## Headers -/

/-- A `uint32_t` as it lies in memory. -/
def word (x : UInt32) : Bytes :=
  [x.toUInt8, (x >>> 8).toUInt8, (x >>> 16).toUInt8, (x >>> 24).toUInt8]

/-- The `uint32_t` at the front of a buffer. -/
def ofWord : Bytes → UInt32
  | b₀ :: b₁ :: b₂ :: b₃ :: _ =>
      UInt32.ofNat (b₀.toNat + 256 * b₁.toNat + 65536 * b₂.toNat + 16777216 * b₃.toNat)
  | _ => 0

/-- `sizeof(PacketHeader)`. -/
def headerSize : ℕ := 16

def PacketHeader.toBytes (hdr : PacketHeader) : Bytes :=
  word hdr.magic ++ word hdr.bodyLen ++ word hdr.cmd ++ word hdr.seq

/-- The header at the front of a buffer of at least `headerSize` bytes. -/
def PacketHeader.ofBytes (buf : Bytes) : PacketHeader :=
  ⟨ofWord buf, ofWord (buf.drop 4), ofWord (buf.drop 8), ofWord (buf.drop 12)⟩

/-- The header that both ends put before a body. -/
def headerOf (cmd seq : UInt32) (body : Bytes) : PacketHeader :=
  ⟨protoMagic, body.length.toUInt32, cmd, seq⟩

/-- What a call of `read` or `recv` gives: some bytes, none at the end of the stream, nothing for now
(`EAGAIN`), or an error. -/
inductive IoResult
  | bytes (chunk : Bytes)
  | again
  | error
  deriving DecidableEq, Repr

/-! ## From the client to the server -/

/-- `AIChatClient::send_packet`, with complete sends: the header, and the body if there is one. -/
def sendPacket (seq cmd : UInt32) (body : Bytes) : Bytes :=
  (headerOf cmd seq body).toBytes ++ if body = [] then [] else body

/-- Packets sent one after another; `seq` is `seq_` before the first. -/
def sendPackets (seq : UInt32) : List (UInt32 × Bytes) → Bytes
  | [] => []
  | (cmd, body) :: ps => sendPacket (seq + 1) cmd body ++ sendPackets (seq + 1) ps

/-- One turn of the parsing loop of `handle_read`. -/
def handleReadNext (buf : Bytes) : Verdict UInt8 (PacketHeader × Bytes) :=
  if buf.length < headerSize then .wait
  else
    let hdr := PacketHeader.ofBytes buf
    if hdr.magic ≠ protoMagic ∨ maxBodyLen < hdr.bodyLen then .fail
    else if buf.length < headerSize + hdr.bodyLen.toNat then .wait
    else .emit (hdr, (buf.drop headerSize).take hdr.bodyLen.toNat)
      (buf.drop (headerSize + hdr.bodyLen.toNat))

/-- The reading loop of `handle_read`: the buffer after it, unless the connection is to be closed. A
call that ends has found nothing more to read. -/
def readLoop : List IoResult → Bytes → Option Bytes
  | [], buf => some buf
  | .again :: _, buf => some buf
  | .bytes [] :: _, _ => none
  | .bytes chunk :: rs, buf => readLoop rs (buf ++ chunk)
  | .error :: _, _ => none

/-! ## From the server to the client -/

/-- The bytes that `Worker::send_packet_in_loop` makes of a packet. -/
def packetOf (cmd seq : UInt32) (body : Bytes) : Bytes := (headerOf cmd seq body).toBytes ++ body

/-- One turn of the parsing loop of `receive_loop`: the command and the body of a packet. The length
of a packet is a `uint32_t`; where it wraps around below the size of a header, cutting the body out
is undefined. -/
def receiveNext (buf : Bytes) : Verdict UInt8 (UInt32 × Bytes) :=
  if buf.length < headerSize then .wait
  else
    let hdr := PacketHeader.ofBytes buf
    if hdr.magic ≠ protoMagic then .skip (buf.drop 1)
    else
      let fullLen := (headerSize.toUInt32 + hdr.bodyLen).toNat
      if buf.length < fullLen then .wait
      else if fullLen < headerSize then .fail
      else .emit (hdr.cmd, (buf.drop headerSize).take (fullLen - headerSize)) (buf.drop fullLen)

end AuraChat
