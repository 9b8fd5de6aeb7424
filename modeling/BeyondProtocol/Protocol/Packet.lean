import BeyondProtocol.Protocol.FrameID

/-!
# Channels, packets and requests (`channels.hpp`, `packet.hpp`, `streams.hpp`)

`Channel` is an open enumeration over `int` in the source: packets from the
network carry any value, so it is modelled by `Int` with the named values the
code compares against.
-/

namespace BeyondProtocol

abbrev Channel : Type := Int

namespace Channel

def kColour : Channel := 0
def kPose : Channel := 66
/-- Signifies the last packet of a frame. -/
def kEndFrame : Channel := 2048

/-- Data channels stay available until the stream is reset. -/
def isPersistent (c : Channel) : Bool := decide (c ≥ 64)

/-- `static_cast<int>(channel) < 32` -/
def isVideo (c : Channel) : Bool := decide (c < 32)

end Channel

abbrev ChannelSet : Type := Finset Channel

/-- Packet flags (`packet.hpp`). -/
def kFlagRequest : UInt8 := 0x01
def kFlagReset : UInt8 := 0x04
def kFlagOutOfBand : UInt8 := 0x08

/-- `kAllFrames` and `kAllFramesets`: the wildcard value of either id field. -/
def kAll : Nat := 255

def kStreamCapNewConnection : Nat := 0x04

/-- `Codec` is an enumeration over `uint8_t`; only `kAny` is named by the code
modelled here. -/
abbrev Codec : Type := UInt8

def Codec.kAny : Codec := 255

/-- `DataPacket`. `dataFlags` and `packet_count` share storage in the source. -/
structure DataPacket where
  codec : Codec := 254
  reserved : UInt8 := 0
  frameCount : UInt8 := 1
  bitrate : UInt8 := 0
  dataFlags : UInt8 := 0
  data : List UInt8 := []
deriving DecidableEq, Repr, Inhabited

/-- The other member of the union: on an EndFrame, the number of packets sent
for its timestamp. -/
def DataPacket.packetCount (p : DataPacket) : Nat := p.dataFlags.toNat

structure StreamPacket where
  timestamp : Int
  streamID : UInt8
  frameNumber : UInt8
  channel : Channel
  flags : UInt8 := 0
  localTimestamp : Int := 0
  hintCapability : Nat := 0
deriving DecidableEq, Repr, Inhabited

namespace StreamPacket

/-- `FrameID(spkt.streamID, spkt.frame_number)` -/
def frame (s : StreamPacket) : FrameID :=
  FrameID.ofPair s.streamID.toNat s.frameNumber.toNat

def isEndFrame (s : StreamPacket) : Bool := decide (s.channel = Channel.kEndFrame)

def hasFlag (s : StreamPacket) (flag : UInt8) : Bool := s.flags &&& flag != 0

/-- What `MSGPACK_DEFINE` puts on the wire: the receiving side starts from the
default values of the remaining fields. -/
def onWire (s : StreamPacket) : StreamPacket :=
  { s with localTimestamp := 0, hintCapability := 0 }

@[simp] theorem frame_frameset (s : StreamPacket) : s.frame.frameset = s.streamID.toNat :=
  FrameID.frameset_ofPair (by have := s.streamID.toNat_lt; omega) _

@[simp] theorem frame_source (s : StreamPacket) : s.frame.source = s.frameNumber.toNat := by
  have := s.frameNumber.toNat_lt
  rw [frame, FrameID.source_ofPair]
  omega

@[simp] theorem onWire_frame (s : StreamPacket) : s.onWire.frame = s.frame := rfl

@[simp] theorem onWire_channel (s : StreamPacket) : s.onWire.channel = s.channel := rfl

end StreamPacket

abbrev Packet : Type := StreamPacket × DataPacket

/-- `ftl::protocol::Request` -/
structure Request where
  id : FrameID
  channel : Channel
  bitrate : UInt8
  count : UInt8
  codec : Codec
deriving DecidableEq, Repr

/-- Ways a call ends without returning: a failed `CHECK` terminates the
process, reading an empty `std::optional` and shifting out of range are
undefined, an exception leaves the function, and the recursion of a function
may not come back. -/
inductive Fault : Type where
  | checkFailed
  | undefined
  | thrown
  | outOfFuel
deriving DecidableEq, Repr

end BeyondProtocol
