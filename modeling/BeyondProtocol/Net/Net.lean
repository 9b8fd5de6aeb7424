import BeyondProtocol.Streams.Stream
import BeyondProtocol.Net.PacketQueue
import BeyondProtocol.Net.Universe

/-!
# The network stream (`netstream.cpp`)

A hosting stream keeps, per frame, one entry for each peer that requested it,
with the number of frames the peer still has credit for (`txcount`). A receiving
stream sends the requests and counts the EndFrames it receives (`tally_`).

Calls are functions from the state of the stream to its new state and the
effects they have, in order. What other components decide is an argument: the
clock, whether a send succeeds, which peer offers the stream.
-/

namespace BeyondProtocol

/-- `detail::StreamClientLocal` -/
structure StreamClientLocal where
  peerid : Int
  txcount : Int := 0
  channels : BitVec 32 := 0
  quality : UInt8 := 0
deriving DecidableEq, Repr

/-- Clients are addressed by their local id, the host by its UUID. -/
inductive Destination : Type where
  | client (peerid : Int)
  | host (id : UUID)
deriving DecidableEq, Repr

inductive SendOutcome : Type where
  | sent
  | failed
  | thrown
  /-- `getPeer` finds no connected peer. -/
  | noPeer
deriving DecidableEq, Repr

/-- What a call does outside the stream. -/
inductive Effect : Type where
  | transmit (dest : Destination) (spkt : StreamPacket) (pkt : DataPacket)
  | trigger (spkt : StreamPacket) (pkt : DataPacket)
  | available (id : FrameID) (channel : Channel)
  | request (req : Request)
  | clientConnect (peerid : Int)
  | enableStream (peer : UUID) (id : FrameID)
  | streamNotFound
deriving DecidableEq, Repr

/-- The packets that go out to one destination. -/
def transmissions (dest : Destination) (effects : List Effect) : List Packet :=
  effects.filterMap fun
    | .transmit d spkt pkt => if d = dest then some (spkt, pkt) else none
    | _ => none

structure Net where
  stream : Stream := {}
  active : Bool := false
  host : Bool
  paused : Bool := false
  peer : Option UUID := none
  tally : Fin 5 → Int := fun _ => 0
  bitrate : UInt8 := 255
  /-- `frames_to_request_`, `kFramesToRequest` by default. -/
  framesToRequest : Int := 80
  clientsLocal : FrameID → Option (List StreamClientLocal) := fun _ => none
  bufferingDisabledChannels : ChannelSet := ∅
  recv : RecvBuffer := {}

namespace Net

/-! ## §1  Posting -/

/-- `1 << static_cast<int>(channel)`, for a channel below 32. -/
def channelMask (c : Channel) : BitVec 32 := 1#32 <<< c.toNat

/-- Packet data is stripped if it is video the client did not ask for. -/
def strips (spkt : StreamPacket) (pkt : DataPacket) (client : StreamClientLocal) : Bool :=
  spkt.channel.isVideo && !pkt.data.isEmpty && channelMask spkt.channel &&& client.channels == 0

/-- `pkt_strip` -/
def stripped (pkt : DataPacket) : DataPacket :=
  { codec := pkt.codec, bitrate := pkt.bitrate, frameCount := pkt.frameCount,
    dataFlags := pkt.dataFlags }

/-- The entry of a client after one turn of the loop over the clients. -/
def sendTo (outcome : SendOutcome) (spkt : StreamPacket) (client : StreamClientLocal) :
    StreamClientLocal :=
  match outcome with
  | .sent => if spkt.isEndFrame then { client with txcount := client.txcount - 1 } else client
  | _ => { client with txcount := 0 }

/-- What goes out to a client in its turn of the loop. -/
def sendEffects (outcome : SendOutcome) (spkt : StreamPacket) (pkt : DataPacket)
    (client : StreamClientLocal) : List Effect :=
  match outcome with
  | .noPeer => []
  | _ => [.transmit (.client client.peerid) spkt
      (if strips spkt pkt client then stripped pkt else pkt)]

def isStale (client : StreamClientLocal) : Bool := decide (client.txcount ≤ 0)

/-- The clients of a frame without those whose credit is used up. -/
def cleanClients : Option (List StreamClientLocal) → Option (List StreamClientLocal)
  | none => none
  | some clients =>
      if clients.filter (fun c => !isStale c) = [] then none
      else some (clients.filter fun c => !isStale c)

def setClients (net : Net) (f : FrameID) (clients : List StreamClientLocal) : Net :=
  { net with clientsLocal := Function.update net.clientsLocal f (some clients) }

/-- `_cleanUp` -/
def cleanUp (net : Net) : Net :=
  { net with clientsLocal := fun f => cleanClients (net.clientsLocal f) }

def send (net : Net) (deliver : Destination → SendOutcome) (spkt : StreamPacket)
    (pkt : DataPacket) : Except Fault (Net × List Effect × Bool) :=
  if !net.active then .ok (net, [], false)
  else if net.paused then .ok (net, [], true)
  else if net.host then
    match net.clientsLocal spkt.frame with
    | none => .ok (net, [], true)
    | some clients =>
        -- the shift for the channel mask is out of range below zero
        if spkt.channel < 0 && !pkt.data.isEmpty && !clients.isEmpty then .error .undefined
        else
          let clients' := clients.map fun c => sendTo (deliver (.client c.peerid)) spkt c
          let net' := net.setClients spkt.frame clients'
          .ok (if clients'.any isStale then net'.cleanUp else net',
            clients.flatMap fun c => sendEffects (deliver (.client c.peerid)) spkt pkt c, true)
  else
    match net.peer with
    | none => .error .undefined
    | some host =>
        match deliver (.host host) with
        | .thrown => .ok (net, [], false)
        | _ => .ok (net, [.transmit (.host host) spkt pkt], true)

/-- `post` ignores the result of `send`. -/
def post (net : Net) (deliver : Destination → SendOutcome) (spkt : StreamPacket)
    (pkt : DataPacket) : Except Fault (Net × List Effect) := do
  let (net, effects, _) ← net.send deliver spkt pkt
  return (net, effects)

/-! ## §2  Requests at the host -/

def isRequest (spkt : StreamPacket) (pkt : DataPacket) : Bool :=
  pkt.data.isEmpty && spkt.hasFlag kFlagRequest

/-- The credit and the channel mask a request leaves in an entry. -/
def grant (spkt : StreamPacket) (pkt : DataPacket) (c : StreamClientLocal) : StreamClientLocal :=
  { c with
    txcount := max c.txcount pkt.frameCount.toNat
    channels := if spkt.channel.isVideo then c.channels ||| channelMask spkt.channel
      else c.channels }

/-- A request renews the entry of the peer or adds one. -/
def grantClient (spkt : StreamPacket) (pkt : DataPacket) (peerid : Int)
    (clients : List StreamClientLocal) : List StreamClientLocal :=
  if clients.any fun c => c.peerid = peerid then
    clients.map fun c => if c.peerid = peerid then grant spkt pkt c else c
  else
    clients ++ [grant spkt pkt { peerid := peerid, quality := 255 }]

def hasClient (net : Net) (f : FrameID) (peerid : Int) : Bool :=
  ((net.clientsLocal f).getD []).any fun c => c.peerid = peerid

/-- The entry of the peer in the client list of the frame. -/
def registerClient (net : Net) (spkt : StreamPacket) (pkt : DataPacket) (peerid : Int) : Net :=
  net.setClients spkt.frame
    (grantClient spkt pkt peerid ((net.clientsLocal spkt.frame).getD []))

/-- `_processRequest` for one frame. Without a peer (an injected packet) only the
request callback runs. -/
def processFrameRequest (net : Net) (p : Option Int) (spkt : StreamPacket) (pkt : DataPacket) :
    Except Fault (Net × StreamPacket × DataPacket × List Effect) :=
  if spkt.channel < 0 && p.isSome then .error .undefined
  else
    let pkt' := if spkt.channel.isVideo then { pkt with bitrate := min pkt.bitrate net.bitrate }
      else pkt
    let req := Effect.request
      { id := spkt.frame, channel := spkt.channel, bitrate := pkt'.bitrate,
        count := pkt.frameCount, codec := pkt.codec }
    match p with
    | none => .ok (net, spkt, pkt', [req])
    | some peerid =>
        if net.hasClient spkt.frame peerid then
          .ok (net.registerClient spkt pkt peerid, spkt, pkt', [req])
        else
          .ok (net.registerClient spkt pkt peerid,
            { spkt with hintCapability := spkt.hintCapability ||| kStreamCapNewConnection },
            pkt', [.clientConnect peerid, req])

/-- The frames a wildcard request stands for. -/
def covers (spkt : StreamPacket) (i : FrameID) : Bool :=
  (spkt.streamID.toNat = kAll || i.frameset = spkt.streamID.toNat) &&
    (spkt.frameNumber.toNat = kAll || i.source = spkt.frameNumber.toNat)

def isWildcard (spkt : StreamPacket) : Bool :=
  spkt.streamID.toNat = kAll || spkt.frameNumber.toNat = kAll

/-- `_processRequest`. A wildcard is expanded over the frames of the stream by
recursive calls, which do not come back if the stream has a frame whose number
is the wildcard value itself: `fuel` bounds their depth. -/
def processRequest : Nat → Net → Option Int → StreamPacket → DataPacket →
    Except Fault (Net × StreamPacket × DataPacket × List Effect)
  | 0, _, _, _, _ => .error .outOfFuel
  | fuel + 1, net, p, spkt, pkt =>
      if isWildcard spkt then do
        let (net, _, pkt, effects) ← (net.stream.frames.filter (covers spkt)).foldlM
          (fun (net, spkt2, pkt, effects) i => do
            let spkt2 : StreamPacket := { spkt2 with
              streamID := UInt8.ofNat i.frameset
              frameNumber := UInt8.ofNat i.source }
            let (net, spkt2, pkt, more) ← processRequest fuel net p spkt2 pkt
            return (net, spkt2, pkt, effects ++ more))
          (net, spkt, pkt, [])
        return (net, spkt, pkt, effects)
      else net.processFrameRequest p spkt pkt

/-! ## §3  Requests of the receiving stream -/

/-- The packet `_sendRequest` puts on the wire. -/
def requestPacket (net : Net) (now : Int) (c : Channel) (frameset frames count : UInt8)
    (doreset : Bool) : Packet :=
  ({ timestamp := now, streamID := frameset, frameNumber := frames, channel := c,
     flags := if doreset then kFlagRequest ||| kFlagReset else kFlagRequest },
   { codec := Codec.kAny, frameCount := count, bitrate := net.bitrate })

/-- `_sendRequest`. The request size is an `int` passed as `uint8_t`. -/
def sendRequest (net : Net) (now : Int) (c : Channel) (frameset frames : Nat)
    (doreset : Bool) : Except Fault (List Effect) :=
  if !net.active || net.host then .ok []
  else
    match net.peer with
    | none => .error .undefined
    | some host =>
        let (spkt, pkt) := net.requestPacket now c (UInt8.ofNat frameset) (UInt8.ofNat frames)
          (UInt8.ofInt net.framesToRequest) doreset
        .ok [.transmit (.host host) spkt pkt]

/-- One request for every selected channel of the frames given. -/
def sendRequests (net : Net) (now : Int) (fs : List FrameID) (doreset : Bool) :
    Except Fault (List Effect) := do
  let effects ← (fs.flatMap fun f => (net.stream.enabledChannels f).sort.map fun c => (f, c)).mapM
    fun (f, c) => net.sendRequest now c f.frameset f.source doreset
  return effects.flatten

/-- `_enable`: find the peer that offers the stream, `found` being the answer of
the network. -/
def findPeer (net : Net) (found : Option UUID) (id : FrameID) : Net × List Effect × Bool :=
  if net.host then (net, [], false)
  else if net.peer.isSome then (net, [], true)
  else if net.stream.enabled id then (net, [], true)
  else
    match found with
    | some u => ({ net with peer := some u }, [.enableStream u id], true)
    | none => (net, [.streamNotFound], false)

/-- The common body of the three `enable` calls: the change of the base class,
then one request for each of the channels `cs`. -/
def enableWith (net : Net) (now : Int) (found : Option UUID) (id : FrameID)
    (enable : Stream → Stream) (cs : List Channel) : Except Fault (Net × List Effect × Bool) :=
  if net.host then .ok (net, [], false)
  else
    match net.findPeer found id with
    | (net, effects, false) => .ok (net, effects, false)
    | (net, effects, true) => do
        let net := { net with stream := enable net.stream }
        let requests ← cs.mapM fun c => net.sendRequest now c id.frameset id.source true
        return (net, effects ++ requests.flatten, true)

def enable (net : Net) (now : Int) (found : Option UUID) (id : FrameID) :
    Except Fault (Net × List Effect × Bool) :=
  net.enableWith now found id (·.enable id) [Channel.kColour]

def enableChannel (net : Net) (now : Int) (found : Option UUID) (id : FrameID) (c : Channel) :
    Except Fault (Net × List Effect × Bool) :=
  net.enableWith now found id (·.enableChannel id c) [c]

def enableChannels (net : Net) (now : Int) (found : Option UUID) (id : FrameID)
    (cs : ChannelSet) : Except Fault (Net × List Effect × Bool) :=
  net.enableWith now found id (·.enableChannels id cs) cs.sort

def refresh (net : Net) (now : Int) : Except Fault (Net × List Effect) := do
  let effects ← net.sendRequests now net.stream.enabledFrames true
  return ({ net with tally := fun _ => net.framesToRequest }, effects)

/-- `begin`, for a URI that is not bound yet. -/
def begin (net : Net) : Net :=
  if net.active then net
  else if net.host then { net with active := true }
  else { net with tally := fun _ => net.framesToRequest, active := true }

/-- `begin`; a URI that is `bound` already is an error. -/
def beginAt (net : Net) (bound : Bool) : Net :=
  if !net.active && bound then net else net.begin

/-- `end` -/
def endStream (net : Net) : Net := { net with active := false }

def reset (net : Net) : Net := { net with stream := net.stream.reset }

/-! ## §4  Packets from the network -/

/-- The EndFrame branch of `_earlyProcessPacket`: count down, and at half the
request size ask again for everything that is enabled in the frameset. -/
def countEndFrame (net : Net) (now : Int) (i : Fin 5) : Except Fault (Net × List Effect) :=
  if net.tally i ≤ net.framesToRequest.tdiv 2 then do
    let effects ← net.sendRequests now (net.stream.enabledIn i) false
    return ({ net with tally := Function.update net.tally i net.framesToRequest }, effects)
  else .ok ({ net with tally := Function.update net.tally i (net.tally i - 1) }, [])

/-- Every packet but a request to a host counts as seen. -/
def noteSeen (net : Net) (spkt : StreamPacket) (pkt : DataPacket) :
    Except Fault (Net × List Effect) :=
  if net.host && isRequest spkt pkt then .ok (net, [])
  else do
    let (stream, fired) ← net.stream.seen spkt.frame spkt.channel
    return ({ net with stream := stream },
      if fired then [.available spkt.frame spkt.channel] else [])

/-- Manage recurring requests, unless paused. -/
def manageRequests (net : Net) (now : Int) (spkt : StreamPacket) :
    Except Fault (Net × List Effect) :=
  if net.paused then .ok (net, [])
  else if !net.host && spkt.isEndFrame then
    if h : spkt.frame.frameset < 5 then net.countEndFrame now ⟨spkt.frame.frameset, h⟩
    else .ok (net, [])
  else .ok (net, [])

/-- `_earlyProcessPacket` -/
def earlyProcessPacket (net : Net) (now : Int) (spkt : StreamPacket) (pkt : DataPacket) :
    Except Fault (Net × List Effect) :=
  if ¬ (spkt.streamID < 5 ∨ spkt.streamID = 255) then .error .checkFailed
  else if !net.active then .ok (net, [])
  else do
    let (net, seen) ← net.noteSeen spkt pkt
    let (net, requests) ← net.manageRequests now spkt
    return (net, seen ++ requests)

/-- `_processPacket` -/
def processPacket (fuel : Nat) (net : Net) (p : Option Int) (now ttimeoff : Int)
    (spkt : StreamPacket) (pkt : DataPacket) : Except Fault (Net × List Effect) :=
  let spkt := { spkt with
    localTimestamp := if spkt.localTimestamp = 0 then now - ttimeoff else spkt.localTimestamp
    hintCapability := 0 }
  if !net.active then .ok (net, [])
  else if net.host && isRequest spkt pkt then do
    let (net, spkt, pkt, effects) ← processRequest fuel net p spkt pkt
    return (net, effects ++ [.trigger spkt pkt])
  else .ok (net, [.trigger spkt pkt])

/-- Packets out of band and packets of channels with buffering disabled are
processed at once by a client, the others are queued. -/
def bypassesQueue (net : Net) (spkt : StreamPacket) : Bool :=
  spkt.hasFlag kFlagOutOfBand || decide (spkt.channel ∈ net.bufferingDisabledChannels)

/-- The handler a hosting stream binds to its URI. -/
def receiveHost (fuel : Nat) (net : Net) (p : Int) (now ttimeoff : Int) (spkt : StreamPacket)
    (pkt : DataPacket) : Except Fault (Net × List Effect) := do
  let (net, early) ← net.earlyProcessPacket now spkt pkt
  let (net, effects) ← processPacket fuel net (some p) now ttimeoff spkt pkt
  return (net, early ++ effects)

/-- What becomes of a packet at a client after `_earlyProcessPacket`. -/
def bufferOrProcess (fuel : Nat) (net : Net) (p : Int) (now ttimeoff buffering : Int)
    (spkt : StreamPacket) (pkt : DataPacket) : Except Fault (Net × List Effect) :=
  if net.bypassesQueue spkt then processPacket fuel net (some p) now ttimeoff spkt pkt
  else .ok ({ net with recv := net.recv.queuePacket now buffering spkt pkt }, [])

/-- The handler of a receiving stream. `buffering` is the delay after a possible
automatic adjustment. -/
def receiveClient (fuel : Nat) (net : Net) (p : Int) (now ttimeoff buffering : Int)
    (spkt : StreamPacket) (pkt : DataPacket) : Except Fault (Net × List Effect) := do
  let spkt := { spkt with localTimestamp := now - ttimeoff }
  let (net, early) ← net.earlyProcessPacket now spkt pkt
  let (net, effects) ← bufferOrProcess fuel net p now ttimeoff buffering spkt pkt
  return (net, early ++ effects)

/-- The handler `begin` binds to the URI of the stream. -/
def receive (fuel : Nat) (net : Net) (p : Int) (now ttimeoff buffering : Int)
    (spkt : StreamPacket) (pkt : DataPacket) : Except Fault (Net × List Effect) :=
  if net.host then receiveHost fuel net p now ttimeoff spkt pkt
  else receiveClient fuel net p now ttimeoff buffering spkt pkt

/-- `setProperty(StreamProperty::kPaused, value)` -/
def setPaused (net : Net) (value : Bool) : Net := { net with paused := value }

/-- `disableBuffering` -/
def disableBuffering (net : Net) (c : Channel) (disable : Bool) : Net :=
  { net with bufferingDisabledChannels :=
      if disable then insert c net.bufferingDisabledChannels
      else net.bufferingDisabledChannels.erase c }

end Net

end BeyondProtocol
