import Qtng.General.Run
import Qtng.Quic.Recovery
import Qtng.Quic.Stream

namespace Qtng

open BigEndian Function Option

/-- The secrets of one side of a connection and the keys derived from them. HKDF is
abstract: distinct secrets give distinct keys, and the secrets of the Initial, the
Handshake and the application space are distinct. -/
structure KeySchedule where
  Secret : Type
  Keys : Type
  hkdfExpandLabel : Secret → Secret
  quicDeriveTrafficKeys : Secret → Keys
  initialSecret : Secret
  handshakeSecret : Secret
  appSecret : Secret
  earlySecret : Secret
  derive_injective : Function.Injective quicDeriveTrafficKeys
  initial_ne_handshake : initialSecret ≠ handshakeSecret
  early_ne_initial : earlySecret ≠ initialSecret
  early_ne_handshake : earlySecret ≠ handshakeSecret
  app_ne_initial : ∀ n, hkdfExpandLabel^[n] appSecret ≠ initialSecret
  app_ne_handshake : ∀ n, hkdfExpandLabel^[n] appSecret ≠ handshakeSecret

inductive QuicLongPacketType
  | initial
  | zeroRtt
  | handshake
  | retry
deriving DecidableEq

def QuicLongPacketType.toNat : QuicLongPacketType → Nat
  | initial => 0
  | zeroRtt => 1
  | handshake => 2
  | retry => 3

def kQuicVersion1 : Nat := 0x00000001

def kMaxCryptoChunk : Nat := 1000

def writePn (pn : Nat) : Nat → Bytes
  | 0 => []
  | i + 1 => byteAt pn (8 * i) :: writePn pn i

def encodeConnId (id : QuicConnectionId) : Bytes :=
  if id.bytes.length > 20 then [] else UInt8.ofNat id.bytes.length :: id.bytes

def quicBuildLongHeader (type : QuicLongPacketType) (version : Nat) (dcid scid : QuicConnectionId) (token : Bytes)
    (packetNumber pnLength payloadAndTagLen : Nat) : Bytes :=
  [UInt8.ofNat (0xc0 ||| (type.toNat &&& 0x3) <<< 4 ||| ((pnLength - 1) &&& 0x3)),
    byteAt version 24, byteAt version 16, byteAt version 8, byteAt version 0] ++
    encodeConnId dcid ++ encodeConnId scid ++
    (if type = .initial then (quicEncodeVarint token.length).getD [] ++ token else []) ++
    (quicEncodeVarint (payloadAndTagLen + pnLength)).getD [] ++ writePn packetNumber pnLength

def quicBuildShortHeader (dcid : QuicConnectionId) (packetNumber pnLength : Nat) (keyPhase : Bool) : Bytes :=
  UInt8.ofNat (0x40 ||| (if keyPhase then 0x04 else 0) ||| ((pnLength - 1) &&& 0x3)) :: dcid.bytes ++
    writePn packetNumber pnLength

/-- A packet as the AEAD seals it. Its type is none for a short header. -/
structure QuicSealedPacket (K : KeySchedule) where
  longType : Option QuicLongPacketType
  keys : K.Keys
  packetNumber : Nat
  header : Bytes
  payload : Bytes

structure QuicOutgoingPacket (K : KeySchedule) where
  space : QuicPacketNumberSpace
  pn : Nat
  raw : QuicSealedPacket K
  ackEliciting : Bool

/-- The packet is too short for the sample of the header protection if this fails.
The tag of the AEAD has 16 bytes. -/
def quicProtectPacket {K : KeySchedule} (longType : Option QuicLongPacketType) (keys : K.Keys) (header payload : Bytes)
    (packetNumber pnLength : Nat) : Option (QuicSealedPacket K) :=
  if header.length + (payload.length + 16) < header.length - pnLength + 4 + 16 then none
  else some ⟨longType, keys, packetNumber, header, payload⟩

structure QuicProtectCall (K : KeySchedule) where
  keys : K.Keys
  packetNumber : Nat
  header : Bytes
  payload : Bytes

structure QuicRetryPacket where
  version : Nat
  dcid : QuicConnectionId
  scid : QuicConnectionId
  token : Bytes
deriving DecidableEq

/-- The sending half of QuicConnectionPrivate. The datagrams put on the link and the
calls of quicProtectPacket are kept in order. keysUsed tells whether the 1-RTT keys
are the first ones or have sealed a packet that is queued or sent. -/
structure QuicSender (K : KeySchedule) where
  isClient : Bool
  localCid : QuicConnectionId
  remoteCid : QuicConnectionId
  retryToken : Bytes := []
  initialKeys : Option K.Keys := none
  handshakeKeys : Option K.Keys := none
  clientEarlyKeys : Option K.Keys := none
  hasAppKeys : Bool := false
  sendAppSecret : K.Secret := K.appSecret
  sendKeyPhase : Bool := false
  appPacketsSent : Nat := 0
  nextPn : QuicPacketNumberSpace → Nat := fun _ => 0
  cryptoSend : QuicPacketNumberSpace → Bytes := fun _ => []
  cryptoSendOff : QuicPacketNumberSpace → Nat := fun _ => 0
  sendQueue : List (QuicOutgoingPacket K) := []
  emitted : List (QuicSealedPacket K) := []
  calls : List (QuicProtectCall K) := []
  keysUsed : Bool := true
  error : QuicConnectionError := .noError
  errorString : String := ""
  transportErrorCode : Nat := QuicErrNoError

def QuicErrInvalidToken : Nat := 0x0b

namespace QuicSender

variable {K : KeySchedule}

def setError (s : QuicSender K) (error : QuicConnectionError) (message : String) (transportErrorCode : Nat) :
    QuicSender K :=
  { s with error := error, errorString := message, transportErrorCode := transportErrorCode }

/-- The keys that are valid. sendAppKeys is always derived from sendAppSecret. -/
def keysForSend (s : QuicSender K) : QuicPacketNumberSpace → Option K.Keys
  | .initial => s.initialKeys
  | .handshake => s.handshakeKeys
  | .application => if s.hasAppKeys then some (K.quicDeriveTrafficKeys s.sendAppSecret) else none

def maybeUpdateSendKeys (s : QuicSender K) : QuicSender K :=
  if s.hasAppKeys then
    { s with
      sendAppSecret := K.hkdfExpandLabel s.sendAppSecret, sendKeyPhase := !s.sendKeyPhase, appPacketsSent := 0
      keysUsed := false }
  else s

def updateKeys (s : QuicSender K) : QuicSender K :=
  if s.hasAppKeys ∧ s.appPacketsSent > 0 then s.maybeUpdateSendKeys else s

def sendNow (s : QuicSender K) (space : QuicPacketNumberSpace) (packet : QuicSealedPacket K) : QuicSender K :=
  let s := { s with emitted := s.emitted ++ [packet] }
  if space = .application ∧ s.hasAppKeys then
    let s := { s with appPacketsSent := s.appPacketsSent + 1 }
    if s.appPacketsSent ≥ 10000 then s.maybeUpdateSendKeys else s
  else s

/-- The next packet number of a space, which is used up, and the call of
quicProtectPacket. -/
def protectNext (s : QuicSender K) (space : QuicPacketNumberSpace) (keys : K.Keys) (header payload : Bytes) :
    QuicSender K :=
  { s with
    nextPn := update s.nextPn space ((s.nextPn space + 1) % 2 ^ 64)
    calls := s.calls ++ [⟨keys, s.nextPn space, header, payload⟩] }

def markUsed (s : QuicSender K) (space : QuicPacketNumberSpace) : QuicSender K :=
  { s with keysUsed := s.keysUsed || space = .application }

def longTypeOf : QuicPacketNumberSpace → Option QuicLongPacketType
  | .initial => some .initial
  | .handshake => some .handshake
  | .application => none

/-- The header that sendPacket builds, with a packet number of two bytes. -/
def headerFor (s : QuicSender K) (space : QuicPacketNumberSpace) (payload : Bytes) : Bytes :=
  match longTypeOf space with
  | some type =>
    quicBuildLongHeader type kQuicVersion1 s.remoteCid s.localCid (if space = .initial then s.retryToken else [])
      (s.nextPn space) 2 (payload.length + 16)
  | none => quicBuildShortHeader s.remoteCid (s.nextPn space) 2 s.sendKeyPhase

def sendPacket (s : QuicSender K) (space : QuicPacketNumberSpace) (payload : Bytes)
    (ackEliciting cwndControlled : Bool) :
    QuicSender K × Bool :=
  match s.keysForSend space with
  | none => (s, false)
  | some keys =>
    let pn := s.nextPn space
    let header := s.headerFor space payload
    let s := s.protectNext space keys header payload
    match quicProtectPacket (longTypeOf space) keys header payload pn 2 with
    | none => (s, false)
    | some packet =>
      let s := s.markUsed space
      if cwndControlled then ({ s with sendQueue := s.sendQueue ++ [⟨space, pn, packet, ackEliciting⟩] }, true)
      else (s.sendNow space packet, true)

/-- One packet of sendLoop, when the congestion window allows it. -/
def sendNext (s : QuicSender K) : Option (QuicSender K) :=
  match s.sendQueue with
  | [] => none
  | out :: rest => some ({ s with sendQueue := rest }.sendNow out.space out.raw)

/-- 0-RTT packets share the numbers of the application space. -/
def sendZeroRttPacket (s : QuicSender K) (payload : Bytes) (ackEliciting : Bool) : QuicSender K × Bool :=
  match s.clientEarlyKeys with
  | none => (s, false)
  | some keys =>
    let pn := s.nextPn .application
    let header := quicBuildLongHeader .zeroRtt kQuicVersion1 s.remoteCid s.localCid [] pn 2 (payload.length + 16)
    let s := s.protectNext .application keys header payload
    match quicProtectPacket (some .zeroRtt) keys header payload pn 2 with
    | none => (s, false)
    | some packet => ({ s with sendQueue := s.sendQueue ++ [⟨.application, pn, packet, ackEliciting⟩] }, true)

/-- The payload of one CRYPTO packet. An Initial of the client is padded. -/
def cryptoPayload (s : QuicSender K) (space : QuicPacketNumberSpace) (data : Bytes) : Bytes :=
  let payload := (quicEncodeFrame { type := .crypto, offset := s.cryptoSendOff space, data := data }).getD []
  if space = .initial ∧ s.isClient then payload ++ List.replicate (1200 - 28 - 16 - payload.length) 0 else payload

/-- The loop of flushCrypto over one space. Each round takes bytes off the buffer, so
that its length bounds the rounds. -/
def sendCrypto (space : QuicPacketNumberSpace) : Nat → QuicSender K → QuicSender K × Bool
  | 0, s => (s, true)
  | rounds + 1, s =>
    if s.cryptoSend space = [] then (s, true)
    else
      let data := (s.cryptoSend space).take kMaxCryptoChunk
      match s.sendPacket space (s.cryptoPayload space data) true true with
      | (s, false) => (s, false)
      | (s, true) =>
        sendCrypto space rounds
          { s with
            cryptoSendOff := update s.cryptoSendOff space (s.cryptoSendOff space + data.length)
            cryptoSend := update s.cryptoSend space ((s.cryptoSend space).drop kMaxCryptoChunk) }

def sendCryptoAll (space : QuicPacketNumberSpace) (s : QuicSender K) : QuicSender K × Bool :=
  sendCrypto space (s.cryptoSend space).length s

def flushCrypto (s : QuicSender K) : QuicSender K × Bool :=
  match sendCryptoAll .initial s with
  | (s, false) => (s, false)
  | (s, true) =>
    match if s.handshakeKeys.isSome then sendCryptoAll .handshake s else (s, true) with
    | (s, false) => (s, false)
    | (s, true) => if s.hasAppKeys then sendCryptoAll .application s else (s, true)

/-- There is no packet if it cannot be parsed or its integrity tag is wrong. -/
def handleRetryPacket (s : QuicSender K) : Option QuicRetryPacket → QuicSender K
  | none => s.setError .protocolError "bad retry packet" QuicErrInvalidToken
  | some packet =>
    if packet.version ≠ 0 ∧ packet.version ≠ kQuicVersion1 then
      s.setError .unsupportedVersion "unsupported version" QuicErrNoError
    else if packet.dcid ≠ s.localCid then s.setError .protocolError "retry dcid mismatch" QuicErrInvalidToken
    else
      (flushCrypto
        { s with
          remoteCid := packet.scid, retryToken := packet.token
          cryptoSendOff := update (update s.cryptoSendOff .initial 0) .handshake 0
          nextPn := update (update s.nextPn .initial 0) .handshake 0 }).1

end QuicSender

inductive QuicSendEvent
  | initialKeys
  | handshakeKeys
  | earlyKeys
  | appKeys
  | cryptoData (space : QuicPacketNumberSpace) (data : Bytes)
  | flushCrypto
  | sendPacket (space : QuicPacketNumberSpace) (payload : Bytes) (ackEliciting cwndControlled : Bool)
  | sendZeroRttPacket (payload : Bytes) (ackEliciting : Bool)
  | sendNext
  | handleRetryPacket (packet : Option QuicRetryPacket)
  | maybeUpdateSendKeys
  | updateKeys
deriving DecidableEq

namespace QuicSender

variable {K : KeySchedule}

/-- The keys of a space are set up once, when TLS has its secret. -/
def step (s : QuicSender K) : QuicSendEvent → Option (QuicSender K)
  | .initialKeys => some { s with initialKeys := some (K.quicDeriveTrafficKeys K.initialSecret) }
  | .handshakeKeys => some { s with handshakeKeys := some (K.quicDeriveTrafficKeys K.handshakeSecret) }
  | .earlyKeys => some { s with clientEarlyKeys := some (K.quicDeriveTrafficKeys K.earlySecret) }
  | .appKeys => if s.hasAppKeys then none else some { s with hasAppKeys := true, sendAppSecret := K.appSecret }
  | .cryptoData space data =>
    some { s with cryptoSend := update s.cryptoSend space (s.cryptoSend space ++ data) }
  | .flushCrypto => some s.flushCrypto.1
  | .sendPacket space payload ackEliciting cwndControlled =>
    some (s.sendPacket space payload ackEliciting cwndControlled).1
  | .sendZeroRttPacket payload ackEliciting => some (s.sendZeroRttPacket payload ackEliciting).1
  | .sendNext => s.sendNext
  | .handleRetryPacket packet => some (s.handleRetryPacket packet)
  | .maybeUpdateSendKeys => some s.maybeUpdateSendKeys
  | .updateKeys => some s.updateKeys

/-- What sendPacket does: there are no keys, the packet is too short to be protected,
or it is queued or put on the link. -/
inductive SendPacket (s : QuicSender K) (space : QuicPacketNumberSpace) (payload : Bytes) (cwndControlled : Bool) :
    QuicSender K → Prop
  | unready : SendPacket s space payload cwndControlled s
  | tooShort {keys} : s.keysForSend space = some keys → SendPacket s space payload cwndControlled
      (s.protectNext space keys (s.headerFor space payload) payload)
  | queued {keys out} : s.keysForSend space = some keys → cwndControlled = true → out.space = space →
      out.raw.longType = longTypeOf space → out.raw.keys = keys → SendPacket s space payload cwndControlled
        { (s.protectNext space keys (s.headerFor space payload) payload).markUsed space with
          sendQueue := s.sendQueue ++ [out] }
  | sent {keys packet} : s.keysForSend space = some keys → cwndControlled = false →
      packet.longType = longTypeOf space → packet.keys = keys → SendPacket s space payload cwndControlled
        (((s.protectNext space keys (s.headerFor space payload) payload).markUsed space).sendNow space packet)

theorem sendPacket_cases (s : QuicSender K) (space : QuicPacketNumberSpace) (payload : Bytes)
    (ackEliciting cwndControlled : Bool) :
    SendPacket s space payload cwndControlled (s.sendPacket space payload ackEliciting cwndControlled).1 := by
  unfold sendPacket
  split
  · exact .unready
  · rename_i keys valid
    dsimp only
    split
    · exact .tooShort valid
    · rename_i packet protects
      obtain ⟨_, same⟩ := ite_none_left_eq_some.mp protects
      cases some.inj same
      split
      · rename_i queue
        exact .queued valid queue rfl rfl rfl
      · rename_i direct
        exact .sent valid (by simpa using direct) rfl rfl

inductive SendZeroRttPacket (s : QuicSender K) : QuicSender K → Prop
  | unready : SendZeroRttPacket s s
  | tooShort {keys header payload} : s.clientEarlyKeys = some keys →
      SendZeroRttPacket s (s.protectNext .application keys header payload)
  | queued {keys header payload out} : s.clientEarlyKeys = some keys → out.space = .application →
      out.raw.longType = some .zeroRtt → SendZeroRttPacket s
        { s.protectNext .application keys header payload with sendQueue := s.sendQueue ++ [out] }

theorem sendZeroRttPacket_cases (s : QuicSender K) (payload : Bytes) (ackEliciting : Bool) :
    SendZeroRttPacket s (s.sendZeroRttPacket payload ackEliciting).1 := by
  unfold sendZeroRttPacket
  split
  · exact .unready
  · rename_i keys valid
    dsimp only
    split
    · exact .tooShort valid
    · rename_i packet protects
      obtain ⟨_, same⟩ := ite_none_left_eq_some.mp protects
      cases some.inj same
      exact .queued valid rfl rfl

theorem sendCrypto_induct {I : QuicSender K → Prop} (space : QuicPacketNumberSpace)
    (send : ∀ s payload, I s → I (s.sendPacket space payload true true).1)
    (buffers : ∀ s off buf, I s → I { s with cryptoSendOff := off, cryptoSend := buf }) (rounds : Nat)
    (s : QuicSender K) (holds : I s) : I (sendCrypto space rounds s).1 := by
  induction rounds generalizing s with
  | zero => exact holds
  | succ rounds ih =>
    unfold sendCrypto
    split
    · exact holds
    · have sent := send s (s.cryptoPayload space ((s.cryptoSend space).take kMaxCryptoChunk)) holds
      dsimp only
      split
      · rename_i after failed
        rw [failed] at sent
        exact sent
      · rename_i after worked
        rw [worked] at sent
        exact ih _ (buffers _ _ _ sent)

/-- What sendPacket keeps for queued packets, whatever happens to the buffers of
the handshake, flushCrypto keeps. -/
theorem flushCrypto_induct {I : QuicSender K → Prop}
    (send : ∀ s space payload, I s → I (s.sendPacket space payload true true).1)
    (buffers : ∀ s off buf, I s → I { s with cryptoSendOff := off, cryptoSend := buf }) (s : QuicSender K)
    (holds : I s) :
    I s.flushCrypto.1 := by
  have all : ∀ space s, I s → I (sendCryptoAll space s).1 := fun space s holds =>
    sendCrypto_induct space (fun s payload => send s space payload) buffers _ s holds
  have initial := all .initial s holds
  unfold flushCrypto
  split
  · rename_i after failed
    rw [failed] at initial
    exact initial
  · rename_i after worked
    rw [worked] at initial
    have handshake : I (if after.handshakeKeys.isSome then sendCryptoAll .handshake after else (after, true)).1 := by
      split
      · exact all .handshake after initial
      · exact initial
    split
    · rename_i later failed
      rw [failed] at handshake
      exact handshake
    · rename_i later passed
      rw [passed] at handshake
      split
      · exact all .application later handshake
      · exact handshake

end QuicSender

def sendSystem (K : KeySchedule) : Transition.System (QuicSender K) QuicSendEvent :=
  .ofStep (fun s => ∃ isClient localCid remoteCid, s = { isClient, localCid, remoteCid }) QuicSender.step

/-- Secrets that are numbers, with the key update as the successor. -/
def countingSchedule : KeySchedule where
  Secret := Nat
  Keys := Nat
  hkdfExpandLabel := Nat.succ
  quicDeriveTrafficKeys := id
  initialSecret := 0
  handshakeSecret := 1
  earlySecret := 2
  appSecret := 3
  derive_injective := injective_id
  initial_ne_handshake := by decide
  early_ne_initial := by decide
  early_ne_handshake := by decide
  app_ne_initial n := by rw [Nat.succ_iterate]; omega
  app_ne_handshake n := by rw [Nat.succ_iterate]; omega

instance : DecidableEq countingSchedule.Keys := inferInstanceAs (DecidableEq Nat)

end Qtng
