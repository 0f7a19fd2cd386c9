import Qtng.Quic.Protection

namespace Qtng

open BigEndian List Option Function Transition

variable {bytes : Bytes}

/-- The CRYPTO frames that a receiver finds in a payload, with their offsets. -/
def cryptoPieces (payload : Bytes) : List (Nat × Bytes) :=
  (((quicDecodeFrames payload).getD []).filter (·.type = .crypto)).map fun frame => (frame.offset, frame.data)

/-- What a piece of a byte stream has at a position of the stream. -/
def pieceAt (piece : Nat × Bytes) (i : Nat) : Option UInt8 := if piece.1 ≤ i then piece.2[i - piece.1]? else none

theorem pieceAt_eq_some_iff {piece : Nat × Bytes} {i : Nat} {b : UInt8} :
    pieceAt piece i = some b ↔ piece.1 ≤ i ∧ piece.2[i - piece.1]? = some b := by
  unfold pieceAt
  split <;> simp [*]

theorem pieceAt_append_iff (offset : Nat) (xs ys : Bytes) (i : Nat) (b : UInt8) :
    pieceAt (offset, xs ++ ys) i = some b ↔
      pieceAt (offset, xs) i = some b ∨ pieceAt (offset + xs.length, ys) i = some b := by
  simp only [pieceAt_eq_some_iff, getElem?_append]
  by_cases inside : i - offset < xs.length
  · have behind : ¬ (offset ≤ i ∧ offset + xs.length ≤ i) := by omega
    simp only [if_pos inside]
    constructor
    · exact Or.inl
    · rintro (left | ⟨right, _⟩)
      · exact left
      · omega
  · have past : xs[i - offset]? = none := getElem?_eq_none (Nat.not_lt.mp inside)
    have place : i - offset - xs.length = i - (offset + xs.length) := by omega
    simp only [if_neg inside, past, place, reduceCtorEq, and_false, false_or]
    constructor
    · rintro ⟨_, found⟩
      exact ⟨by omega, found⟩
    · rintro ⟨_, found⟩
      exact ⟨by omega, found⟩

/-- An Initial packet for a connection id, with a token and under the given keys. -/
def QuicSealedPacket.InitialFor {K : KeySchedule} (packet : QuicSealedPacket K) (keys : K.Keys) (cid : QuicConnectionId)
    (token : Bytes) : Prop :=
  packet.keys = keys ∧ ∃ h, quicParsePacketHeader packet.header = some h ∧ h.isLong = true ∧ h.longType = .initial ∧
    h.dcid = cid ∧ h.token = token

theorem decodeLoop_zeros (fuel count : Nat) (enough : count ≤ fuel) :
    ∃ frames, decodeLoop fuel (replicate count 0) = some frames ∧ ∀ frame ∈ frames, frame.type = .padding := by
  cases count with
  | zero => exact ⟨[], by cases fuel <;> rfl, by simp⟩
  | succ count =>
    obtain ⟨fuel, rfl⟩ : ∃ more, fuel = more + 1 := ⟨fuel - 1, by omega⟩
    have zeros : (replicate count (0 : UInt8)).dropWhile (· = 0x00) = [] := by simp
    refine ⟨[{ type := .padding, rawType := 0 }], ?_, by simp⟩
    simp only [replicate_succ, decodeLoop, decodeFrame, if_true, zeros, bind_eq_bind, bind_some]

theorem cryptoPieces_padded {offset : Nat} {data : Bytes}
    (encoded : quicEncodeFrame { type := .crypto, offset := offset, data := data } = some bytes) (count : Nat) :
    cryptoPieces (bytes ++ List.replicate count 0) = [(offset, data)] := by
  obtain ⟨t, body, rfl, decoded⟩ := decodeFrame_encode encoded (replicate count 0) (by simp)
  obtain ⟨padding, padded, paddings⟩ := decodeLoop_zeros (body ++ replicate count 0).length count (by simp)
  have none : padding.filter (fun frame => decide (frame.type = .crypto)) = [] := by
    rw [filter_eq_nil_iff]
    intro frame member
    simp [paddings frame member]
  have frames : quicDecodeFrames (t :: body ++ replicate count 0) =
      some (QuicFrame.onWire { type := .crypto, offset := offset, data := data } :: padding) := by
    rw [quicDecodeFrames, cons_append, length_cons, decodeLoop]
    simp only [decoded, padded, bind_eq_bind, bind_some]
  rw [cryptoPieces, frames, getD_some, filter_cons, if_pos (by rfl), none]
  rfl

theorem length_quicEncodeVarint {value : Nat} (encoded : quicEncodeVarint value = some bytes) :
    bytes.length ≤ 8 := by
  unfold quicEncodeVarint at encoded
  split at encoded
  · cases encoded
    simp
  split at encoded
  · cases encoded
    simp
  split at encoded
  · cases encoded
    simp
  split at encoded
  · cases encoded
  · cases encoded
    simp

namespace QuicSender

variable {K : KeySchedule} {s : QuicSender K}
variable {keys : K.Keys} {packet : QuicRetryPacket}
variable {out : QuicOutgoingPacket K} {t : QuicSender K}

theorem cryptoPayload_initial (client : s.isClient = true) {data : Bytes} (small : data.length ≤ kMaxCryptoChunk)
    (bounded : s.cryptoSendOff .initial < 2 ^ 62) :
    cryptoPieces (s.cryptoPayload .initial data) = [(s.cryptoSendOff .initial, data)] ∧
      4 ≤ (s.cryptoPayload .initial data).length ∧ (s.cryptoPayload .initial data).length ≤ 2000 := by
  have chunk : data.length ≤ 1000 := small
  obtain ⟨bytes, encoded⟩ := isSome_iff_exists.mp
    ((quicEncodeFrame_isSome_iff { type := .crypto, offset := s.cryptoSendOff .initial, data := data }).mpr
      ⟨rfl, bounded, by change data.length < 2 ^ 62; omega⟩)
  have size : bytes.length ≤ 1017 := by
    simp only [quicEncodeFrame, bind_eq_bind, bind_eq_some_iff, some.injEq] at encoded
    obtain ⟨offset, offsetIs, length, lengthIs, rfl⟩ := encoded
    have := length_quicEncodeVarint offsetIs
    have := length_quicEncodeVarint lengthIs
    simp only [length_cons, length_append]
    omega
  have payload : s.cryptoPayload .initial data = bytes ++ replicate (1200 - 28 - 16 - bytes.length) 0 := by
    rw [cryptoPayload, encoded, getD_some, if_pos ⟨rfl, client⟩]
  refine ⟨?_, ?_, ?_⟩
  · rw [payload, cryptoPieces_padded encoded]
  · rw [payload, length_append, length_replicate]
    omega
  · rw [payload, length_append, length_replicate]
    omega

/-- A packet that the client queues for the bytes of its CRYPTO stream. -/
def QueuesInitial (s : QuicSender K) (keys : K.Keys) (out : QuicOutgoingPacket K) : Prop :=
  out.raw.keys = keys ∧ ∃ pn length, length + 2 < 2 ^ 62 ∧
    out.raw.header = quicBuildLongHeader .initial kQuicVersion1 s.remoteCid s.localCid s.retryToken pn 2 length

def Carries (added : List (QuicOutgoingPacket K)) (i : Nat) (b : UInt8) : Prop :=
  ∃ out ∈ added, ∃ piece ∈ cryptoPieces out.raw.payload, pieceAt piece i = some b

theorem carries_cons_iff {added : List (QuicOutgoingPacket K)} {i : Nat} {b : UInt8}
    {piece : Nat × Bytes} (pieces : cryptoPieces out.raw.payload = [piece]) :
    Carries (out :: added) i b ↔ pieceAt piece i = some b ∨ Carries added i b := by
  simp only [Carries, exists_mem_cons_iff, pieces, mem_singleton, exists_eq_left]

structure SameSetup (s t : QuicSender K) : Prop where
  client : t.isClient = s.isClient
  localCid : t.localCid = s.localCid
  remoteCid : t.remoteCid = s.remoteCid
  token : t.retryToken = s.retryToken
  initialKeys : t.initialKeys = s.initialKeys
  handshakeKeys : t.handshakeKeys = s.handshakeKeys
  app : t.hasAppKeys = s.hasAppKeys

theorem SameSetup.queues (same : SameSetup s t) (queues : t.QueuesInitial keys out) : s.QueuesInitial keys out := by
  obtain ⟨sealed, pn, length, bound, header⟩ := queues
  rw [same.remoteCid, same.localCid, same.token] at header
  exact ⟨sealed, pn, length, bound, header⟩

theorem sendPacket_initial {payload : Bytes} (valid : s.initialKeys = some keys)
    (long : 4 ≤ payload.length) (short : payload.length + 16 + 2 < 2 ^ 62) :
    ∃ t out, s.sendPacket .initial payload true true = (t, true) ∧ SameSetup s t ∧ t.sendQueue = s.sendQueue ++ [out] ∧
      s.QueuesInitial keys out ∧ out.raw.payload = payload ∧ t.cryptoSend = s.cryptoSend ∧
      t.cryptoSendOff = s.cryptoSendOff := by
  have protects : ¬ (s.headerFor .initial payload).length + (payload.length + 16) <
      (s.headerFor .initial payload).length - 2 + 4 + 16 := by omega
  have sent : s.sendPacket .initial payload true true =
      ({ (s.protectNext .initial keys (s.headerFor .initial payload) payload).markUsed .initial with
        sendQueue := s.sendQueue ++ [⟨.initial, s.nextPn .initial,
          ⟨some .initial, keys, s.nextPn .initial, s.headerFor .initial payload, payload⟩, true⟩] }, true) := by
    simp only [sendPacket, keysForSend, valid, quicProtectPacket, if_neg protects]
    rfl
  exact ⟨_, _, sent, ⟨rfl, rfl, rfl, rfl, rfl, rfl, rfl⟩, rfl, ⟨rfl, s.nextPn .initial, _, short, rfl⟩, rfl, rfl, rfl⟩

theorem sendCrypto_round (rounds : Nat) (client : s.isClient = true) (valid : s.initialKeys = some keys)
    (unsent : s.cryptoSend .initial ≠ []) (bounded : s.cryptoSendOff .initial < 2 ^ 62) :
    ∃ t out, sendCrypto .initial (rounds + 1) s = sendCrypto .initial rounds t ∧ SameSetup s t ∧
      t.sendQueue = s.sendQueue ++ [out] ∧ s.QueuesInitial keys out ∧
      cryptoPieces out.raw.payload = [(s.cryptoSendOff .initial, (s.cryptoSend .initial).take kMaxCryptoChunk)] ∧
      t.cryptoSendOff .initial = s.cryptoSendOff .initial + ((s.cryptoSend .initial).take kMaxCryptoChunk).length ∧
      t.cryptoSend .initial = (s.cryptoSend .initial).drop kMaxCryptoChunk := by
  set data := (s.cryptoSend .initial).take kMaxCryptoChunk with dataIs
  have small : data.length ≤ kMaxCryptoChunk := length_take_le _ _
  obtain ⟨pieces, long, short⟩ := cryptoPayload_initial client small bounded
  obtain ⟨t, out, sent, same, queue, queues, payload, buffer, offset⟩ := sendPacket_initial valid long (by omega)
  refine ⟨{ t with
      cryptoSendOff := update t.cryptoSendOff .initial (t.cryptoSendOff .initial + data.length)
      cryptoSend := update t.cryptoSend .initial ((t.cryptoSend .initial).drop kMaxCryptoChunk) },
    out, ?_, ⟨same.client, same.localCid, same.remoteCid, same.token, same.initialKeys, same.handshakeKeys, same.app⟩,
    queue, queues, ?_, ?_, ?_⟩
  · simp only [sendCrypto, if_neg unsent, ← dataIs, sent]
  · rw [payload, pieces]
  · simp [offset]
  · simp [buffer]

theorem sendCrypto_initial (rounds : Nat) (s : QuicSender K) (client : s.isClient = true)
    (valid : s.initialKeys = some keys) (enough : (s.cryptoSend .initial).length ≤ rounds)
    (bounded : s.cryptoSendOff .initial + (s.cryptoSend .initial).length < 2 ^ 62) :
    ∃ t added, sendCrypto .initial rounds s = (t, true) ∧ SameSetup s t ∧ t.sendQueue = s.sendQueue ++ added ∧
      (∀ out ∈ added, s.QueuesInitial keys out) ∧
      ∀ i b, Carries added i b ↔ pieceAt (s.cryptoSendOff .initial, s.cryptoSend .initial) i = some b := by
  induction rounds generalizing s with
  | zero =>
    have empty : s.cryptoSend .initial = [] := eq_nil_of_length_eq_zero (by omega)
    exact ⟨s, [], rfl, ⟨rfl, rfl, rfl, rfl, rfl, rfl, rfl⟩, by simp, by simp, by simp [Carries, empty, pieceAt]⟩
  | succ rounds ih =>
    by_cases empty : s.cryptoSend .initial = []
    · exact ⟨s, [], by simp [sendCrypto, empty], ⟨rfl, rfl, rfl, rfl, rfl, rfl, rfl⟩, by simp, by simp,
        by simp [Carries, empty, pieceAt]⟩
    obtain ⟨t, out, round, same, queue, queues, pieces, offset, buffer⟩ :=
      sendCrypto_round rounds client valid empty (by omega)
    have whole : (s.cryptoSend .initial).take kMaxCryptoChunk ++ t.cryptoSend .initial = s.cryptoSend .initial := by
      rw [buffer, take_append_drop]
    have lengths := congrArg length whole
    rw [length_append] at lengths
    have taken : 0 < ((s.cryptoSend .initial).take kMaxCryptoChunk).length := by
      have := length_pos_of_ne_nil empty
      rw [length_take, kMaxCryptoChunk]
      omega
    obtain ⟨u, added, run, later, moreQueue, moreQueues, carries⟩ :=
      ih t (same.client.trans client) (same.initialKeys.trans valid) (by omega) (by omega)
    refine ⟨u, out :: added, round.trans run, ?_, ?_, ?_, ?_⟩
    · exact ⟨later.client.trans same.client, later.localCid.trans same.localCid, later.remoteCid.trans same.remoteCid,
        later.token.trans same.token, later.initialKeys.trans same.initialKeys,
        later.handshakeKeys.trans same.handshakeKeys, later.app.trans same.app⟩
    · rw [moreQueue, queue, append_assoc, singleton_append]
    · intro other member
      rcases mem_cons.mp member with rfl | older
      · exact queues
      · exact same.queues (moreQueues other older)
    · intro i b
      rw [carries_cons_iff pieces, carries, offset, ← pieceAt_append_iff, whole]

theorem sendCrypto_unready (unready : s.initialKeys = none) (rounds : Nat) : (sendCrypto .initial rounds s).1 = s := by
  cases rounds with
  | zero => rfl
  | succ rounds =>
    unfold sendCrypto
    split
    · rfl
    · simp only [sendPacket, keysForSend, unready]

theorem flushCrypto_eq (run : (sendCryptoAll .initial s).1 = t) (handshake : t.handshakeKeys = none)
    (app : t.hasAppKeys = false) : s.flushCrypto.1 = t := by
  subst run
  unfold flushCrypto
  split
  · rename_i after failed
    rw [failed]
  · rename_i after worked
    rw [worked] at handshake app ⊢
    dsimp only at handshake app ⊢
    simp [handshake, app]

/-- The packets of a list that are Initial packets for the connection id of a Retry, with
its token and under the given keys, carry exactly the bytes of a message. -/
def Delivers (added : List (QuicOutgoingPacket K)) (keys : K.Keys) (packet : QuicRetryPacket)
    (message : Bytes) : Prop :=
  ∀ i b, (∃ out ∈ added, out.raw.InitialFor keys packet.scid packet.token ∧
      ∃ piece ∈ cryptoPieces out.raw.payload, pieceAt piece i = some b) ↔ message[i]? = some b

/-- What handleRetryPacket puts on the send queue delivers the message. -/
def Restarts (s : QuicSender K) (packet : QuicRetryPacket) (keys : K.Keys) (hello : Bytes) : Prop :=
  ∃ added, (s.handleRetryPacket (some packet)).sendQueue = s.sendQueue ++ added ∧ Delivers added keys packet hello

/-- A client that has no Handshake and no 1-RTT keys, since it has not yet seen an Initial
of the server. -/
structure AwaitsServer (s : QuicSender K) : Prop where
  client : s.isClient = true
  handshake : s.handshakeKeys = none
  app : s.hasAppKeys = false
  cid : s.localCid.bytes.length ≤ 20
  buffer : (s.cryptoSend .initial).length < 2 ^ 62

structure Accepts (s : QuicSender K) (packet : QuicRetryPacket) : Prop where
  version : packet.version = 0 ∨ packet.version = kQuicVersion1
  dcid : packet.dcid = s.localCid
  scid : packet.scid.bytes.length ≤ 20
  token : packet.token.length < 2 ^ 62

def rewind (s : QuicSender K) (packet : QuicRetryPacket) : QuicSender K :=
  { s with
    remoteCid := packet.scid, retryToken := packet.token
    cryptoSendOff := update (update s.cryptoSendOff .initial 0) .handshake 0
    nextPn := update (update s.nextPn .initial 0) .handshake 0 }

theorem handleRetryPacket_eq (accepts : s.Accepts packet) :
    s.handleRetryPacket (some packet) = (s.rewind packet).flushCrypto.1 := by
  have known : ¬ (packet.version ≠ 0 ∧ packet.version ≠ kQuicVersion1) := by
    rintro ⟨zero, one⟩
    exact accepts.version.elim zero one
  rw [handleRetryPacket, if_neg known, if_neg (not_not.mpr accepts.dcid)]
  rfl

theorem handleRetryPacket_queue (awaits : s.AwaitsServer) (accepts : s.Accepts packet) :
    ∃ added, (s.handleRetryPacket (some packet)).sendQueue = s.sendQueue ++ added ∧
      (∀ out ∈ added, ∀ keys, out.raw.InitialFor keys packet.scid packet.token ↔ s.initialKeys = some keys) ∧
      ((∃ keys, s.initialKeys = some keys) →
        ∀ i b, Carries added i b ↔ (s.cryptoSend .initial)[i]? = some b) := by
  rw [handleRetryPacket_eq accepts]
  cases valid : s.initialKeys with
  | none =>
    have idle := flushCrypto_eq (sendCrypto_unready (s := s.rewind packet) valid _) awaits.handshake awaits.app
    exact ⟨[], by rw [idle, append_nil]; rfl, by simp, by simp⟩
  | some keys =>
    have start : (s.rewind packet).cryptoSendOff .initial = 0 := by
      simp [rewind, update_of_ne, update_self]
    obtain ⟨t, added, run, same, queue, queues, carries⟩ := sendCrypto_initial
      ((s.rewind packet).cryptoSend .initial).length (s.rewind packet) awaits.client valid le_rfl
      (by rw [start, Nat.zero_add]; exact awaits.buffer)
    have flushed := flushCrypto_eq (s := s.rewind packet) (t := t) (congrArg Prod.fst run)
      (same.handshakeKeys.trans awaits.handshake) (same.app.trans awaits.app)
    refine ⟨added, by rw [flushed, queue]; rfl, ?_, ?_⟩
    · intro out member expected
      obtain ⟨sealed, pn, length, bound, header⟩ := queues out member
      obtain ⟨form, -, typed⟩ := longFirst_parts .initial
      obtain ⟨h, parsed, isLong, -, -, isInitial, dcid, token⟩ := quicParsePacketHeader_long kQuicVersion1
        accepts.scid awaits.cid accepts.token (show length + 2 < 2 ^ 62 from bound) form typed (writePn pn 2)
      have read : quicParsePacketHeader out.raw.header = some h := by
        rw [header, quicBuildLongHeader_eq]
        exact parsed
      constructor
      · rintro ⟨same, -⟩
        rw [← same, sealed]
      · intro same
        exact ⟨sealed.trans (some.inj same), h, read, isLong, isInitial, dcid, token⟩
    · intro _ i b
      rw [carries, start, pieceAt_eq_some_iff]
      simp [rewind]

theorem retry_restarts_iff (quicDeriveInitialSecret : QuicConnectionId → K.Secret) (awaits : s.AwaitsServer)
    {packet : QuicRetryPacket} (accepts : s.Accepts packet) {hello : Bytes} (nonempty : hello ≠ []) :
    s.Restarts packet (K.quicDeriveTrafficKeys (quicDeriveInitialSecret packet.scid)) hello ↔
      s.initialKeys = some (K.quicDeriveTrafficKeys (quicDeriveInitialSecret packet.scid)) ∧
        s.cryptoSend .initial = hello := by
  set keys := K.quicDeriveTrafficKeys (quicDeriveInitialSecret packet.scid)
  obtain ⟨added, queue, addressed, carries⟩ := handleRetryPacket_queue awaits accepts
  -- with the keys of the new connection id, the packets carry what is left in the buffer
  have ready (valid : s.initialKeys = some keys) : Delivers added keys packet (s.cryptoSend .initial) := by
    intro i b
    rw [← carries ⟨keys, valid⟩ i b]
    constructor
    · rintro ⟨out, member, -, found⟩
      exact ⟨out, member, found⟩
    · rintro ⟨out, member, found⟩
      exact ⟨out, member, (addressed out member keys).mpr valid, found⟩
  constructor
  · rintro ⟨others, sameQueue, delivers⟩
    obtain rfl : added = others := append_cancel_left (queue.symm.trans sameQueue)
    obtain ⟨first, rest, rfl⟩ := exists_cons_of_ne_nil nonempty
    obtain ⟨out, member, initial, -⟩ := (delivers 0 first).mpr rfl
    have valid := (addressed out member keys).mp initial
    refine ⟨valid, ext_getElem? fun i => ext fun b => ?_⟩
    rw [← ready valid i b, delivers i b]
  · rintro ⟨valid, rfl⟩
    exact ⟨added, queue, ready valid⟩

/-- Once the buffer has been flushed, no Retry restarts the handshake, under whatever keys. -/
theorem not_restarts_of_flushed (awaits : s.AwaitsServer) (accepts : s.Accepts packet)
    (flushed : s.cryptoSend .initial = []) {hello : Bytes} (nonempty : hello ≠ []) (keys : K.Keys) :
    ¬ s.Restarts packet keys hello := by
  obtain ⟨added, queue, addressed, carries⟩ := handleRetryPacket_queue awaits accepts
  rintro ⟨others, sameQueue, delivers⟩
  obtain rfl : added = others := append_cancel_left (queue.symm.trans sameQueue)
  obtain ⟨first, rest, rfl⟩ := exists_cons_of_ne_nil nonempty
  obtain ⟨out, member, initial, found⟩ := (delivers 0 first).mpr rfl
  have left := (carries ⟨keys, (addressed out member keys).mp initial⟩ 0 first).mp ⟨out, member, found⟩
  rw [flushed] at left
  cases left

end QuicSender

/-- The Initial secret of a connection id: the client has chosen the one with the byte 2. -/
def chosenSecret (cid : QuicConnectionId) : countingSchedule.Secret :=
  if cid = ⟨[2]⟩ then countingSchedule.initialSecret else Nat.succ (cid.bytes.length + 100)

/-- A client that has not flushed its ClientHello gets a Retry for the id it has chosen itself. -/
theorem retry_restarts_unflushed :
    ({ isClient := true, localCid := ⟨[1]⟩, remoteCid := ⟨[2]⟩, initialKeys := some countingSchedule.initialSecret
       cryptoSend := update (fun _ => []) .initial [1, 0, 0, 0] } : QuicSender countingSchedule).Restarts
      ⟨kQuicVersion1, ⟨[1]⟩, ⟨[2]⟩, [9]⟩ (countingSchedule.quicDeriveTrafficKeys (chosenSecret ⟨[2]⟩)) [1, 0, 0, 0] :=
  (QuicSender.retry_restarts_iff chosenSecret ⟨rfl, rfl, rfl, by decide, by decide⟩
    ⟨.inr rfl, rfl, by decide, by decide⟩ (by decide)).mpr ⟨rfl, rfl⟩

def helloSent : List QuicSendEvent := [.initialKeys, .cryptoData .initial [1, 0, 0, 0], .flushCrypto]

/-- The server answers with a Retry, and the client sends nothing. -/
theorem retry_restarts_nothing :
    ∃ history s, Run (sendSystem countingSchedule) history s ∧ history.map Prod.snd = helloSent.reverse ∧
      s.AwaitsServer ∧ s.Accepts ⟨kQuicVersion1, ⟨[1]⟩, ⟨[3]⟩, [9]⟩ ∧
      ¬ s.Restarts ⟨kQuicVersion1, ⟨[1]⟩, ⟨[3]⟩, [9]⟩ (countingSchedule.quicDeriveTrafficKeys (chosenSecret ⟨[3]⟩))
        [1, 0, 0, 0] := by
  obtain ⟨history, s, run, labels, client, handshake, app, cid, flushed⟩ :=
    Run.of_exec (sendSystem countingSchedule) rfl helloSent
      ⟨true, ⟨[1]⟩, ⟨[2]⟩, rfl⟩
      (fun s : QuicSender countingSchedule => s.isClient = true ∧ s.handshakeKeys = none ∧ s.hasAppKeys = false ∧
        s.localCid = ⟨[1]⟩ ∧ s.cryptoSend .initial = []) (by decide +kernel)
  have awaits : s.AwaitsServer := ⟨client, handshake, app, by rw [cid]; decide, by rw [flushed]; decide⟩
  have accepts : s.Accepts ⟨kQuicVersion1, ⟨[1]⟩, ⟨[3]⟩, [9]⟩ := ⟨.inr rfl, cid.symm, by decide, by decide⟩
  exact ⟨history, s, run, labels, awaits, accepts,
    QuicSender.not_restarts_of_flushed awaits accepts flushed (by decide) _⟩

end Qtng
