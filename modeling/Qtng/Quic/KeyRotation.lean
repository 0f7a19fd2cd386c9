import Qtng.Quic.Send

namespace Qtng

open BigEndian List Transition Option

variable {K : KeySchedule}

def oneRttKeys {K : KeySchedule} (packets : List (QuicSealedPacket K)) : List K.Keys :=
  (packets.filter fun packet => packet.longType = none).map fun packet => packet.keys

@[simp] theorem oneRttKeys_append {K : KeySchedule} (before after : List (QuicSealedPacket K)) :
    oneRttKeys (before ++ after) = oneRttKeys before ++ oneRttKeys after := by
  simp [oneRttKeys]

theorem oneRttKeys_short {packet : QuicSealedPacket K} (short : packet.longType = none) :
    oneRttKeys [packet] = [packet.keys] := by
  simp [oneRttKeys, short]

theorem oneRttKeys_long {packet : QuicSealedPacket K} (long : packet.longType ≠ none) :
    oneRttKeys [packet] = [] := by
  simp [oneRttKeys, long]

/-- The same keys, or those of the next key phase. -/
def KeySchedule.Follows (K : KeySchedule) (first second : K.Keys) : Prop :=
  second = first ∨ ∃ secret, first = K.quicDeriveTrafficKeys secret ∧
    second = K.quicDeriveTrafficKeys (K.hkdfExpandLabel secret)

namespace QuicSender

variable {K : KeySchedule} {s t : QuicSender K} {first : K.Keys}
variable {rest : List (QuicSealedPacket K)} {packet : QuicSealedPacket K}

def currentKeys (s : QuicSender K) : K.Keys := K.quicDeriveTrafficKeys s.sendAppSecret

/-- The keys the receiver has and those it will need, as far as packets are sealed. -/
def trail (first : K.Keys) (s : QuicSender K) : List K.Keys :=
  first :: oneRttKeys (s.emitted ++ s.sendQueue.map fun out => out.raw)

def queueCurrent [DecidableEq K.Keys] (s : QuicSender K) : Bool :=
  (oneRttKeys (s.sendQueue.map fun out => out.raw)).all fun keys => keys = s.currentKeys

/-- The receiver needs the keys one after another, up to the current ones. -/
structure InOrder (first : K.Keys) (s : QuicSender K) : Prop where
  unready : s.hasAppKeys = false → s.sendAppSecret = K.appSecret
  chain : (s.trail first ++ [s.currentKeys]).IsChain K.Follows
  used : s.keysUsed = true → (s.trail first).getLast? = some s.currentKeys

namespace InOrder

variable {space : QuicPacketNumberSpace} {keys : K.Keys}
variable {packet : QuicSealedPacket K} {out : QuicOutgoingPacket K}

theorem congr (inv : InOrder first s) (ready : t.hasAppKeys = s.hasAppKeys) (secret : t.sendAppSecret = s.sendAppSecret)
    (trail : t.trail first = s.trail first) (used : t.keysUsed = s.keysUsed) : InOrder first t := by
  have current : t.currentKeys = s.currentKeys := by
    unfold currentKeys
    rw [secret]
  refine ⟨?_, ?_, ?_⟩
  · rw [ready, secret]
    exact inv.unready
  · rw [trail, current]
    exact inv.chain
  · rw [trail, current, used]
    exact inv.used

theorem extend (inv : InOrder first s) (ready : t.hasAppKeys = s.hasAppKeys)
    (secret : t.sendAppSecret = s.sendAppSecret)
    (trail : t.trail first = s.trail first ++ [s.currentKeys]) : InOrder first t := by
  have current : t.currentKeys = s.currentKeys := by
    unfold currentKeys
    rw [secret]
  refine ⟨?_, ?_, ?_⟩
  · rw [ready, secret]
    exact inv.unready
  · rw [trail, current]
    refine inv.chain.append (isChain_singleton _) ?_
    intro last isLast next isNext
    rw [getLast?_append, getLast?_singleton] at isLast
    cases isLast
    cases isNext
    exact .inl rfl
  · intro _
    rw [trail, current, getLast?_append, getLast?_singleton]
    rfl

theorem maybeUpdateSendKeys (inv : InOrder first s) (used : s.hasAppKeys = true → s.keysUsed = true) :
    InOrder first s.maybeUpdateSendKeys := by
  unfold QuicSender.maybeUpdateSendKeys
  split_ifs with ready
  · have last := inv.used (used ready)
    refine ⟨fun no => absurd (ready.symm.trans no) (by simp), ?_, fun no => absurd no (by simp)⟩
    refine (isChain_append.mp inv.chain).1.append (isChain_singleton _) ?_
    intro before isBefore next isNext
    cases isNext
    rw [last] at isBefore
    cases isBefore
    exact .inr ⟨s.sendAppSecret, rfl, rfl⟩
  · exact inv

theorem sendNow (inv : InOrder first { s with emitted := s.emitted ++ [packet] })
    (used : space = .application → s.hasAppKeys = true → s.appPacketsSent + 1 ≥ 10000 → s.keysUsed = true) :
    InOrder first (s.sendNow space packet) := by
  unfold QuicSender.sendNow
  dsimp only
  split
  · rename_i counted
    have more : InOrder first
        { s with emitted := s.emitted ++ [packet], appPacketsSent := s.appPacketsSent + 1 } := inv.congr rfl rfl rfl rfl
    split
    · rename_i full
      exact more.maybeUpdateSendKeys fun _ => used counted.1 counted.2 full
    · exact more
  · exact inv

theorem trail_queue (s : QuicSender K) (out : QuicOutgoingPacket K) :
    ({ s with sendQueue := s.sendQueue ++ [out] } : QuicSender K).trail first =
      s.trail first ++ oneRttKeys [out.raw] := by
  simp [trail]

theorem trail_emit (s : QuicSender K) (packet : QuicSealedPacket K) :
    ({ s with emitted := s.emitted ++ [packet] } : QuicSender K).trail first =
      first :: (oneRttKeys s.emitted ++ oneRttKeys [packet] ++ oneRttKeys (s.sendQueue.map fun out => out.raw)) := by
  simp only [trail, oneRttKeys_append]

theorem longTypeOf_eq_none : longTypeOf space = none ↔ space = .application := by
  cases space <;> simp [longTypeOf]

theorem keysForSend_application (valid : s.keysForSend .application = some keys) :
    s.hasAppKeys = true ∧ keys = s.currentKeys := by
  obtain ⟨ready, same⟩ := ite_none_right_eq_some.mp valid
  exact ⟨ready, (some.inj same).symm⟩

variable (inv : InOrder first s)
include inv

theorem enqueue
    (valid : s.keysForSend space = some keys) (type : out.raw.longType = longTypeOf space)
    (itsKeys : out.raw.keys = keys)
    (header payload : Bytes) :
    InOrder first
      { (s.protectNext space keys header payload).markUsed space with sendQueue := s.sendQueue ++ [out] } := by
  by_cases app : space = .application
  · subst app
    obtain ⟨_, current⟩ := keysForSend_application valid
    refine inv.extend rfl rfl ?_
    refine (trail_queue s out).trans ?_
    rw [oneRttKeys_short (type.trans rfl), itsKeys, current]
  · refine inv.congr rfl rfl ?_ ?_
    · refine (trail_queue s out).trans ?_
      rw [oneRttKeys_long (by rw [type]; exact fun none => app (longTypeOf_eq_none.mp none)), append_nil]
    · simp [markUsed, protectNext, app]

/-- A packet that overtakes the queue might as well have come last in it. -/
theorem overtake [DecidableEq K.Keys]
    (valid : s.keysForSend .application = some keys) (type : packet.longType = none) (itsKeys : packet.keys = keys)
    (queued : s.queueCurrent = true) (header payload : Bytes) :
    InOrder first
      (((s.protectNext .application keys header payload).markUsed .application).sendNow .application packet) := by
  obtain ⟨_, current⟩ := keysForSend_application valid
  have same : oneRttKeys (s.sendQueue.map fun out => out.raw) =
      replicate (oneRttKeys (s.sendQueue.map fun out => out.raw)).length s.currentKeys := by
    refine eq_replicate_of_mem fun other member => ?_
    simpa using all_eq_true.mp queued other member
  refine sendNow (inv.extend rfl rfl ?_) fun _ _ _ => by simp [markUsed]
  refine (trail_emit s packet).trans ?_
  rw [oneRttKeys_short type, itsKeys, current, trail, oneRttKeys_append, same, cons_append, append_assoc,
    append_assoc]
  rw [singleton_append, ← replicate_succ, replicate_succ']

theorem sendPacket [DecidableEq K.Keys] {cwndControlled : Bool}
    (payload : Bytes) (ackEliciting : Bool)
    (queued : space = .application → cwndControlled = false → s.hasAppKeys = true → s.queueCurrent = true) :
    InOrder first (s.sendPacket space payload ackEliciting cwndControlled).1 := by
  have outcome := s.sendPacket_cases space payload ackEliciting cwndControlled
  generalize (s.sendPacket space payload ackEliciting cwndControlled).1 = after at outcome ⊢
  cases outcome with
  | unready => exact inv
  | tooShort => exact inv.congr rfl rfl rfl rfl
  | queued valid _ _ type itsKeys => exact inv.enqueue valid type itsKeys _ payload
  | @sent keys packet valid direct type itsKeys =>
    by_cases app : space = .application
    · subst app
      have ready := (keysForSend_application valid).1
      exact inv.overtake valid type itsKeys (queued rfl direct ready) _ payload
    · have long : packet.longType ≠ none := by
        rw [type]
        exact fun none => app (longTypeOf_eq_none.mp none)
      refine InOrder.sendNow (inv.congr rfl rfl ?_ ?_) fun isApp => absurd isApp app
      · refine (trail_emit s packet).trans ?_
        rw [oneRttKeys_long long, append_nil, trail, oneRttKeys_append]
      · simp [markUsed, protectNext, app]

theorem flushCrypto [DecidableEq K.Keys] : InOrder first s.flushCrypto.1 := by
  refine flushCrypto_induct ?_ ?_ s inv
  · intro s space payload holds
    exact holds.sendPacket payload true fun _ direct => by simp at direct
  · intro s off buf holds
    exact holds.congr rfl rfl rfl rfl

theorem sendZeroRttPacket (payload : Bytes) (ackEliciting : Bool) :
    InOrder first (s.sendZeroRttPacket payload ackEliciting).1 := by
  have outcome := s.sendZeroRttPacket_cases payload ackEliciting
  generalize (s.sendZeroRttPacket payload ackEliciting).1 = after at outcome ⊢
  cases outcome with
  | unready => exact inv
  | tooShort => exact inv.congr rfl rfl rfl rfl
  | @queued keys header payload out valid space type =>
    refine inv.congr rfl rfl ?_ rfl
    refine (trail_queue s out).trans ?_
    rw [oneRttKeys_long (by simp [type]), append_nil]

theorem sendNext {rest : List (QuicOutgoingPacket K)} (queue : s.sendQueue = out :: rest)
    (used : out.space = .application → s.hasAppKeys = true → s.appPacketsSent + 1 ≥ 10000 → s.keysUsed = true) :
    InOrder first ({ s with sendQueue := rest }.sendNow out.space out.raw) := by
  refine InOrder.sendNow (inv.congr rfl rfl ?_ rfl) used
  unfold trail
  dsimp only
  rw [queue, map_cons, append_assoc, singleton_append]

theorem handleRetryPacket [DecidableEq K.Keys] (packet : Option QuicRetryPacket) :
    InOrder first (s.handleRetryPacket packet) := by
  have failing : ∀ error message code, InOrder first (s.setError error message code) :=
    fun _ _ _ => inv.congr rfl rfl rfl rfl
  unfold QuicSender.handleRetryPacket
  split
  · exact failing _ _ _
  · split
    · exact failing _ _ _
    · split
      · exact failing _ _ _
      · exact flushCrypto (inv.congr rfl rfl rfl rfl)

omit inv

end InOrder

/-- No 1-RTT packet overtakes queued ones of an earlier key phase, and the keys are
not updated before they have sealed a packet. -/
def ordersKeys [DecidableEq K.Keys] (s : QuicSender K) : QuicSendEvent → Bool
  | .sendPacket space _ _ cwndControlled =>
    space = .application → cwndControlled = false → s.hasAppKeys = true → s.queueCurrent = true
  | .sendNext =>
    s.sendQueue.head?.all fun out =>
      out.space = .application → s.hasAppKeys = true → s.appPacketsSent + 1 ≥ 10000 → s.keysUsed = true
  | .maybeUpdateSendKeys => s.hasAppKeys = true → s.keysUsed = true
  | .updateKeys => s.hasAppKeys = true → s.appPacketsSent > 0 → s.keysUsed = true
  | _ => true

theorem InOrder.step [DecidableEq K.Keys] {e : QuicSendEvent} (inv : InOrder first s) (ordered : s.ordersKeys e = true)
    (stepped : s.step e = some t) : InOrder first t := by
  cases e with
  | initialKeys | handshakeKeys | earlyKeys | cryptoData =>
    cases stepped
    exact inv.congr rfl rfl rfl rfl
  | appKeys =>
    obtain ⟨unready, same⟩ := ite_none_left_eq_some.mp stepped
    cases same
    have secret := inv.unready (by simpa using unready)
    have current : K.quicDeriveTrafficKeys K.appSecret = s.currentKeys := by rw [currentKeys, secret]
    refine ⟨fun _ => rfl, ?_, ?_⟩
    · have chain := inv.chain
      rw [← current] at chain
      exact chain
    · have used := inv.used
      rw [← current] at used
      exact used
  | flushCrypto => cases stepped; exact inv.flushCrypto
  | sendPacket space payload ackEliciting cwndControlled =>
    cases stepped
    exact inv.sendPacket payload ackEliciting (of_decide_eq_true ordered)
  | sendZeroRttPacket payload ackEliciting =>
    cases stepped
    exact inv.sendZeroRttPacket payload ackEliciting
  | sendNext =>
    simp only [QuicSender.step, QuicSender.sendNext] at stepped
    split at stepped
    · simp at stepped
    · rename_i out rest queue
      cases stepped
      simp only [ordersKeys, queue, head?_cons, all_some, decide_eq_true_eq] at ordered
      exact inv.sendNext queue ordered
  | handleRetryPacket packet =>
    cases stepped
    exact inv.handleRetryPacket packet
  | maybeUpdateSendKeys =>
    cases stepped
    exact inv.maybeUpdateSendKeys (of_decide_eq_true ordered)
  | updateKeys =>
    cases stepped
    simp only [ordersKeys, decide_eq_true_eq] at ordered
    unfold QuicSender.updateKeys
    split
    · rename_i counted
      exact inv.maybeUpdateSendKeys fun ready => ordered ready counted.2
    · exact inv

theorem InOrder.deliver (inv : InOrder first s) (link : s.emitted = packet :: rest) (short : packet.longType = none) :
    K.Follows first packet.keys ∧ InOrder packet.keys { s with emitted := rest } := by
  have longer : s.trail first = first :: ({ s with emitted := rest } : QuicSender K).trail packet.keys := by
    simp [trail, link, oneRttKeys, short]
  have chain := inv.chain
  rw [longer, cons_append] at chain
  obtain ⟨next, later⟩ := isChain_cons.mp chain
  refine ⟨next packet.keys rfl, inv.unready, later, ?_⟩
  intro isUsed
  have last := inv.used isUsed
  rw [longer, trail, getLast?_cons_cons] at last
  exact last

theorem InOrder.skip (inv : InOrder first s) (link : s.emitted = packet :: rest) (long : packet.longType ≠ none) :
    InOrder first { s with emitted := rest } := by
  refine inv.congr rfl rfl ?_ rfl
  simp [QuicSender.trail, link, oneRttKeys, long]

end QuicSender

/-- The 1-RTT keys of a receiver. The next ones, where present, follow the
current ones. -/
structure QuicAppReceiver (K : KeySchedule) where
  recvAppSecret : K.Secret
  nextRecvSecret : K.Secret
  hasNextRecvAppKeys : Bool
  follows : hasNextRecvAppKeys = true → nextRecvSecret = K.hkdfExpandLabel recvAppSecret

namespace QuicAppReceiver

variable {K : KeySchedule}

def deriveNextRecvKeys (r : QuicAppReceiver K) : QuicAppReceiver K :=
  if r.hasNextRecvAppKeys then r
  else
    { recvAppSecret := r.recvAppSecret
      nextRecvSecret := K.hkdfExpandLabel r.recvAppSecret
      hasNextRecvAppKeys := true
      follows := fun _ => rfl }

def install (K : KeySchedule) : QuicAppReceiver K :=
  deriveNextRecvKeys
    { recvAppSecret := K.appSecret
      nextRecvSecret := K.appSecret
      hasNextRecvAppKeys := false
      follows := fun no => absurd no (by simp) }

def rotate (r : QuicAppReceiver K) : QuicAppReceiver K :=
  deriveNextRecvKeys
    { recvAppSecret := r.nextRecvSecret
      nextRecvSecret := r.nextRecvSecret
      hasNextRecvAppKeys := false
      follows := fun no => absurd no (by simp) }

/-- The part of readerLoop that opens a packet with a short header: the current
keys are tried, then the next ones, which become the current ones if they fit. -/
def unprotect [DecidableEq K.Keys] (r : QuicAppReceiver K) (packet : QuicSealedPacket K) :
    Option (QuicAppReceiver K) :=
  if packet.keys = K.quicDeriveTrafficKeys r.recvAppSecret then some r
  else if r.hasNextRecvAppKeys ∧ packet.keys = K.quicDeriveTrafficKeys r.nextRecvSecret then some r.rotate
  else none

theorem unprotect_of_follows [DecidableEq K.Keys] {r : QuicAppReceiver K} {packet : QuicSealedPacket K}
    (prepared : r.hasNextRecvAppKeys = true)
    (next : K.Follows (K.quicDeriveTrafficKeys r.recvAppSecret) packet.keys) :
    ∃ after, r.unprotect packet = some after ∧ after.hasNextRecvAppKeys = true ∧
      K.quicDeriveTrafficKeys after.recvAppSecret = packet.keys := by
  by_cases current : packet.keys = K.quicDeriveTrafficKeys r.recvAppSecret
  · exact ⟨r, if_pos current, prepared, current.symm⟩
  · rcases next with same | ⟨secret, present, itsKeys⟩
    · exact absurd same current
    · have known := K.derive_injective present
      have fits : packet.keys = K.quicDeriveTrafficKeys r.nextRecvSecret := by
        rw [itsKeys, r.follows prepared, known]
      refine ⟨r.rotate, ?_, rfl, fits.symm⟩
      rw [unprotect, if_neg current, if_pos ⟨prepared, fits⟩]

end QuicAppReceiver

/-- A sender, the packets it has emitted and the receiver has not read yet (in
its field emitted), and the receiver with the packets it could not open. -/
structure QuicKeyLink (K : KeySchedule) where
  sender : QuicSender K
  receiver : QuicAppReceiver K
  stranded : List (QuicSealedPacket K) := []

inductive QuicKeyEvent
  | sender (e : QuicSendEvent)
  | deliver

namespace QuicKeyLink

variable {K : KeySchedule} [DecidableEq K.Keys]

/-- Packets with a long header are opened with other keys. -/
def deliver (l : QuicKeyLink K) : Option (QuicKeyLink K) :=
  match l.sender.emitted with
  | [] => none
  | packet :: rest =>
    let l := { l with sender := { l.sender with emitted := rest } }
    if packet.longType ≠ none then some l
    else
      match l.receiver.unprotect packet with
      | some receiver => some { l with receiver := receiver }
      | none => some { l with stranded := l.stranded ++ [packet] }

def step (l : QuicKeyLink K) : QuicKeyEvent → Option (QuicKeyLink K)
  | .sender e => (l.sender.step e).map fun sender => { l with sender := sender }
  | .deliver => l.deliver

def ordersKeys (l : QuicKeyLink K) : QuicKeyEvent → Bool
  | .sender e => l.sender.ordersKeys e
  | .deliver => true

/-- What is under way can be opened in the order in which it arrives. -/
structure Readable (l : QuicKeyLink K) : Prop where
  prepared : l.receiver.hasNextRecvAppKeys = true
  inOrder : l.sender.InOrder (K.quicDeriveTrafficKeys l.receiver.recvAppSecret)
  opened : l.stranded = []

variable {l t : QuicKeyLink K}

theorem Readable.deliver (inv : l.Readable) (delivered : l.deliver = some t) : t.Readable := by
  unfold QuicKeyLink.deliver at delivered
  split at delivered
  · simp at delivered
  · rename_i packet rest link
    dsimp only at delivered
    split at delivered
    · rename_i long
      cases delivered
      exact ⟨inv.prepared, inv.inOrder.skip link long, inv.opened⟩
    · rename_i short
      obtain ⟨next, later⟩ := inv.inOrder.deliver link (not_not.mp short)
      obtain ⟨receiver, accepted, prepared, itsKeys⟩ := QuicAppReceiver.unprotect_of_follows inv.prepared next
      rw [accepted] at delivered
      cases delivered
      refine ⟨prepared, ?_, inv.opened⟩
      rw [← itsKeys] at later
      exact later

theorem Readable.step {e : QuicKeyEvent} (inv : l.Readable) (ordered : l.ordersKeys e = true)
    (stepped : l.step e = some t) : t.Readable := by
  cases e with
  | sender e =>
    obtain ⟨sender, sent, same⟩ := map_eq_some_iff.mp stepped
    subst same
    exact ⟨inv.prepared, inv.inOrder.step ordered sent, inv.opened⟩
  | deliver => exact inv.deliver stepped

end QuicKeyLink

/-- The link starts before anything is sent, with the receiver's keys in place. -/
def keyLinkSystem (K : KeySchedule) [DecidableEq K.Keys] : System (QuicKeyLink K) QuicKeyEvent :=
  .ofStep (fun l => (sendSystem K).start l.sender ∧ l.receiver = .install K ∧ l.stranded = []) QuicKeyLink.step

/-- Every packet is opened as long as no 1-RTT packet overtakes queued ones of an
earlier key phase and no key phase is skipped. -/
theorem key_update_strands_nothing (K : KeySchedule) [DecidableEq K.Keys]
    {history : List (QuicKeyLink K × QuicKeyEvent)} {l : QuicKeyLink K}
    (run : Run (keyLinkSystem K) history l)
    (ordered : ∀ entry ∈ history, entry.1.ordersKeys entry.2 = true) : l.stranded = [] := by
  have initial : ∀ l, (keyLinkSystem K).start l → l.Readable := by
    rintro ⟨sender, receiver, stranded⟩ ⟨⟨isClient, localCid, remoteCid, fresh⟩, installed, none⟩
    subst fresh installed
    refine ⟨rfl, ⟨fun _ => rfl, ?_, fun _ => rfl⟩, none⟩
    exact isChain_pair.mpr (.inl rfl)
  have readable := run.invariant_of_guard (fun l e => l.ordersKeys e = true) ordered initial
    (fun _ _ _ inv met stepped => inv.step met stepped)
  exact readable.opened

/-- An immediate packet and a queued one, a key update once the queue is empty, and
two more packets under the new keys. -/
def updateAfterQueue : List QuicKeyEvent :=
  [.sender .appKeys, .sender (.sendPacket .application [8, 0, 1] true false),
    .sender (.sendPacket .application [8, 0, 2] true true), .deliver, .sender .sendNext, .sender .updateKeys,
    .sender (.sendPacket .application [8, 0, 3] true false), .deliver,
    .sender (.sendPacket .application [8, 0, 4] true true), .sender .sendNext, .deliver, .deliver]

theorem key_update_strands_nothing_afterQueue :
    ∃ history l, Run (keyLinkSystem countingSchedule) history l ∧
      history.map Prod.snd = updateAfterQueue.reverse ∧ l.sender.emitted = [] ∧
      l.sender.calls.length = 4 ∧ l.stranded = [] := by
  obtain ⟨history, l, run, labels, guarded, empty, four⟩ :=
    Run.of_exec_guarded (keyLinkSystem countingSchedule) QuicKeyLink.ordersKeys
      rfl updateAfterQueue
      (s := ⟨{ isClient := true, localCid := { bytes := [1] }, remoteCid := { bytes := [2] } }, .install _, []⟩)
      ⟨⟨true, { bytes := [1] }, { bytes := [2] }, rfl⟩, rfl, rfl⟩
      (fun l => l.sender.emitted.length = 0 ∧ l.sender.calls.length = 4) (by decide)
  exact ⟨history, l, run, labels, eq_nil_of_length_eq_zero empty, four,
    key_update_strands_nothing countingSchedule run guarded⟩

/-- A packet waits in the queue while the keys are updated, and an immediate packet
under the new keys overtakes it. -/
def updateOverQueue : List QuicKeyEvent :=
  [.sender .appKeys, .sender (.sendPacket .application [8, 0, 1] true false),
    .sender (.sendPacket .application [8, 0, 2] true true), .sender .updateKeys,
    .sender (.sendPacket .application [8, 0, 3] true false), .sender .sendNext, .deliver, .deliver, .deliver]

/-- The receiver has rotated to the new keys and forgotten those of the queued packet. -/
theorem key_update_strands_overQueue :
    ∃ history l, Run (keyLinkSystem countingSchedule) history l ∧
      history.map Prod.snd = updateOverQueue.reverse ∧
      l.stranded.map (fun packet => packet.payload) = [[8, 0, 2]] :=
  Run.of_exec (keyLinkSystem countingSchedule) rfl updateOverQueue
    (s := ⟨{ isClient := true, localCid := { bytes := [1] }, remoteCid := { bytes := [2] } }, .install _, []⟩)
    ⟨⟨true, { bytes := [1] }, { bytes := [2] }, rfl⟩, rfl, rfl⟩
    (fun l => l.stranded.map (fun packet => packet.payload) = [[8, 0, 2]]) (by decide)

end Qtng
