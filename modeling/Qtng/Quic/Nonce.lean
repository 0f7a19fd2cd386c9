import Qtng.Quic.Send

namespace Qtng

open BigEndian List Function Transition Option

namespace KeySchedule

variable {K : KeySchedule}

def Belongs (K : KeySchedule) : QuicPacketNumberSpace → K.Keys → Prop
  | .initial, keys => keys = K.quicDeriveTrafficKeys K.initialSecret
  | .handshake, keys => keys = K.quicDeriveTrafficKeys K.handshakeSecret
  | .application, keys => keys = K.quicDeriveTrafficKeys K.earlySecret ∨
      ∃ n, keys = K.quicDeriveTrafficKeys (K.hkdfExpandLabel^[n] K.appSecret)

theorem not_belongs_application_of_ne {secret : K.Secret} (early : K.earlySecret ≠ secret)
    (app : ∀ n, K.hkdfExpandLabel^[n] K.appSecret ≠ secret) :
    ¬ K.Belongs .application (K.quicDeriveTrafficKeys secret) := by
  rintro (same | ⟨n, same⟩)
  · exact early (K.derive_injective same).symm
  · exact app n (K.derive_injective same).symm

theorem Belongs.unique {first second : QuicPacketNumberSpace} {keys : K.Keys} (one : K.Belongs first keys)
    (other : K.Belongs second keys) : first = second := by
  have handshake : ¬ K.Belongs .handshake (K.quicDeriveTrafficKeys K.initialSecret) :=
    fun same => K.initial_ne_handshake (K.derive_injective same)
  have initial : ¬ K.Belongs .initial (K.quicDeriveTrafficKeys K.handshakeSecret) :=
    fun same => K.initial_ne_handshake (K.derive_injective same).symm
  have initialApp := not_belongs_application_of_ne K.early_ne_initial K.app_ne_initial
  have handshakeApp := not_belongs_application_of_ne K.early_ne_handshake K.app_ne_handshake
  cases first with
  | initial =>
    cases one
    cases second with
    | initial => rfl
    | handshake => exact absurd other handshake
    | application => exact absurd other initialApp
  | handshake =>
    cases one
    cases second with
    | initial => exact absurd other initial
    | handshake => rfl
    | application => exact absurd other handshakeApp
  | application =>
    cases second with
    | initial =>
      cases other
      exact absurd one initialApp
    | handshake =>
      cases other
      exact absurd one handshakeApp
    | application => rfl

end KeySchedule

namespace QuicSender

variable {K : KeySchedule} {s t : QuicSender K}

/-- The calls of quicProtectPacket have numbers below the counters, and no two of
them have their number and their keys in common. -/
structure Numbered (s : QuicSender K) : Prop where
  initial : ∀ keys ∈ s.initialKeys, K.Belongs .initial keys
  handshake : ∀ keys ∈ s.handshakeKeys, K.Belongs .handshake keys
  early : ∀ keys ∈ s.clientEarlyKeys, K.Belongs .application keys
  app : ∃ n, s.sendAppSecret = K.hkdfExpandLabel^[n] K.appSecret
  below : ∀ call ∈ s.calls, ∃ space, K.Belongs space call.keys ∧ call.packetNumber < s.nextPn space
  counted : ∀ space, s.nextPn space ≤ s.calls.length
  distinct : s.calls.Pairwise fun a b => ¬ (a.keys = b.keys ∧ a.packetNumber = b.packetNumber)

namespace Numbered

variable {keys : K.Keys} {space : QuicPacketNumberSpace}

theorem keysForSend (inv : Numbered s) (valid : s.keysForSend space = some keys) : K.Belongs space keys := by
  cases space with
  | initial => exact inv.initial keys valid
  | handshake => exact inv.handshake keys valid
  | application =>
    obtain ⟨_, same⟩ := ite_none_right_eq_some.mp valid
    obtain ⟨n, secret⟩ := inv.app
    rw [secret] at same
    exact .inr ⟨n, (some.inj same).symm⟩

theorem protectNext {header payload : Bytes} (inv : Numbered s)
    (belongs : K.Belongs space keys) (few : s.calls.length + 1 < 2 ^ 64) :
    Numbered (s.protectNext space keys header payload) := by
  have bound := inv.counted space
  have next : (s.nextPn space + 1) % 2 ^ 64 = s.nextPn space + 1 := Nat.mod_eq_of_lt (by omega)
  refine ⟨inv.initial, inv.handshake, inv.early, inv.app, ?_, ?_, ?_⟩
  · intro call member
    rcases mem_append.mp member with old | new
    · obtain ⟨other, its, less⟩ := inv.below call old
      refine ⟨other, its, ?_⟩
      simp only [QuicSender.protectNext, update_apply, next]
      split_ifs with same
      · rw [same] at less
        omega
      · exact less
    · cases mem_singleton.mp new
      refine ⟨space, belongs, ?_⟩
      simp only [QuicSender.protectNext, update_self, next]
      omega
  · intro other
    have old := inv.counted other
    simp only [QuicSender.protectNext, update_apply, next, length_append, length_singleton]
    split <;> omega
  · refine pairwise_append.mpr ⟨inv.distinct, pairwise_singleton _ _, ?_⟩
    intro call member last isLast
    cases mem_singleton.mp isLast
    rintro ⟨sameKeys, sameNumber⟩
    obtain ⟨other, its, less⟩ := inv.below call member
    rw [sameKeys] at its
    cases its.unique belongs
    exact absurd sameNumber (Nat.ne_of_lt less)

theorem maybeUpdateSendKeys (inv : Numbered s) : Numbered s.maybeUpdateSendKeys := by
  unfold QuicSender.maybeUpdateSendKeys
  split
  · obtain ⟨n, secret⟩ := inv.app
    refine ⟨inv.initial, inv.handshake, inv.early, ⟨n + 1, ?_⟩, inv.below, inv.counted, inv.distinct⟩
    rw [iterate_succ_apply', ← secret]
  · exact inv

theorem sendNow (inv : Numbered s) (space : QuicPacketNumberSpace) (packet : QuicSealedPacket K) :
    Numbered (s.sendNow space packet) := by
  have counted : ∀ emitted sent, Numbered { s with emitted := emitted, appPacketsSent := sent } := fun _ _ =>
    ⟨inv.initial, inv.handshake, inv.early, inv.app, inv.below, inv.counted, inv.distinct⟩
  unfold QuicSender.sendNow
  dsimp only
  split
  · split
    · exact (counted _ _).maybeUpdateSendKeys
    · exact counted _ _
  · exact counted _ s.appPacketsSent

end Numbered

theorem calls_sendNow (s : QuicSender K) (space : QuicPacketNumberSpace) (packet : QuicSealedPacket K) :
    (s.sendNow space packet).calls = s.calls := by
  unfold sendNow maybeUpdateSendKeys
  dsimp only
  split
  · split
    · split <;> rfl
    · rfl
  · rfl

/-- The numbers are in order as long as the counters cannot have come to their end. -/
def Sound (s : QuicSender K) : Prop := s.calls.length < 2 ^ 64 → Numbered s

namespace Sound

variable (inv : Sound s)
include inv

theorem protectNext {space : QuicPacketNumberSpace} {keys : K.Keys} (header payload : Bytes)
    (belongs : Numbered s → K.Belongs space keys) : Sound (s.protectNext space keys header payload) := by
  intro few
  simp only [QuicSender.protectNext, length_append, length_singleton] at few
  have before := inv (by omega)
  exact before.protectNext (belongs before) few

theorem congr (initial : t.initialKeys = s.initialKeys) (handshake : t.handshakeKeys = s.handshakeKeys)
    (early : t.clientEarlyKeys = s.clientEarlyKeys) (app : t.sendAppSecret = s.sendAppSecret)
    (numbers : t.nextPn = s.nextPn) (calls : t.calls = s.calls) : Sound t := by
  intro few
  have before := inv (calls ▸ few)
  refine ⟨?_, ?_, ?_, ?_, ?_, ?_, ?_⟩
  · exact initial ▸ before.initial
  · exact handshake ▸ before.handshake
  · exact early ▸ before.early
  · exact app ▸ before.app
  · rw [calls, numbers]
    exact before.below
  · rw [calls, numbers]
    exact before.counted
  · exact calls ▸ before.distinct

theorem sendNow (space : QuicPacketNumberSpace) (packet : QuicSealedPacket K) :
    Sound (s.sendNow space packet) := by
  intro few
  rw [calls_sendNow] at few
  exact (inv few).sendNow space packet

theorem maybeUpdateSendKeys : Sound s.maybeUpdateSendKeys := by
  intro few
  have same : s.maybeUpdateSendKeys.calls = s.calls := by
    unfold QuicSender.maybeUpdateSendKeys
    split <;> rfl
  exact (inv (same ▸ few)).maybeUpdateSendKeys

theorem sendPacket (space : QuicPacketNumberSpace) (payload : Bytes) (ackEliciting cwndControlled : Bool) :
    Sound (s.sendPacket space payload ackEliciting cwndControlled).1 := by
  have outcome := s.sendPacket_cases space payload ackEliciting cwndControlled
  generalize (s.sendPacket space payload ackEliciting cwndControlled).1 = after at outcome ⊢
  cases outcome with
  | unready => exact inv
  | tooShort valid => exact inv.protectNext _ _ fun before => before.keysForSend valid
  | queued valid =>
    have called := inv.protectNext (s.headerFor space payload) payload fun before => before.keysForSend valid
    exact called.congr rfl rfl rfl rfl rfl rfl
  | @sent keys packet valid =>
    have called := inv.protectNext (s.headerFor space payload) payload fun before => before.keysForSend valid
    have marked : Sound ((s.protectNext space keys (s.headerFor space payload) payload).markUsed space) :=
      called.congr rfl rfl rfl rfl rfl rfl
    exact marked.sendNow space packet

theorem sendZeroRttPacket (payload : Bytes) (ackEliciting : Bool) :
    Sound (s.sendZeroRttPacket payload ackEliciting).1 := by
  have outcome := s.sendZeroRttPacket_cases payload ackEliciting
  generalize (s.sendZeroRttPacket payload ackEliciting).1 = after at outcome ⊢
  cases outcome with
  | unready => exact inv
  | tooShort valid => exact inv.protectNext _ _ fun before => before.early _ valid
  | @queued keys header payload out valid =>
    have called := inv.protectNext header payload fun before => before.early _ valid
    exact called.congr rfl rfl rfl rfl rfl rfl

theorem flushCrypto : Sound s.flushCrypto.1 := by
  refine flushCrypto_induct (fun s space payload holds => holds.sendPacket space payload true true) ?_ s inv
  intro s off buf holds
  exact holds.congr rfl rfl rfl rfl rfl rfl

omit inv

end Sound

/-- An accepted Retry finds the counters that it resets still at 0. -/
def keepsNumbers (s : QuicSender K) : QuicSendEvent → Bool
  | .handleRetryPacket (some packet) =>
    (packet.version = 0 ∨ packet.version = kQuicVersion1) → packet.dcid = s.localCid →
      s.nextPn .initial = 0 ∧ s.nextPn .handshake = 0
  | _ => true

theorem Sound.handleRetryPacket {packet : Option QuicRetryPacket} (inv : Sound s)
    (kept : s.keepsNumbers (.handleRetryPacket packet) = true) : Sound (s.handleRetryPacket packet) := by
  have failing : ∀ error message code, Sound (s.setError error message code) :=
    fun _ _ _ => inv.congr rfl rfl rfl rfl rfl rfl
  unfold QuicSender.handleRetryPacket
  split
  · exact failing _ _ _
  · rename_i packet
    split
    · exact failing _ _ _
    · rename_i version
      split
      · exact failing _ _ _
      · rename_i echoed
        apply Sound.flushCrypto
        simp only [keepsNumbers, decide_eq_true_eq] at kept
        obtain ⟨initial, handshake⟩ := kept (by tauto) (by simpa using echoed)
        have same : update (update s.nextPn .initial 0) .handshake 0 = s.nextPn := by
          rw [← initial, update_eq_self, initial, ← handshake, update_eq_self]
        exact inv.congr rfl rfl rfl rfl same rfl

theorem Sound.step {e : QuicSendEvent} (inv : Sound s) (kept : s.keepsNumbers e = true) (stepped : s.step e = some t) :
    Sound t := by
  cases e with
  | initialKeys =>
    cases stepped
    intro few
    have before := inv few
    refine ⟨?_, before.handshake, before.early, before.app, before.below, before.counted, before.distinct⟩
    intro keys same
    exact (some.inj same).symm
  | handshakeKeys =>
    cases stepped
    intro few
    have before := inv few
    refine ⟨before.initial, ?_, before.early, before.app, before.below, before.counted, before.distinct⟩
    intro keys same
    exact (some.inj same).symm
  | earlyKeys =>
    cases stepped
    intro few
    have before := inv few
    refine ⟨before.initial, before.handshake, ?_, before.app, before.below, before.counted, before.distinct⟩
    intro keys same
    exact .inl (some.inj same).symm
  | appKeys =>
    obtain ⟨_, same⟩ := ite_none_left_eq_some.mp stepped
    cases same
    intro few
    have before := inv few
    exact ⟨before.initial, before.handshake, before.early, ⟨0, rfl⟩, before.below, before.counted, before.distinct⟩
  | cryptoData space data =>
    cases stepped
    exact inv.congr rfl rfl rfl rfl rfl rfl
  | flushCrypto =>
    cases stepped
    exact inv.flushCrypto
  | sendPacket space payload ackEliciting cwndControlled =>
    cases stepped
    exact inv.sendPacket space payload ackEliciting cwndControlled
  | sendZeroRttPacket payload ackEliciting =>
    cases stepped
    exact inv.sendZeroRttPacket payload ackEliciting
  | sendNext =>
    simp only [QuicSender.step, sendNext] at stepped
    split at stepped
    · simp at stepped
    · rename_i out rest _
      cases stepped
      have popped : Sound { s with sendQueue := rest } := inv.congr rfl rfl rfl rfl rfl rfl
      exact popped.sendNow _ _
  | handleRetryPacket packet =>
    cases stepped
    exact inv.handleRetryPacket kept
  | maybeUpdateSendKeys =>
    cases stepped
    exact inv.maybeUpdateSendKeys
  | updateKeys =>
    cases stepped
    unfold QuicSender.updateKeys
    split
    · exact inv.maybeUpdateSendKeys
    · exact inv

end QuicSender

/-- In a run of fewer than 2^64 calls, in which each accepted Retry comes before any
Initial or Handshake packet, no two calls of quicProtectPacket have their keys and
their packet number in common. -/
theorem quic_nonces_unique {K : KeySchedule} {history : List (QuicSender K × QuicSendEvent)} {t : QuicSender K}
    (run : Run (sendSystem K) history t) (few : t.calls.length < 2 ^ 64)
    (guarded : ∀ entry ∈ history, entry.1.keepsNumbers entry.2 = true) :
    t.calls.Pairwise fun a b => ¬ (a.keys = b.keys ∧ a.packetNumber = b.packetNumber) := by
  have initial : ∀ s, (sendSystem K).start s → s.Sound := by
    intro s ⟨isClient, localCid, remoteCid, fresh⟩ _
    subst fresh
    refine ⟨?_, ?_, ?_, ⟨0, rfl⟩, ?_, ?_, List.Pairwise.nil⟩ <;> simp
  have inv := run.invariant_of_guard (fun s e => s.keepsNumbers e = true) guarded initial
    (fun _ _ _ inv kept stepped => inv.step kept stepped)
  exact (inv few).distinct

/-- A client sends early data, gets a Retry before its first Initial packet, and
updates its keys between two 1-RTT packets. -/
def earlyRetry : List QuicSendEvent :=
  [.initialKeys, .earlyKeys, .sendZeroRttPacket [8, 0, 1] true,
    .handleRetryPacket (some ⟨kQuicVersion1, { bytes := [1] }, { bytes := [3] }, [9]⟩),
    .sendPacket .initial [6, 0, 1] true true, .handshakeKeys, .sendPacket .handshake [6, 0, 2] true false, .appKeys,
    .sendPacket .application [8, 0, 3] true false, .maybeUpdateSendKeys, .sendPacket .application [8, 0, 4] true true,
    .sendNext]

theorem quic_nonces_unique_earlyRetry :
    ∃ history t, Run (sendSystem countingSchedule) history t ∧
      history.map Prod.snd = earlyRetry.reverse ∧ t.calls.length = 5 ∧
      t.calls.Pairwise fun a b => ¬ (a.keys = b.keys ∧ a.packetNumber = b.packetNumber) := by
  obtain ⟨history, t, run, labels, guarded, five⟩ :=
    Run.of_exec_guarded (sendSystem countingSchedule) QuicSender.keepsNumbers
      rfl earlyRetry ⟨true, { bytes := [1] }, { bytes := [2] }, rfl⟩
      (fun t => t.calls.length = 5) (by decide)
  exact ⟨history, t, run, labels, five, quic_nonces_unique run (by omega) guarded⟩

/-- A Retry comes after the first Initial packet, and another Initial packet
follows. -/
def lateRetry : List QuicSendEvent :=
  [.initialKeys, .sendPacket .initial [6, 0, 1] true false,
    .handleRetryPacket (some ⟨kQuicVersion1, { bytes := [1] }, { bytes := [3] }, [9]⟩),
    .sendPacket .initial [6, 0, 2] true false]

/-- The keys stay the same but the numbers begin at 0 again. -/
theorem quic_nonce_reused_lateRetry :
    ∃ history t, Run (sendSystem countingSchedule) history t ∧
      history.map Prod.snd = lateRetry.reverse ∧ ∃ first second, t.calls = [first, second] ∧
        first.keys = second.keys ∧ first.packetNumber = second.packetNumber ∧ first.payload ≠ second.payload := by
  obtain ⟨history, t, run, labels, reused⟩ :=
    Run.of_exec (sendSystem countingSchedule) rfl lateRetry
      ⟨true, { bytes := [1] }, { bytes := [2] }, rfl⟩
      (fun t : QuicSender countingSchedule =>
        t.calls.map (fun call => (call.keys, call.packetNumber, call.payload)) =
          ([[6, 0, 1], [6, 0, 2]] : List Bytes).map fun payload =>
            (countingSchedule.quicDeriveTrafficKeys countingSchedule.initialSecret, 0, payload)) (by decide)
  refine ⟨history, t, run, labels, ?_⟩
  simp only [map_cons, map_nil] at reused
  obtain ⟨first, others, calls, firstIs, reused⟩ := map_eq_cons_iff.mp reused
  obtain ⟨second, rest, othersAre, secondIs, reused⟩ := map_eq_cons_iff.mp reused
  cases map_eq_nil_iff.mp reused
  simp only [Prod.mk.injEq] at firstIs secondIs
  obtain ⟨firstKeys, firstNumber, firstPayload⟩ := firstIs
  obtain ⟨secondKeys, secondNumber, secondPayload⟩ := secondIs
  refine ⟨first, second, by rw [calls, othersAre], firstKeys.trans secondKeys.symm,
    firstNumber.trans secondNumber.symm, ?_⟩
  rw [firstPayload, secondPayload]
  decide

end Qtng
