import Qtng.Http.SessionRun

namespace Qtng.Http2

open BigEndian Function List Option

variable {streams : List (Nat × Nat)}

structure SendView where
  id : Nat → Nat
  sendWindow : Nat → Int
  created : Nat
  nextStreamId : Nat
  connectionSendWindow : Int
  remoteInitialWindow : Int
  connected : Bool
  wire : List Sent
  received : List Frame

structure HeaderView where
  decoder : HpackDecoder
  headerBlockBuffer : Bytes
  headerBlockStream : Nat
  received : List Frame
  decodes : List (Bytes × List HpackHeader × Bool)

/-- Actions that are neither part of a request's way to the connection nor done under
the write lock. -/
def Action.plain : Action → Bool
  | .locked (.control _) => true
  | .locked _ | .write _ | .flush _ | .unlock | .readBody .. | .sendChunk .. | .deduct .. => false
  | _ => true

attribute [simp] Action.plain

def Action.free : Action → Bool
  | .locked _ | .write _ | .flush _ | .unlock | .deduct .. => false
  | _ => true

def Action.inner : Action → Bool
  | .write _ | .flush _ | .unlock => true
  | _ => false

/-- Actions that go on with the body of a stream, before its next piece is cut. -/
def Action.uploads (stream : Nat) : Action → Bool
  | .readBody h _ | .sendChunk h _ _ _ | .locked (.bodyEnd h) => h = stream
  | _ => false

theorem Action.inner_of_free {a : Action} (free : a.free = true) : a.inner = false := by
  cases a <;> first | rfl | simp [Action.free] at free

namespace Http2Session

variable {more : List Action} {result : Http2Session × List Action}

def sending (s : Http2Session) : SendView where
  id h := (s.object h).id
  sendWindow h := (s.object h).sendWindow
  created := s.created
  nextStreamId := s.nextStreamId
  connectionSendWindow := s.connectionSendWindow
  remoteInitialWindow := s.remoteInitialWindow
  connected := s.connected
  wire := s.wire
  received := s.received

def heading (s : Http2Session) : HeaderView where
  decoder := s.decoder
  headerBlockBuffer := s.headerBlockBuffer
  headerBlockStream := s.headerBlockStream
  received := s.received
  decodes := s.decodes

variable (s : Http2Session)

/-- Nothing is sent, and the map of the streams loses entries at most. -/
structure Still (t : Http2Session) : Prop where
  sending : t.sending = s.sending
  streams : t.streams.Sublist s.streams

structure Quiet (t : Http2Session) : Prop extends Still s t where
  heading : t.heading = s.heading

variable {s} {t u : Http2Session}

theorem Still.trans (first : Still s t) (second : Still t u) : Still s u :=
  ⟨second.sending.trans first.sending, second.streams.trans first.streams⟩

theorem Quiet.refl (s : Http2Session) : Quiet s s := ⟨⟨rfl, .refl _⟩, rfl⟩

theorem Quiet.trans (first : Quiet s t) (second : Quiet t u) : Quiet s u :=
  ⟨first.toStill.trans second.toStill, second.heading.trans first.heading⟩

variable (s)

theorem sending_modify (stream : Nat) (change : Http2StreamState → Http2StreamState)
    (id : ∀ o, (change o).id = o.id) :
    (s.modify stream change).sending =
      { s.sending with
        sendWindow := update s.sending.sendWindow stream (change (s.object stream)).sendWindow } := by
  have ids : ∀ h, ((s.modify stream change).object h).id = (s.object h).id := by
    intro h
    by_cases same : h = stream
    · subst same
      simp [modify, id]
    · simp [modify, same]
  have windows : ∀ h, ((s.modify stream change).object h).sendWindow =
      update s.sending.sendWindow stream (change (s.object stream)).sendWindow h := by
    intro h
    by_cases same : h = stream
    · subst same
      simp [modify]
    · simp [modify, same, sending]
  simp only [sending, ids, windows]
  rfl

theorem sending_setWindow (stream : Nat) (window : Int) :
    (s.modify stream ({ · with sendWindow := window })).sending =
      { s.sending with sendWindow := update s.sending.sendWindow stream window } :=
  s.sending_modify stream ({ · with sendWindow := window }) (fun _ => rfl)

theorem quiet_modify (stream : Nat) (change : Http2StreamState → Http2StreamState)
    (id : ∀ o, (change o).id = o.id) (window : ∀ o, (change o).sendWindow = o.sendWindow) :
    Quiet s (s.modify stream change) := by
  refine ⟨⟨?_, .refl _⟩, rfl⟩
  rw [sending_modify s stream change id, window]
  have same : (s.object stream).sendWindow = s.sending.sendWindow stream := rfl
  rw [same, update_eq_self]

theorem quiet_unreserveStream (stream : Nat) : Quiet s (s.unreserveStream stream) := by
  unfold unreserveStream
  split
  · have quiet := s.quiet_modify stream ({ · with reserved := false }) (fun _ => rfl) (fun _ => rfl)
    exact ⟨⟨quiet.sending, quiet.streams⟩, quiet.heading⟩
  · exact .refl s

theorem quiet_storeHeaders (stream : Nat) (decoded : List HpackHeader) :
    Quiet s (s.modify stream fun o =>
      if ¬ o.endHeaders then { o with responseHeaders := decoded, endHeaders := true }
      else { o with trailers := o.trailers ++ decoded }) :=
  s.quiet_modify stream _ (fun o => by split <;> rfl) (fun o => by split <;> rfl)

theorem quiet_erase (streamId : Nat) : Quiet s (s.erase streamId) :=
  ⟨⟨rfl, filter_sublist⟩, rfl⟩

theorem quiet_endStream (stream : Nat) :
    Quiet s ((s.modify stream ({ · with endStream := true })).unreserveStream stream) :=
  (s.quiet_modify stream ({ · with endStream := true }) (fun _ => rfl) (fun _ => rfl)).trans
    (quiet_unreserveStream _ stream)

theorem quiet_leave (stream streamId : Nat) (change : Http2StreamState → Http2StreamState)
    (id : ∀ o, (change o).id = o.id) (window : ∀ o, (change o).sendWindow = o.sendWindow) :
    Quiet s (((s.modify stream change).unreserveStream stream).erase streamId) :=
  ((s.quiet_modify stream change id window).trans (quiet_unreserveStream _ stream)).trans (quiet_erase _ _)

theorem quiet_finishStreamError (stream code : Nat) : Quiet s (s.finishStreamError stream code) :=
  s.quiet_leave stream _ _ (fun _ => rfl) (fun _ => rfl)

theorem quiet_released (stream streamId : Nat) (sendRst : Bool) (code : Nat) :
    Quiet s (s.released stream streamId sendRst code) :=
  s.quiet_leave stream _ _ (fun _ => rfl) (fun _ => rfl)

theorem quiet_foldl_finish (code : Nat) (doomed : List (Nat × Nat)) :
    Quiet s (doomed.foldl (fun s entry => s.finishStreamError entry.2 code) s) := by
  induction doomed generalizing s with
  | nil => exact .refl s
  | cons entry rest ih => exact (s.quiet_finishStreamError entry.2 code).trans (ih _)

theorem quiet_finishStreamsWhere (code : Nat) (doomed : Nat → Bool) : Quiet s (s.finishStreamsWhere code doomed) :=
  s.quiet_foldl_finish code _

structure Calm (result : Http2Session × List Action) : Prop where
  quiet : Quiet s result.1
  plain : ∀ b ∈ result.2, b.plain = true

theorem calm_actions (more : List Action) (plain : ∀ b ∈ more, b.plain = true) : Calm s (s, more) := ⟨.refl s, plain⟩

theorem calm_quiet {t : Http2Session} (quiet : Quiet s t) : Calm s (t, []) := ⟨quiet, by simp⟩

theorem calm_handleSettings (f : Frame) : Calm s (s.handleSettings f) := by
  unfold handleSettings
  split
  · split <;> exact s.calm_actions _ (by simp)
  split <;> exact s.calm_actions _ (by simp)

theorem calm_handlePing (f : Frame) : Calm s (s.handlePing f) := by
  unfold handlePing
  split
  · exact s.calm_actions _ (by simp)
  split <;> exact s.calm_actions _ (by simp [sendFrame])

theorem calm_handleGoAway (f : Frame) : Calm s (s.handleGoAway f) := by
  unfold handleGoAway
  dsimp only
  split
  · have quiet := quiet_finishStreamsWhere
      { s with goingAway := true, goAwayLastStreamId := readUint32 f.payload % 2 ^ 31 } (readUint32 (f.payload.drop 4))
      (· > readUint32 f.payload % 2 ^ 31)
    exact s.calm_quiet ⟨⟨quiet.sending, quiet.streams⟩, quiet.heading⟩
  · have quiet := quiet_finishStreamsWhere { s with goingAway := true, valid := false } errorCancel fun _ => true
    exact s.calm_quiet ⟨⟨quiet.sending, quiet.streams⟩, quiet.heading⟩

theorem calm_handleRstStream (f : Frame) : Calm s (s.handleRstStream f) := by
  unfold handleRstStream
  split
  · exact s.calm_actions _ (by simp)
  split
  · exact s.calm_actions _ (by simp)
  · exact s.calm_quiet (s.quiet_finishStreamError _ _)

theorem calm_handlePushPromise (f : Frame) : Calm s (s.handlePushPromise f) := by
  unfold handlePushPromise
  dsimp only
  split_ifs <;> exact ⟨.refl s, by simp [sendFrame]⟩

theorem calm_chargeConnection (length : Nat) (refill : Bool) : Calm s (s.chargeConnection length refill) := by
  unfold chargeConnection
  dsimp only
  split_ifs <;> exact ⟨⟨⟨rfl, .refl _⟩, rfl⟩, by simp [sendFrame]⟩

variable {s} in
theorem Calm.append {t : Http2Session}
    (before : Quiet s t) (calm : Calm t result) (plain : ∀ b ∈ more, b.plain = true) :
    Calm s (result.1, result.2 ++ more) := by
  refine ⟨before.trans calm.quiet, ?_⟩
  intro b member
  rcases mem_append.mp member with old | new
  · exact calm.plain b old
  · exact plain b new

theorem calm_consumeRecvWindow (stream length : Nat) : Calm s (s.consumeRecvWindow stream length) := by
  have quiet := s.quiet_modify stream (fun o => { o with recvWindow := o.recvWindow - length }) (fun _ => rfl)
    (fun _ => rfl)
  unfold consumeRecvWindow
  dsimp only
  split
  · exact ⟨⟨⟨quiet.sending, quiet.streams⟩, quiet.heading⟩, by simp⟩
  · split
    · exact ⟨quiet.trans (calm_chargeConnection _ length true).quiet, (calm_chargeConnection _ length true).plain⟩
    · exact .append quiet (calm_chargeConnection _ length true) (by simp)

theorem calm_updateStream (stream : Nat) : Calm s (s.updateStream stream) := by
  unfold updateStream
  dsimp only
  split
  · exact ⟨s.quiet_modify stream ({ · with recvWindow := kDefaultWindow }) (fun _ => rfl) (fun _ => rfl),
      by simp [sendFrame]⟩
  · exact s.calm_actions _ (by simp)

theorem calm_handleData (f : Frame) : Calm s (s.handleData f) := by
  unfold handleData
  split
  · exact s.calm_actions _ (by simp)
  split
  · exact s.calm_chargeConnection _ true
  rename_i stream _
  split
  · have charged := s.calm_chargeConnection f.payload.length false
    dsimp only
    split
    · exact ⟨charged.quiet, by simp [sendFrame]⟩
    · exact charged
  split
  · exact s.calm_actions _ (by simp)
  · rename_i data _
    have stored := s.quiet_modify stream (fun o => { o with body := o.body ++ data }) (fun _ => rfl) (fun _ => rfl)
    exact .append stored (calm_consumeRecvWindow _ stream f.payload.length) (by simp)

theorem still_headersComplete (streamId : Nat) (block : Bytes) (flags : UInt8) :
    Still s (s.headersComplete streamId block flags).1 ∧
      ∀ b ∈ (s.headersComplete streamId block flags).2, b.plain = true := by
  unfold headersComplete
  dsimp only
  split
  · exact ⟨⟨rfl, .refl _⟩, by simp⟩
  rename_i stream _
  split
  · exact ⟨⟨rfl, .refl _⟩, by simp [sendFrame]⟩
  split
  · exact ⟨⟨rfl, .refl _⟩, by simp⟩
  have stored := quiet_storeHeaders
    { s with
      headerBlockStream := 0, headerBlockBuffer := [], decoder := (s.decoder.decode block).1
      decodes := s.decodes ++ [(block, (s.decoder.decode block).2)] } stream (s.decoder.decode block).2.1
  split
  · have both := stored.trans (quiet_endStream _ stream)
    exact ⟨⟨both.sending, both.streams⟩, by simp⟩
  · exact ⟨⟨stored.sending, stored.streams⟩, by simp⟩

theorem still_handleHeaders (f : Frame) :
    Still s (s.handleHeaders f).1 ∧ ∀ b ∈ (s.handleHeaders f).2, b.plain = true := by
  have unchanged : Still s s := (Quiet.refl s).toStill
  unfold handleHeaders
  split
  · exact ⟨unchanged, by simp⟩
  split
  · exact ⟨unchanged, by simp⟩
  rename_i payload _
  dsimp only
  split
  · have complete := still_headersComplete
      { s with headerBlockStream := f.streamId, headerBlockFlags := f.flags, headerBlockBuffer := payload }
      f.streamId payload f.flags
    exact ⟨⟨complete.1.sending, complete.1.streams⟩, complete.2⟩
  · exact ⟨⟨rfl, unchanged.streams⟩, by simp⟩

theorem still_handleContinuation (f : Frame) :
    Still s (s.handleContinuation f).1 ∧ ∀ b ∈ (s.handleContinuation f).2, b.plain = true := by
  have unchanged : Still s s := (Quiet.refl s).toStill
  unfold handleContinuation
  split
  · exact ⟨unchanged, by simp⟩
  dsimp only
  generalize (if f.has flagEndStream = true then _ else _ : UInt8) = flags
  split
  · have complete := still_headersComplete
      { s with headerBlockBuffer := s.headerBlockBuffer ++ f.payload, headerBlockFlags := flags }
      f.streamId (s.headerBlockBuffer ++ f.payload) flags
    exact ⟨⟨complete.1.sending, complete.1.streams⟩, complete.2⟩
  · exact ⟨⟨rfl, unchanged.streams⟩, by simp⟩

/-- The windows that applyInitialWindowSize has moved, of streams in the map only. -/
structure Shifted (delta : Int) (entries : List (Nat × Nat)) (t : Http2Session) : Prop where
  sending : t.sending = { s.sending with sendWindow := t.sending.sendWindow }
  streams : t.streams = s.streams
  heading : t.heading = s.heading
  window : ∀ h, t.sending.sendWindow h = s.sending.sendWindow h ∨
    (∃ entry ∈ entries, entry.2 = h) ∧ t.sending.sendWindow h = s.sending.sendWindow h + delta ∧
      0 ≤ t.sending.sendWindow h ∧ t.sending.sendWindow h ≤ 0x7fffffff
  whole : (∀ entry ∈ entries, 0 ≤ s.sending.sendWindow entry.2 + delta ∧
      s.sending.sendWindow entry.2 + delta ≤ 0x7fffffff) →
    ∀ entry ∈ entries, t.sending.sendWindow entry.2 = s.sending.sendWindow entry.2 + delta

theorem shifted_shiftWindows (delta : Int) {entries : List (Nat × Nat)} (distinct : (entries.map Prod.snd).Nodup) :
    Shifted s delta entries (s.shiftWindows delta entries).1 := by
  induction entries generalizing s with
  | nil => exact ⟨rfl, rfl, rfl, fun _ => .inl rfl, by simp⟩
  | cons entry rest ih =>
    obtain ⟨key, stream⟩ := entry
    obtain ⟨absent, distinct⟩ := nodup_cons.mp distinct
    rw [shiftWindows]
    split
    · rename_i outside
      refine ⟨rfl, rfl, rfl, fun _ => .inl rfl, ?_⟩
      intro inside
      have first : 0 ≤ (s.object stream).sendWindow + delta ∧ (s.object stream).sendWindow + delta ≤ 0x7fffffff :=
        inside _ mem_cons_self
      omega
    · rename_i inside
      obtain ⟨next, modified⟩ : ∃ next, next =
          s.modify stream ({ · with sendWindow := (s.object stream).sendWindow + delta }) := ⟨_, rfl⟩
      have moved : next.sending = { s.sending with
          sendWindow := update s.sending.sendWindow stream (s.sending.sendWindow stream + delta) } :=
        modified ▸ s.sending_setWindow stream _
      have own : next.sending.sendWindow stream = s.sending.sendWindow stream + delta := by simp [moved]
      have others : ∀ h, h ≠ stream → next.sending.sendWindow h = s.sending.sendWindow h := by
        intro h different
        simp [moved, different]
      rw [← modified]
      obtain ⟨sending, streams, heading, window, whole⟩ := ih next distinct
      rw [moved] at sending
      have range : 0 ≤ s.sending.sendWindow stream + delta ∧ s.sending.sendWindow stream + delta ≤ 0x7fffffff := by
        change ¬ (s.sending.sendWindow stream + delta > 0x7fffffff ∨ s.sending.sendWindow stream + delta < 0) at inside
        omega
      have once : ∀ entry ∈ rest, entry.2 ≠ stream :=
        fun entry member same => absent (mem_map.mpr ⟨entry, member, same⟩)
      have first : (next.shiftWindows delta rest).1.sending.sendWindow stream =
          s.sending.sendWindow stream + delta := by
        rcases window stream with kept | ⟨⟨entry, member, same⟩, _⟩
        · exact kept.trans own
        · exact absurd same (once entry member)
      refine ⟨sending, modified ▸ streams, modified ▸ heading, ?_, ?_⟩
      · intro h
        by_cases same : h = stream
        · subst same
          exact .inr ⟨⟨_, mem_cons_self, rfl⟩, first, first ▸ range⟩
        · rw [← others h same]
          rcases window h with kept | ⟨⟨entry, member, at_⟩, shifted⟩
          · exact .inl kept
          · exact .inr ⟨⟨entry, mem_cons_of_mem _ member, at_⟩, shifted⟩
      · intro fits entry member
        rcases mem_cons.mp member with rfl | later
        · exact first
        · rw [← others entry.2 (once entry later)]
          refine whole ?_ entry later
          intro e inRest
          rw [others e.2 (once e inRest)]
          exact fits e (mem_cons_of_mem _ inRest)

theorem handleWindowUpdate_cases (f : Frame) :
    Calm s (s.handleWindowUpdate f) ∨
      (f.payload.length = 4 ∧ f.streamId = 0 ∧
        s.connectionSendWindow + (readUint32 f.payload % 2 ^ 31 : Nat) ≤ 0x7fffffff ∧
        s.handleWindowUpdate f = ({ s with
          connectionSendWindow := s.connectionSendWindow + (readUint32 f.payload % 2 ^ 31 : Nat) }, [])) ∨
      ∃ stream, f.payload.length = 4 ∧ s.find f.streamId = some stream ∧
        (s.object stream).sendWindow + (readUint32 f.payload % 2 ^ 31 : Nat) ≤ 0x7fffffff ∧
        s.handleWindowUpdate f = (s.modify stream
          ({ · with sendWindow := (s.object stream).sendWindow + (readUint32 f.payload % 2 ^ 31 : Nat) }), []) := by
  unfold handleWindowUpdate
  split
  · exact .inl (s.calm_actions _ (by simp))
  rename_i length
  dsimp only
  split
  · split
    · exact .inl (s.calm_actions _ (by simp))
    split <;> exact .inl (s.calm_actions _ (by simp [sendFrame]))
  split
  · rename_i connection
    split
    · exact .inl (s.calm_actions _ (by simp))
    · rename_i fits
      exact .inr (.inl ⟨not_not.mp length, connection, not_lt.mp fits, rfl⟩)
  split
  · exact .inl (s.calm_actions _ (by simp))
  rename_i stream found
  split
  · exact .inl (s.calm_actions _ (by simp))
  · rename_i fits
    exact .inr (.inr ⟨stream, not_not.mp length, found, not_lt.mp fits, rfl⟩)

/-- What is put on the connection for a writing, and what is waited for then. -/
inductive Handed : Writing → Sent → Writing → Prop
  | control (f : ControlFrame) : Handed (.control f) (.control f) (.control f)
  | headers {stream headers body} (flags : UInt8) (first rest : Bytes) :
      Handed (.headers stream headers body) (.header ⟨.headers, flags, wireId (s.object stream).id, first⟩)
        (.block stream rest body)
  | block {stream more body} (flags : UInt8) (chunk rest : Bytes) :
      Handed (.block stream more body) (.header ⟨.continuation, flags, wireId (s.object stream).id, chunk⟩)
        (.block stream rest body)
  | piece {stream chunk n last rest} (flags : UInt8) :
      Handed (.piece stream chunk n last rest) (.data stream flags (chunk.take n)) (.piece stream chunk n last rest)
  | bodyEnd (stream : Nat) (flags : UInt8) :
      Handed (.bodyEnd stream) (.data stream flags ⟨[], 0, rfl⟩) (.bodyEnd stream)

inductive SendEffect : Action → Http2Session → List Action → Prop
  | plain {a t more} : a.free = true → Still s t → (∀ b ∈ more, b.plain = true) → SendEffect a t more
  | received {f t more} : Still { s with received := s.received ++ [f] } t → (∀ b ∈ more, b.plain = true) →
      SendEffect (.receive f) t more
  | cut {a t more} : a.free = true → t.sending = { s.sending with connected := false } → t.streams.Sublist s.streams →
      (∀ b ∈ more, b.plain = true) → SendEffect a t more
  | granted {f t} : f.type = .windowUpdate → f.payload.length = 4 → f.streamId = 0 →
      t.sending = { s.sending with
        received := s.received ++ [f]
        connectionSendWindow := s.connectionSendWindow + (readUint32 f.payload % 2 ^ 31 : Nat) } →
      t.streams = s.streams → SendEffect (.receive f) t []
  | widened {f stream t} : f.type = .windowUpdate → f.payload.length = 4 → s.find f.streamId = some stream →
      s.sending.sendWindow stream + (readUint32 f.payload % 2 ^ 31 : Nat) ≤ 0x7fffffff →
      t.sending = { s.sending with
        received := s.received ++ [f]
        sendWindow := update s.sending.sendWindow stream
          (s.sending.sendWindow stream + (readUint32 f.payload % 2 ^ 31 : Nat)) } →
      t.streams = s.streams → SendEffect (.receive f) t []
  | initial {rest t more} {value : Nat} : value ≤ 0x7fffffff →
      Shifted { s with remoteInitialWindow := value } (value - s.remoteInitialWindow) s.streams t →
      (∀ b ∈ more, b.plain = true) → SendEffect (.settings ((settingsInitialWindowSize, value) :: rest)) t more
  | created {headers body t} :
      t.sending = { s.sending with
        id := update s.sending.id s.created s.nextStreamId
        sendWindow := update s.sending.sendWindow s.created s.remoteInitialWindow
        created := s.created + 1
        nextStreamId := (s.nextStreamId + 2) % 2 ^ 32 } →
      t.streams = insertStream s.nextStreamId s.created s.streams →
      SendEffect (.createStream headers body) t [.locked (.headers s.created headers body)]
  | upload (stream : Nat) {a more} : a.uploads stream = true → a.free = true →
      (∀ b ∈ more, b.plain = true ∨ b.uploads stream = true) → SendEffect a s more
  | picked {stream chunk last rest} {n : Nat} : (n : Int) ≤ s.sending.sendWindow stream →
      (n : Int) ≤ s.connectionSendWindow → n ≤ chunk.size →
      SendEffect (.sendChunk stream chunk last rest) s [.locked (.piece stream chunk n last rest)]
  | handed {w sent w' t} : s.connected = true → Handed s w sent w' →
      t.sending = { s.sending with wire := s.wire ++ [sent] } → t.streams = s.streams →
      SendEffect (.write w) t [.flush w']
  | refused {w t more} : Still s t → (∀ b ∈ more, b.plain = true) → SendEffect (.write w) t (.unlock :: more)
  | flushed {w} : (∀ h c n l r, w ≠ .piece h c n l r) → SendEffect (.flush w) s [.unlock]
  | opened {stream body} :
      SendEffect (.flush (.block stream [] (some body))) s [.unlock, .readBody stream body]
  | continued {stream rest body} : SendEffect (.flush (.block stream rest body)) s [.write (.block stream rest body)]
  | sent {stream chunk n last rest} :
      SendEffect (.flush (.piece stream chunk n last rest)) s
        [.unlock, .deduct stream n, .sendChunk stream (chunk.drop n) last rest]
  | broken {w t more} : t.sending = { s.sending with connected := false } → t.streams = s.streams →
      (∀ b ∈ more, b.plain = true) → SendEffect (.flush w) t (.unlock :: more)
  | deducted {stream t} {n : Nat} :
      t.sending = { s.sending with
        sendWindow := update s.sending.sendWindow stream (s.sending.sendWindow stream - n)
        connectionSendWindow := s.connectionSendWindow - n } →
      t.streams = s.streams → SendEffect (.deduct stream n) t []

theorem plain_unsent (w : Writing) : ∀ b ∈ s.unsent w, b.plain = true := by
  cases w <;> simp [unsent, giveUp]

variable {s}

theorem effect_of_calm {a : Action} (outer : a.free = true) (calm : Calm s result) : SendEffect s a result.1 result.2 :=
  .plain outer calm.quiet.toStill calm.plain

theorem effect_hand {w w' : Writing} {t : Http2Session} {sent : Sent} {size : Nat} (same : t.sending = s.sending)
    (streams : t.streams = s.streams) (connected : t.connected = s.connected) (handed : Handed s w sent w') :
    SendEffect s (.write w) (t.hand sent size w').1 (t.hand sent size w').2 := by
  unfold hand
  split
  · exact .refused ⟨same, streams ▸ .refl _⟩ (t.plain_unsent w')
  · rename_i takes
    have up : t.connected = true := by simpa using (not_or.mp takes).2
    have wire : t.wire = s.wire := congrArg SendView.wire same
    refine .handed (connected ▸ up) handed ?_ streams
    change { t.sending with wire := t.wire ++ [sent] } = { s.sending with wire := s.wire ++ [sent] }
    rw [same, wire]

theorem effect_write (w : Writing) : SendEffect s (.write w) (s.write w).1 (s.write w).2 := by
  cases w with
  | control f => exact effect_hand rfl rfl rfl (.control f)
  | headers stream headers body => exact effect_hand rfl rfl rfl (.headers ..)
  | block stream rest body => exact effect_hand rfl rfl rfl (.block ..)
  | piece stream chunk n last rest => exact effect_hand rfl rfl rfl (.piece _)
  | bodyEnd stream => exact effect_hand rfl rfl rfl (.bodyEnd ..)

theorem effect_flush (ok : Bool) (w : Writing) : SendEffect s (.flush w) (s.flush ok w).1 (s.flush ok w).2 := by
  unfold flush
  split
  · match w with
    | .control _ | .headers .. | .bodyEnd _ | .block _ [] none => exact .flushed (by simp)
    | .block stream [] (some body) => exact .opened
    | .block stream (_ :: _) body => exact .continued
    | .piece .. => exact .sent
  · exact .broken rfl rfl (s.plain_unsent w)

theorem effect_sendChunk {stream : Nat} {chunk : Chunk} {last ok : Bool} {rest : List Chunk}
    (sent : s.sendChunk stream chunk last rest ok = some more) :
    SendEffect s (.sendChunk stream chunk last rest) s more := by
  unfold sendChunk at sent
  dsimp only at sent
  split at sent
  · cases sent
    refine .upload stream (by simp [Action.uploads]) rfl ?_
    split <;> simp [Action.uploads]
  split at sent
  · split at sent
    · cases sent
      exact .plain rfl (Quiet.refl s).toStill (by simp [giveUp])
    · simp at sent
  · rename_i open_
    cases sent
    have window : s.sending.sendWindow stream = (s.object stream).sendWindow := rfl
    exact .picked (by omega) (by omega) (by omega)

theorem effect_receive (f : Frame) :
    SendEffect s (.receive f) ({ s with received := s.received ++ [f] }.handleFrame f).1
      ({ s with received := s.received ++ [f] }.handleFrame f).2 := by
  have calm : ∀ {result : Http2Session × List Action}, Calm { s with received := s.received ++ [f] } result →
      SendEffect s (.receive f) result.1 result.2 := fun calm => .received calm.quiet.toStill calm.plain
  unfold handleFrame
  split
  · exact calm (calm_handleSettings _ f)
  · rename_i type
    rcases handleWindowUpdate_cases { s with received := s.received ++ [f] } f with
      quiet | ⟨length, connection, fits, equal⟩ | ⟨stream, length, found, fits, equal⟩
    · exact calm quiet
    · rw [equal]
      exact .granted type length connection rfl rfl
    · rw [equal]
      exact .widened type length found fits (sending_setWindow { s with received := s.received ++ [f] } stream _) rfl
  · exact calm (calm_handlePing _ f)
  · exact calm (calm_handleGoAway _ f)
  · exact calm (calm_handleRstStream _ f)
  · exact calm (calm_handlePushPromise _ f)
  · exact .received (still_handleHeaders _ f).1 (still_handleHeaders _ f).2
  · exact .received (still_handleContinuation _ f).1 (still_handleContinuation _ f).2
  · exact calm (calm_handleData _ f)
  · exact calm (calm_actions _ [] (by simp))
  · exact calm (calm_actions _ [] (by simp))

theorem effect_applyInitialWindowSize (distinct : (s.streams.map Prod.snd).Nodup) (value : Nat)
    (rest : List (Nat × Nat)) (plain : ∀ b ∈ more, b.plain = true) :
    SendEffect s (.settings ((settingsInitialWindowSize, value) :: rest)) (s.applyInitialWindowSize value).1 more := by
  unfold applyInitialWindowSize
  split
  · exact .plain rfl (Quiet.refl s).toStill plain
  · rename_i range
    exact .initial (not_lt.mp range) (shifted_shiftWindows _ _ distinct) plain

theorem effect_applySetting (distinct : (s.streams.map Prod.snd).Nodup) (id value : Nat) (rest : List (Nat × Nat)) :
    SendEffect s (.settings ((id, value) :: rest)) (s.applySetting id value rest).1
      (s.applySetting id value rest).2 := by
  unfold applySetting
  split
  · rename_i window
    subst window
    refine effect_applyInitialWindowSize distinct value rest ?_
    dsimp only
    split <;> simp
  split_ifs <;> exact .plain rfl ⟨rfl, .refl _⟩ (by simp)

theorem effect_createStream (headers : List HpackHeader) (body : Option Body) :
    SendEffect s (.createStream headers body) (s.createStream headers body).1 (s.createStream headers body).2 := by
  unfold createStream
  split
  · exact .plain rfl (Quiet.refl s).toStill (by simp)
  · refine .created ?_ rfl
    have ids : (fun h => (update s.object s.created
        { id := s.nextStreamId, sendWindow := s.remoteInitialWindow, reserved := true } h).id) =
        update s.sending.id s.created s.nextStreamId := by
      funext h
      by_cases same : h = s.created
      · simp [same]
      · simp [same, sending]
    have windows : (fun h => (update s.object s.created
        { id := s.nextStreamId, sendWindow := s.remoteInitialWindow, reserved := true } h).sendWindow) =
        update s.sending.sendWindow s.created s.remoteInitialWindow := by
      funext h
      by_cases same : h = s.created
      · simp [same]
      · simp [same, sending]
    simp only [sending, ids, windows]

theorem effect_readBody (stream : Nat) (body : Body) :
    SendEffect s (.readBody stream body) s (s.readBody stream body) := by
  refine .upload stream (by simp [Action.uploads]) rfl ?_
  unfold readBody
  split
  · simp [giveUp]
  · simp [Action.uploads]
  · simp [Action.uploads]
  · split <;> simp [Action.uploads]

theorem SendEffect.of_eq {a : Action} {t : Http2Session}
    (effect : SendEffect s a result.1 result.2) (equal : result = (t, more)) : SendEffect s a t more := by
  rw [equal] at effect
  exact effect

theorem effect_perform {a : Action} {ok : Bool} {t : Http2Session}
    (distinct : (s.streams.map Prod.snd).Nodup) (unlocked : ∀ w, a ≠ .locked w) (kept : a ≠ .unlock)
    (performed : s.perform a ok = some (t, more)) : SendEffect s a t more := by
  have same : Still s s := (Quiet.refl s).toStill
  cases a with
  | locked w => exact absurd rfl (unlocked w)
  | unlock => exact absurd rfl kept
  | write w => exact .of_eq (effect_write w) (some.inj performed)
  | flush w => exact .of_eq (effect_flush ok w) (some.inj performed)
  | exchange headers body =>
    cases performed
    refine .plain rfl same ?_
    split <;> simp
  | waitPeerSettings headers body =>
    unfold perform at performed
    split_ifs at performed <;> cases performed <;> exact .plain rfl same (by simp)
  | createStream headers body =>
    unfold perform at performed
    dsimp only at performed
    split at performed
    · split_ifs at performed
      cases performed
      exact .plain rfl same (by simp)
    · exact .of_eq (effect_createStream headers body) (some.inj performed)
  | readBody stream body =>
    cases performed
    exact effect_readBody stream body
  | sendChunk stream chunk last rest =>
    obtain ⟨actions, sent, equal⟩ := map_eq_some_iff.mp performed
    cases equal
    exact effect_sendChunk sent
  | deduct stream n =>
    cases performed
    have moved := s.sending_modify stream (fun o => { o with sendWindow := o.sendWindow - n }) (fun _ => rfl)
    refine .deducted ?_ rfl
    change { (s.modify stream fun o => { o with sendWindow := o.sendWindow - n }).sending with
      connectionSendWindow := s.connectionSendWindow - n } = _
    rw [moved]
    rfl
  | releaseStream streamId sendRst code =>
    unfold perform at performed
    dsimp only at performed
    split at performed
    · cases performed
      exact .plain rfl same (by simp)
    · cases performed
      refine .plain rfl same ?_
      split <;> simp [sendFrame]
  | released stream streamId sendRst code =>
    cases performed
    exact .plain rfl (s.quiet_released ..).toStill (by simp)
  | finishStreamError stream code =>
    cases performed
    exact .plain rfl (s.quiet_finishStreamError ..).toStill (by simp)
  | failConnection code =>
    refine .of_eq ?_ (some.inj performed)
    unfold failConnection
    split
    · exact .plain rfl same (by simp)
    · exact .plain rfl ⟨rfl, .refl _⟩ (by simp [sendFrame])
  | abortConnection code =>
    cases performed
    have quiet := s.quiet_finishStreamsWhere code fun _ => true
    refine .cut rfl ?_ quiet.streams (by simp)
    change { (s.finishStreamsWhere code fun _ => true).sending with connected := false } = _
    rw [quiet.sending]
  | receive f =>
    unfold perform at performed
    dsimp only at performed
    split at performed
    · cases performed
      exact .plain rfl same (by simp)
    · exact .of_eq (effect_receive f) (some.inj performed)
  | settings entries =>
    cases entries with
    | nil =>
      cases performed
      exact .plain rfl same (by simp)
    | cons entry rest =>
      exact .of_eq (effect_applySetting distinct entry.1 entry.2 rest) (some.inj performed)
  | settingsSeen =>
    cases performed
    exact .plain rfl ⟨rfl, .refl _⟩ (by simp [sendFrame])
  | updateStream stream => exact .of_eq (effect_of_calm rfl (s.calm_updateStream stream)) (some.inj performed)
  | endData stream endStream =>
    cases performed
    refine .plain rfl ?_ (by simp)
    split
    · exact (s.quiet_endStream stream).toStill
    · exact same
  | readerEnd =>
    cases performed
    have quiet := quiet_finishStreamsWhere { s with valid := false } errorCancel fun _ => true
    exact .plain rfl ⟨quiet.sending, quiet.streams⟩ (by simp)
  | close =>
    cases performed
    refine .plain rfl ⟨rfl, .refl _⟩ ?_
    split <;> simp [sendFrame]

end Http2Session

theorem mem_insertStream {streamId stream : Nat} {entry : Nat × Nat}
    (member : entry ∈ insertStream streamId stream streams) : entry = (streamId, stream) ∨ entry ∈ streams := by
  induction streams with
  | nil => exact .inl (mem_singleton.mp member)
  | cons first rest ih =>
    unfold insertStream at member
    split at member
    · exact mem_cons.mp member
    split at member
    · rcases mem_cons.mp member with new | old
      · exact .inl new
      · exact .inr (mem_cons_of_mem _ old)
    · rcases mem_cons.mp member with same | later
      · exact Or.inr (same ▸ mem_cons_self)
      · exact (ih later).imp_right (mem_cons_of_mem _)

theorem sorted_insertStream (streamId stream : Nat) (sorted : streams.Pairwise fun a b => a.1 < b.1) :
    (insertStream streamId stream streams).Pairwise fun a b => a.1 < b.1 := by
  induction streams with
  | nil => exact pairwise_singleton _ _
  | cons first rest ih =>
    obtain ⟨before, sorted⟩ := pairwise_cons.mp sorted
    unfold insertStream
    split
    · rename_i less
      refine pairwise_cons.mpr ⟨?_, pairwise_cons.mpr ⟨before, sorted⟩⟩
      intro entry member
      rcases mem_cons.mp member with rfl | later
      · exact less
      · exact less.trans (before entry later)
    split
    · rename_i same
      exact pairwise_cons.mpr ⟨fun entry later => same ▸ before entry later, sorted⟩
    · rename_i notLess different
      refine pairwise_cons.mpr ⟨?_, ih sorted⟩
      intro entry member
      rcases mem_insertStream member with rfl | later
      · exact lt_of_le_of_ne (not_lt.mp notLess) (Ne.symm different)
      · exact before entry later

/-- The map of the streams is in the order of its keys, which are the streams' own. -/
structure Keyed (s : Http2Session) : Prop where
  sorted : s.streams.Pairwise fun a b => a.1 < b.1
  id : ∀ entry ∈ s.streams, s.sending.id entry.2 = entry.1
  below : ∀ entry ∈ s.streams, entry.2 < s.created

namespace Keyed

variable {s t : Http2Session}

theorem distinct (keyed : Keyed s) : (s.streams.map Prod.snd).Nodup := by
  refine pairwise_map.mpr (keyed.sorted.imp_of_mem ?_)
  intro a b first second less same
  have keys : a.1 = b.1 := by rw [← keyed.id a first, ← keyed.id b second, same]
  omega

theorem of_find (keyed : Keyed s) {streamId stream : Nat} (found : s.find streamId = some stream) :
    s.sending.id stream = streamId ∧ stream < s.created := by
  obtain ⟨before, after, whole, _⟩ := lookup_eq_some_iff.mp found
  have member : (streamId, stream) ∈ s.streams := by simp [whole]
  exact ⟨keyed.id _ member, keyed.below _ member⟩

theorem of_sublist (keyed : Keyed s) (streams : t.streams.Sublist s.streams) (id : t.sending.id = s.sending.id)
    (created : t.sending.created = s.sending.created) : Keyed t where
  sorted := keyed.sorted.sublist streams
  id entry member := id ▸ keyed.id entry (streams.subset member)
  below entry member := lt_of_lt_of_eq (keyed.below entry (streams.subset member)) created.symm

theorem of_created (keyed : Keyed s) (id : t.sending.id = update s.sending.id s.created s.nextStreamId)
    (created : t.sending.created = s.created + 1)
    (streams : t.streams = insertStream s.nextStreamId s.created s.streams) : Keyed t where
  sorted := streams ▸ sorted_insertStream _ _ keyed.sorted
  id entry member := by
    rw [streams] at member
    rcases mem_insertStream member with rfl | old
    · simp [id]
    · have below := keyed.below entry old
      rw [id, update_of_ne (by omega), keyed.id entry old]
  below entry member := by
    rw [streams] at member
    have grown : t.created = s.created + 1 := created
    rcases mem_insertStream member with rfl | old
    · omega
    · have below := keyed.below entry old
      omega

theorem effect {a : Action} {more : List Action} (keyed : Keyed s) (effect : s.SendEffect a t more) : Keyed t := by
  cases effect with
  | plain _ still _ => exact keyed.of_sublist still.streams (still.sending ▸ rfl) (still.sending ▸ rfl)
  | received still _ => exact keyed.of_sublist still.streams (still.sending ▸ rfl) (still.sending ▸ rfl)
  | cut _ sending streams _ => exact keyed.of_sublist streams (sending ▸ rfl) (sending ▸ rfl)
  | granted _ _ _ sending streams => exact keyed.of_sublist (streams ▸ .refl _) (sending ▸ rfl) (sending ▸ rfl)
  | widened _ _ _ _ sending streams => exact keyed.of_sublist (streams ▸ .refl _) (sending ▸ rfl) (sending ▸ rfl)
  | initial _ shifted _ =>
    exact keyed.of_sublist (shifted.streams ▸ .refl _) (shifted.sending ▸ rfl) (shifted.sending ▸ rfl)
  | created sending streams => exact keyed.of_created (sending ▸ rfl) (sending ▸ rfl) streams
  | upload | picked | flushed | opened | continued | sent => exact keyed
  | handed _ _ sending streams => exact keyed.of_sublist (streams ▸ .refl _) (sending ▸ rfl) (sending ▸ rfl)
  | refused still _ => exact keyed.of_sublist still.streams (still.sending ▸ rfl) (still.sending ▸ rfl)
  | broken sending streams _ => exact keyed.of_sublist (streams ▸ .refl _) (sending ▸ rfl) (sending ▸ rfl)
  | deducted sending streams => exact keyed.of_sublist (streams ▸ .refl _) (sending ▸ rfl) (sending ▸ rfl)

end Keyed

/-- The increments that a peer has granted, on a stream or with 0 on the connection. -/
def granted (streamId : Nat) (received : List Frame) : Nat :=
  ((received.filter fun f => f.type = .windowUpdate ∧ f.streamId = streamId ∧ f.payload.length = 4).map
    fun f => readUint32 f.payload % 2 ^ 31).sum

end Qtng.Http2
