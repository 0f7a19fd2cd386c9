import Qtng.Http.StreamOrder

namespace Qtng

open BigEndian List Option

namespace HpackTable

def Settled (table : HpackTable) : Prop :=
  table.dynamicTable = [] ∨ table.dynamicTableSize ≤ table.maxDynamicTableSize

theorem settled_evictLoop (rounds : Nat) (table : HpackTable) (enough : table.dynamicTable.length ≤ rounds) :
    (evictLoop rounds table).Settled := by
  induction rounds generalizing table with
  | zero => exact Or.inl (eq_nil_of_length_eq_zero (Nat.le_zero.mp enough))
  | succ rounds ih =>
    unfold evictLoop
    split
    · split
      · rename_i none
        exact Or.inl (getLast?_eq_none_iff.mp none)
      · refine ih _ ?_
        rw [length_dropLast]
        omega
    · rename_i fits
      exact Or.inr (Nat.le_of_not_lt fits)

theorem settled_evict (table : HpackTable) : table.evict.Settled := settled_evictLoop _ table le_rfl

theorem evict_of_settled {table : HpackTable} (settled : table.Settled) : table.evict = table := by
  unfold evict
  cases rounds : table.dynamicTable.length with
  | zero => rfl
  | succ n =>
    have fits : table.dynamicTableSize ≤ table.maxDynamicTableSize := by
      rcases settled with empty | fits
      · simp [empty] at rounds
      · exact fits
    unfold evictLoop
    rw [if_neg (Nat.not_lt.mpr fits)]

theorem settled_addToDynamicTable (table : HpackTable) (header : HpackHeader) :
    (table.addToDynamicTable header).Settled := by
  unfold addToDynamicTable
  dsimp only
  split
  · exact Or.inl rfl
  · exact settled_evict _

end HpackTable

namespace HpackDecoder

theorem settled_decodeLoop (rounds : Nat) (decoder : HpackDecoder) (headers : List HpackHeader) (data : Bytes)
    (settled : decoder.table.Settled) : (decodeLoop rounds decoder headers data).1.table.Settled := by
  induction rounds generalizing decoder headers data with
  | zero => exact settled
  | succ rounds ih =>
    unfold decodeLoop
    split
    · exact settled
    split
    · split
      · exact settled
      · exact ih _ _ _ settled
    split
    · split
      · exact settled
      · exact ih _ _ _ (decoder.table.settled_addToDynamicTable _)
    split
    · split
      · exact settled
      · exact ih _ _ _ (HpackTable.settled_evict _)
    split
    · exact settled
    · exact ih _ _ _ settled

/-- A decoder that is given one block after the other, and what it makes of them. -/
def decodeInOrder (blocks : List Bytes) : HpackDecoder × List (Bytes × List HpackHeader × Bool) :=
  blocks.foldl (fun (decoder, log) block => ((decoder.decode block).1, log ++ [(block, (decoder.decode block).2)]))
    ({}, [])

theorem decodeInOrder_append (blocks : List Bytes) (block : Bytes) :
    decodeInOrder (blocks ++ [block]) =
      (((decodeInOrder blocks).1.decode block).1,
        (decodeInOrder blocks).2 ++ [(block, ((decodeInOrder blocks).1.decode block).2)]) := by
  simp [decodeInOrder]

theorem settled_decodeInOrder (blocks : List Bytes) : (decodeInOrder blocks).1.table.Settled := by
  induction blocks using reverseRecOn with
  | nil => exact Or.inl rfl
  | append_singleton blocks block ih =>
    rw [decodeInOrder_append]
    exact settled_decodeLoop _ _ _ _ ih

theorem blocks_decodeInOrder (blocks : List Bytes) : (decodeInOrder blocks).2.map Prod.fst = blocks := by
  induction blocks using reverseRecOn with
  | nil => rfl
  | append_singleton blocks block ih => simp [decodeInOrder_append, ih]

end HpackDecoder

namespace Http2

open Transition

/-- The header blocks in a sequence of frames: the one that goes on, with its stream, and
the complete ones. -/
structure HeaderBlocks where
  partly : Option (Nat × Bytes) := none
  complete : List Bytes := []
deriving DecidableEq

/-- The part of a PUSH_PROMISE frame that belongs to the header block. -/
def promisePayload (f : Frame) : Option Bytes :=
  (Http2Session.dataPayload f).bind fun payload => if payload.length < 4 then none else some (payload.drop 4)

namespace HeaderBlocks

def extend (blocks : HeaderBlocks) (f : Frame) (bytes : Bytes) : HeaderBlocks :=
  if f.has flagEndHeaders then { partly := none, complete := blocks.complete ++ [bytes] }
  else { blocks with partly := some (f.streamId, bytes) }

/-- The next frame of a server that keeps to the protocol. Nothing comes between the
frames of a header block. -/
def add (blocks : HeaderBlocks) (f : Frame) : Option HeaderBlocks :=
  match blocks.partly, f.type with
  | none, .headers => if f.streamId = 0 then none else (headerPayload f).map (blocks.extend f)
  | none, .pushPromise => if f.streamId = 0 then none else (promisePayload f).map (blocks.extend f)
  | none, .continuation => none
  | none, _ => some blocks
  | some (stream, bytes), .continuation =>
    if f.streamId = stream then some (blocks.extend f (bytes ++ f.payload)) else none
  | some _, _ => none

end HeaderBlocks

/-- The header blocks that a server has sent; nothing if its frames are not in a legal
order. -/
def headerBlocks (frames : List Frame) : Option HeaderBlocks := frames.foldlM HeaderBlocks.add {}

theorem headerBlocks_append (frames : List Frame) (f : Frame) :
    headerBlocks (frames ++ [f]) = (headerBlocks frames).bind (·.add f) := by
  simp only [headerBlocks, foldlM_append, foldlM_cons, foldlM_nil, bind_pure]
  rfl

/-- A decoder that follows the server reads the header lists from the blocks. -/
def Conveys (lists : List (List HpackHeader)) (blocks : List Bytes) : Prop :=
  (HpackDecoder.decodeInOrder blocks).2.map Prod.snd = lists.map fun headers => (headers, true)

/-- The session has decoded every complete header block once and in order, its decoder
depends on nothing else, and what it has read is what the server has encoded. -/
structure InStep (s : Http2Session) (blocks : List Bytes) : Prop where
  once : s.decodes.map Prod.fst = blocks
  limit : s.decoder = (HpackDecoder.decodeInOrder blocks).1
  yields : ∀ lists, Conveys lists blocks → s.decodes.map Prod.snd = lists.map fun headers => (headers, true)

namespace Http2Session

variable {t : Http2Session}

/-- Whether the session looks into the header block that a frame completes. -/
def decodable (s : Http2Session) (f : Frame) : Bool :=
  match f.type with
  | .pushPromise => false
  | .headers | .continuation =>
    !f.has flagEndHeaders || (s.find f.streamId).any fun stream => !(s.object stream).endStream
  | _ => true

/-- The session's part in the header blocks of the frames so far. -/
structure Synced (v : HeaderView) (blocks : HeaderBlocks) : Prop where
  idle : blocks.partly = none → v.headerBlockStream = 0
  partly : ∀ stream bytes, blocks.partly = some (stream, bytes) →
    stream ≠ 0 ∧ v.headerBlockStream = stream ∧ v.headerBlockBuffer = bytes
  complete : (v.decoder, v.decodes) = HpackDecoder.decodeInOrder blocks.complete

theorem or_and_flag (a b flag : UInt8) : (a ||| b) &&& flag = (a &&& flag) ||| (b &&& flag) := by
  apply UInt8.toBitVec_inj.mp
  rw [UInt8.toBitVec_and, UInt8.toBitVec_or, BitVec.and_or_distrib_right]
  rfl

theorem has_endHeaders_continued (before flags : UInt8) (endStream : Bool) :
    ((if endStream then (before &&& ~~~ flagEndHeaders ||| flags &&& flagEndHeaders) ||| flagEndStream
      else before &&& ~~~ flagEndHeaders ||| flags &&& flagEndHeaders) &&& flagEndHeaders ≠ 0) ↔
      flags &&& flagEndHeaders ≠ 0 := by
  have cleared : (before &&& ~~~ flagEndHeaders ||| flags &&& flagEndHeaders) &&& flagEndHeaders =
      flags &&& flagEndHeaders := by
    have apart : ~~~ flagEndHeaders &&& flagEndHeaders = 0 := by decide
    rw [or_and_flag, UInt8.and_assoc, UInt8.and_assoc, apart, UInt8.and_self, UInt8.and_zero, UInt8.zero_or]
  split
  · rw [or_and_flag, cleared]
    have apart : flagEndStream &&& flagEndHeaders = 0 := by decide
    rw [apart, UInt8.or_zero]
  · rw [cleared]

theorem heading_headersComplete (s : Http2Session) {streamId stream : Nat} (block : Bytes) (flags : UInt8)
    (found : s.find streamId = some stream) (open_ : (s.object stream).endStream = false) :
    (s.headersComplete streamId block flags).1.heading =
      { s.heading with
        headerBlockStream := 0, headerBlockBuffer := [], decoder := (s.decoder.decode block).1
        decodes := s.decodes ++ [(block, (s.decoder.decode block).2)] } := by
  have same : ({ s with headerBlockStream := 0, headerBlockBuffer := [] } : Http2Session).find streamId = some stream :=
    found
  unfold headersComplete
  simp only [same, open_, Bool.false_eq_true, if_false]
  split
  · rfl
  have stored := quiet_storeHeaders
    { s with
      headerBlockStream := 0, headerBlockBuffer := [], decoder := (s.decoder.decode block).1
      decodes := s.decodes ++ [(block, (s.decoder.decode block).2)] } stream (s.decoder.decode block).2.1
  split
  · exact (stored.trans (quiet_endStream _ stream)).heading
  · exact stored.heading

variable {s : Http2Session} {f : Frame} {blocks after : HeaderBlocks}

theorem Synced.extend (sync : Synced s.heading blocks) {bytes : Bytes} (numbered : f.streamId ≠ 0)
    (open_ : f.has flagEndHeaders = false → t.heading =
      { s.heading with headerBlockStream := f.streamId, headerBlockBuffer := bytes })
    (closed : f.has flagEndHeaders = true → t.heading =
      { s.heading with
        headerBlockStream := 0, headerBlockBuffer := [], decoder := (s.decoder.decode bytes).1
        decodes := s.decodes ++ [(bytes, (s.decoder.decode bytes).2)] }) :
    Synced t.heading (blocks.extend f bytes) := by
  unfold HeaderBlocks.extend
  have known := sync.complete
  split
  · rename_i ends
    rw [closed ends]
    refine ⟨fun _ => rfl, by simp, ?_⟩
    rw [HpackDecoder.decodeInOrder_append, ← known]
    rfl
  · rename_i goesOn
    rw [open_ (by simpa using goesOn)]
    refine ⟨by simp, ?_, known⟩
    intro stream payload partly
    cases partly
    exact ⟨numbered, rfl, rfl⟩

theorem stream_of_decodable (decodable : s.decodable f = true) (block : f.type = .headers ∨ f.type = .continuation)
    (ends : f.has flagEndHeaders = true) :
    ∃ stream, s.find f.streamId = some stream ∧ (s.object stream).endStream = false := by
  have known : (s.find f.streamId).any (fun stream => !(s.object stream).endStream) = true := by
    rcases block with type | type <;> simpa [Http2Session.decodable, type, ends] using decodable
  cases found : s.find f.streamId with
  | none => simp [found] at known
  | some stream => exact ⟨stream, rfl, by simpa [found] using known⟩

theorem Synced.handleHeaders (sync : Synced s.heading blocks) (type : f.type = .headers)
    (decodable : s.decodable f = true)
    (added : blocks.add f = some after) : Synced (s.handleHeaders f).1.heading after := by
  unfold HeaderBlocks.add at added
  rw [type] at added
  cases fresh : blocks.partly with
  | some entry => simp [fresh] at added
  | none =>
    simp only [fresh] at added
    split at added
    · exact absurd added (by simp)
    rename_i numbered
    obtain ⟨payload, given, rfl⟩ := map_eq_some_iff.mp added
    have idle : s.headerBlockStream = 0 := sync.idle fresh
    unfold Http2Session.handleHeaders
    rw [if_neg (by simp [numbered, idle])]
    simp only [given]
    refine sync.extend numbered ?_ ?_
    · intro goesOn
      rw [if_neg (by simp [goesOn])]
      rfl
    · intro ends
      rw [if_pos ends]
      obtain ⟨stream, found, alive⟩ := stream_of_decodable decodable (Or.inl type) ends
      exact heading_headersComplete _ _ _ found alive

theorem Synced.handleContinuation (sync : Synced s.heading blocks) (type : f.type = .continuation)
    (decodable : s.decodable f = true) (added : blocks.add f = some after) :
    Synced (s.handleContinuation f).1.heading after := by
  unfold HeaderBlocks.add at added
  rw [type] at added
  cases started : blocks.partly with
  | none => simp [started] at added
  | some entry =>
    obtain ⟨stream, bytes⟩ := entry
    obtain ⟨numbered, sameStream, sameBuffer⟩ := sync.partly stream bytes started
    change s.headerBlockStream = stream at sameStream
    change s.headerBlockBuffer = bytes at sameBuffer
    simp only [started] at added
    split at added
    · rename_i same
      subst same
      cases added
      unfold Http2Session.handleContinuation
      rw [if_neg (by simp [numbered, sameStream])]
      simp only [sameBuffer, has_endHeaders_continued]
      refine sync.extend numbered ?_ ?_
      · intro goesOn
        rw [if_neg (by simpa [Frame.has] using goesOn), ← sameStream]
        rfl
      · intro ends
        rw [if_pos (by simpa [Frame.has] using ends)]
        obtain ⟨stream, found, alive⟩ := stream_of_decodable decodable (Or.inr type) ends
        exact heading_headersComplete _ _ _ found alive
    · cases added

theorem add_other (added : blocks.add f = some after) (decodable : s.decodable f = true)
    (notHeaders : f.type ≠ .headers)
    (notContinuation : f.type ≠ .continuation) : after = blocks := by
  unfold HeaderBlocks.add at added
  split at added
  · exact absurd ‹_› notHeaders
  · simp [Http2Session.decodable, ‹f.type = .pushPromise›] at decodable
  · exact absurd ‹_› notContinuation
  · exact (some.inj added).symm
  · exact absurd ‹_› notContinuation
  · cases added

theorem heading_handleWindowUpdate (s : Http2Session) (f : Frame) : (s.handleWindowUpdate f).1.heading = s.heading := by
  unfold Http2Session.handleWindowUpdate
  split
  · rfl
  dsimp only
  split
  · split
    · rfl
    · split <;> rfl
  split
  · split <;> rfl
  split
  · rfl
  · split <;> rfl

theorem Synced.handleFrame (sync : Synced s.heading blocks) (decodable : s.decodable f = true)
    (added : blocks.add f = some after) : Synced (s.handleFrame f).1.heading after := by
  have quiet : ∀ {result : Http2Session × List Action}, result.1.heading = s.heading → f.type ≠ .headers →
      f.type ≠ .continuation → Synced result.1.heading after := by
    intro result same notHeaders notContinuation
    rw [same, add_other added decodable notHeaders notContinuation]
    exact sync
  unfold Http2Session.handleFrame
  cases type : f.type with
  | headers => exact sync.handleHeaders type decodable added
  | continuation => exact sync.handleContinuation type decodable added
  | settings => exact quiet (s.calm_handleSettings f).quiet.heading (by simp [type]) (by simp [type])
  | ping => exact quiet (s.calm_handlePing f).quiet.heading (by simp [type]) (by simp [type])
  | goAway => exact quiet (s.calm_handleGoAway f).quiet.heading (by simp [type]) (by simp [type])
  | rstStream => exact quiet (s.calm_handleRstStream f).quiet.heading (by simp [type]) (by simp [type])
  | pushPromise => exact quiet (s.calm_handlePushPromise f).quiet.heading (by simp [type]) (by simp [type])
  | data => exact quiet (s.calm_handleData f).quiet.heading (by simp [type]) (by simp [type])
  | priority | other => exact @quiet (s, []) rfl (by simp [type]) (by simp [type])
  | windowUpdate => exact quiet (heading_handleWindowUpdate s f) (by simp [type]) (by simp [type])

theorem heading_write (s : Http2Session) (w : Writing) : (s.write w).1.heading = s.heading := by
  cases w <;> (unfold write hand; dsimp only; split <;> rfl)

theorem heading_perform {a : Action} {ok : Bool} {more : List Action} (notReceive : ∀ f, a ≠ .receive f)
    (notSetting : ∀ entry rest, a ≠ .settings (entry :: rest)) (performed : s.perform a ok = some (t, more)) :
    t.heading = s.heading := by
  have of_eq : ∀ {result : Http2Session × List Action}, result.1.heading = s.heading → some result = some (t, more) →
      t.heading = s.heading := by
    rintro result same equal
    cases equal
    exact same
  cases a with
  | receive f => exact absurd rfl (notReceive f)
  | settings entries =>
    cases entries with
    | nil => exact of_eq rfl performed
    | cons entry rest => exact absurd rfl (notSetting entry rest)
  | write w => exact of_eq (heading_write s w) performed
  | createStream headers body =>
    unfold perform at performed
    dsimp only at performed
    split at performed
    · split_ifs at performed
      exact of_eq rfl performed
    · refine of_eq ?_ performed
      unfold createStream
      split <;> rfl
  | waitPeerSettings headers body =>
    unfold perform at performed
    split_ifs at performed <;> exact of_eq rfl performed
  | sendChunk stream chunk last rest =>
    obtain ⟨actions, _, equal⟩ := map_eq_some_iff.mp performed
    cases equal
    rfl
  | releaseStream streamId sendRst code =>
    unfold perform at performed
    dsimp only at performed
    split at performed <;> exact of_eq rfl performed
  | released stream streamId sendRst code => exact of_eq (s.quiet_released ..).heading performed
  | finishStreamError stream code => exact of_eq (s.quiet_finishStreamError ..).heading performed
  | failConnection code =>
    refine of_eq ?_ performed
    unfold failConnection
    split <;> rfl
  | abortConnection code =>
    have quiet := s.quiet_finishStreamsWhere code fun _ => true
    cases performed
    exact quiet.heading
  | updateStream stream => exact of_eq (s.calm_updateStream stream).quiet.heading performed
  | endData stream endStream =>
    cases performed
    split
    · exact (s.quiet_endStream stream).heading
    · rfl
  | readerEnd =>
    cases performed
    exact (quiet_finishStreamsWhere { s with valid := false } errorCancel fun _ => true).heading
  | flush w =>
    refine of_eq ?_ performed
    unfold flush
    split <;> rfl
  | locked | unlock | exchange | readBody | deduct | settingsSeen | close => exact of_eq rfl performed

theorem setMaxDynamicTableSize_same {decoder : HpackDecoder} (settled : decoder.table.Settled) :
    decoder.setMaxDynamicTableSize decoder.table.maxDynamicTableSize = decoder :=
  congrArg HpackDecoder.mk (HpackTable.evict_of_settled settled)

theorem heading_shiftWindows (s : Http2Session) (delta : Int) (entries : List (Nat × Nat)) :
    (s.shiftWindows delta entries).1.heading = s.heading := by
  induction entries generalizing s with
  | nil => rfl
  | cons entry rest ih =>
    unfold shiftWindows
    dsimp only
    split
    · rfl
    · exact ih _

theorem heading_applySetting (s : Http2Session) (id value : Nat) (rest : List (Nat × Nat)) :
    (s.applySetting id value rest).1.heading =
      { s.heading with
        decoder := if id = settingsHeaderTableSize then s.decoder.setMaxDynamicTableSize value else s.decoder } := by
  by_cases window : id = settingsInitialWindowSize
  · have other : id ≠ settingsHeaderTableSize := window ▸ by decide
    have shifted : (s.applyInitialWindowSize value).1.heading = s.heading := by
      unfold applyInitialWindowSize
      split
      · rfl
      · exact heading_shiftWindows { s with remoteInitialWindow := value } _ s.streams
    unfold applySetting
    rw [if_pos window, if_neg other]
    exact shifted
  by_cases frame : id = settingsMaxFrameSize
  · have other : id ≠ settingsHeaderTableSize := frame ▸ by decide
    simp only [if_neg other]
    unfold applySetting
    rw [if_neg window, if_pos frame]
    split <;> rfl
  unfold applySetting
  rw [if_neg window, if_neg frame]
  split
  · rfl
  · split <;> rfl

theorem received_handleFrame (s : Http2Session) (f : Frame) : (s.handleFrame f).1.received = s.received := by
  have of_heading : ∀ {t : Http2Session}, t.heading = s.heading → t.received = s.received :=
    fun same => congrArg HeaderView.received same
  have of_sending : ∀ {t : Http2Session}, t.sending = s.sending → t.received = s.received :=
    fun same => congrArg SendView.received same
  unfold handleFrame
  cases f.type with
  | headers => exact of_sending (s.still_handleHeaders f).1.sending
  | continuation => exact of_sending (s.still_handleContinuation f).1.sending
  | settings => exact of_heading (s.calm_handleSettings f).quiet.heading
  | ping => exact of_heading (s.calm_handlePing f).quiet.heading
  | goAway => exact of_heading (s.calm_handleGoAway f).quiet.heading
  | rstStream => exact of_heading (s.calm_handleRstStream f).quiet.heading
  | pushPromise => exact of_heading (s.calm_handlePushPromise f).quiet.heading
  | data => exact of_heading (s.calm_handleData f).quiet.heading
  | priority | other => rfl
  | windowUpdate => exact of_heading (heading_handleWindowUpdate s f)

end Http2Session

namespace Http2World

variable {w : Http2World}

/-- The session keeps up with the server where each completed header block is of a stream
that goes on, nothing is pushed, and the peer's limit for its own decoder is the one that
this side has. -/
def attentive (w : Http2World) : Http2Event → Bool
  | .advance _ =>
    match w.current.map w.program with
    | some (.receive f :: _) => w.session.decodable f
    | some (.settings ((id, value) :: _) :: _) =>
      id = settingsHeaderTableSize → value = w.session.decoder.table.maxDynamicTableSize
    | _ => true
  | _ => true

def Attuned (w : Http2World) : Prop :=
  ∀ blocks, headerBlocks w.session.received = some blocks → Http2Session.Synced w.session.heading blocks

theorem attuned_of_heading {v : Http2World} (inv : Attuned v)
    (same : w.session.heading = v.session.heading) : Attuned w := by
  intro blocks legal
  have received : w.session.received = v.session.received := congrArg HeaderView.received same
  rw [same]
  exact inv blocks (received ▸ legal)

theorem Attuned.receive {f : Frame} (inv : Attuned w) (decodable : w.session.decodable f = true) {blocks : HeaderBlocks}
    (legal : headerBlocks (({ w.session with received := w.session.received ++ [f] }.handleFrame f).1.received) =
      some blocks) :
    Http2Session.Synced ({ w.session with received := w.session.received ++ [f] }.handleFrame f).1.heading blocks := by
  rw [Http2Session.received_handleFrame, headerBlocks_append] at legal
  obtain ⟨before, known, added⟩ := bind_eq_some_iff.mp legal
  obtain ⟨idle, partly, complete⟩ := inv before known
  exact Http2Session.Synced.handleFrame ⟨idle, partly, complete⟩ decodable added

theorem Attuned.setting {id value : Nat} (inv : Attuned w)
    (same : id = settingsHeaderTableSize → value = w.session.decoder.table.maxDynamicTableSize) {t : Http2Session}
    (applied : t.heading =
      { w.session.heading with
        decoder := if id = settingsHeaderTableSize then w.session.decoder.setMaxDynamicTableSize value
          else w.session.decoder })
    {blocks : HeaderBlocks} (legal : headerBlocks t.received = some blocks) : Http2Session.Synced t.heading blocks := by
  have received : t.received = w.session.received := congrArg HeaderView.received applied
  have synced := inv blocks (received ▸ legal)
  have settled : w.session.decoder.table.Settled := by
    have known : w.session.decoder = _ := congrArg Prod.fst synced.complete
    rw [known]
    exact HpackDecoder.settled_decodeInOrder _
  have kept : (if id = settingsHeaderTableSize then w.session.decoder.setMaxDynamicTableSize value
      else w.session.decoder) = w.session.decoder := by
    split
    · rw [same ‹_›]
      exact Http2Session.setMaxDynamicTableSize_same settled
    · rfl
  rw [applied, kept]
  exact synced

theorem Attuned.step {t : Http2World} {e : Http2Event} (inv : Attuned w) (careful : w.attentive e = true)
    (step : w.step e = some t) : Attuned t := by
  cases step_cases step with
  | @perform c b ok a rest session more control program notLocked notUnlock performed =>
    have before : w.program c = a :: rest := by simp [Http2World.program, program]
    have running : w.current.map w.program = some (a :: rest) := by
      rw [current_of_control control, map_some, before]
    by_cases receives : ∃ f, a = .receive f
    · obtain ⟨f, rfl⟩ := receives
      have decodable : w.session.decodable f = true := by simpa [attentive, running] using careful
      unfold Http2Session.perform at performed
      dsimp only at performed
      split at performed
      · cases performed
        exact inv
      · have reached : session = _ := (congrArg Prod.fst (some.inj performed)).symm
        subst reached
        exact fun blocks legal => inv.receive decodable legal
    by_cases applies : ∃ entry later, a = .settings (entry :: later)
    · obtain ⟨⟨id, value⟩, later, rfl⟩ := applies
      have same : id = settingsHeaderTableSize → value = w.session.decoder.table.maxDynamicTableSize := by
        have either : ¬ id = settingsHeaderTableSize ∨ value = w.session.decoder.table.maxDynamicTableSize := by
          simpa [attentive, running] using careful
        exact fun size => either.resolve_left (fun other => other size)
      have reached : session = (w.session.applySetting id value later).1 :=
        (congrArg Prod.fst (some.inj performed)).symm
      subst reached
      exact fun blocks legal => inv.setting same (Http2Session.heading_applySetting _ id value later) legal
    · refine attuned_of_heading inv (Http2Session.heading_perform ?_ ?_ performed)
      · exact fun f equal => receives ⟨f, equal⟩
      · exact fun entry later equal => applies ⟨entry, later, equal⟩
  | _ => exact inv

/-- If every header block is completed by a frame of a stream that goes on, nothing is
pushed, and the peer's header table size is the limit of the decoder already, then the
session's decoder is in step with the server at any time. -/
theorem inStep_of_attentive {history : List (Http2World × Http2Event)} {w s : Http2World}
    (run : Run http2System history w) (careful : ∀ entry ∈ history, entry.1.attentive entry.2 = true)
    (visited : Visited history w s) {blocks : HeaderBlocks} (legal : headerBlocks s.session.received = some blocks) :
    InStep s.session blocks.complete := by
  have inv : Attuned s := by
    refine run.visited_of_guard (fun w e => w.attentive e = true) careful ?_ ?_ visited
    · rintro _ rfl blocks legal
      cases legal
      exact ⟨fun _ => rfl, by simp, rfl⟩
    · exact fun w e t inv careful step => inv.step careful step
  have complete := (inv blocks legal).complete
  have decoder : s.session.decoder = _ := congrArg Prod.fst complete
  have decodes : s.session.decodes = _ := congrArg Prod.snd complete
  refine ⟨?_, decoder, ?_⟩
  · rw [decodes, HpackDecoder.blocks_decodeInOrder]
  · intro lists conveyed
    rw [decodes]
    exact conveyed

end Http2World

def smallRequest : Http2Event := .call (.exchange [⟨ascii ":method", ascii "GET"⟩] none)

def indexedResponse : Frame := ⟨.headers, flagEndHeaders, 1, [0x40, 1, 97, 1, 98]⟩

/-- A response with the newest header of the dynamic table, in two frames. -/
def laterResponse : List Frame := [⟨.headers, 0, 3, [0xbe]⟩, ⟨.continuation, flagEndHeaders, 3, []⟩]

def arrive (f : Frame) : List Http2Event := [.call (.receive f), .advance true]

def answered : List Http2Event :=
  [.spawn] ++ settingsArrive ++ [.resume 1, smallRequest] ++ advances 7 ++ [smallRequest] ++ advances 7 ++
    [.leave, .resume 0] ++ (indexedResponse :: laterResponse).flatMap arrive

theorem inStep_of_attentive_answered : ∃ history w, Run http2System history w ∧
    (∀ entry ∈ history, entry.1.attentive entry.2 = true) ∧
    headerBlocks w.session.received = some ⟨none, [[0x40, 1, 97, 1, 98], [0xbe]]⟩ ∧
    InStep w.session [[0x40, 1, 97, 1, 98], [0xbe]] := by
  obtain ⟨history, w, run, _, careful, legal⟩ :=
    Run.of_exec_guarded http2System Http2World.attentive rfl answered rfl
      (fun w => headerBlocks w.session.received = some ⟨none, [[0x40, 1, 97, 1, 98], [0xbe]]⟩) (by decide +kernel)
  exact ⟨history, w, run, careful, legal, Http2World.inStep_of_attentive run careful (Or.inl rfl) legal⟩

def cancelled : List Http2Event :=
  [.spawn] ++ settingsArrive ++ [.resume 1, smallRequest] ++ advances 7 ++ [.call (.release 1 true errorCancel)] ++
    advances 6 ++ [smallRequest] ++ advances 7 ++ [.leave, .resume 0] ++
    (indexedResponse :: laterResponse).flatMap arrive

/-- The block of the cancelled stream is skipped, and the header that the next response
takes from the table is not there. -/
theorem skipped_block : ∃ history w, Run http2System history w ∧ history.map Prod.snd = cancelled.reverse ∧
    headerBlocks w.session.received = some ⟨none, [[0x40, 1, 97, 1, 98], [0xbe]]⟩ ∧
    w.session.decodes = [([0xbe], [], false)] ∧ ¬ InStep w.session [[0x40, 1, 97, 1, 98], [0xbe]] := by
  obtain ⟨history, w, run, labels, legal, decodes⟩ := Run.of_exec http2System rfl cancelled rfl
    (fun w => headerBlocks w.session.received = some ⟨none, [[0x40, 1, 97, 1, 98], [0xbe]]⟩ ∧
      w.session.decodes = [([0xbe], [], false)]) (by decide +kernel)
  refine ⟨history, w, run, labels, legal, decodes, fun inStep => ?_⟩
  have once := inStep.once
  rw [decodes] at once
  simp at once

end Http2

end Qtng
