import Qtng.Http.SendWindow

namespace Qtng.Http2

open BigEndian Transition Function List

namespace Http2Session

variable {s : Http2Session}

def failed (o : Http2StreamState) (code : Nat) : Http2StreamState :=
  { o with reset := true, errorCode := code, reserved := false }

end Http2Session

/-- The bytes of a body of unknown size, which ends with the first read that gives none. -/
def streamedSize : List Chunk → Nat
  | [] => 0
  | chunk :: rest => if chunk.size = 0 then 0 else chunk.size + streamedSize rest

def Body.size : Body → Nat
  | .whole data => (data.map Chunk.size).getD 0
  | .streamed chunks => streamedSize chunks

/-- What sendBody has still to send from a chunk on. -/
def sizeFrom (chunk : Chunk) (last : Bool) (rest : List Chunk) : Nat :=
  chunk.size + if last then 0 else streamedSize rest

def Writing.upload : Writing → Option (Nat × Nat)
  | .headers stream _ body | .block stream _ body => body.map fun body => (stream, body.size)
  | .piece stream chunk _ last rest => some (stream, sizeFrom chunk last rest)
  | .control _ | .bodyEnd _ => none

/-- The upload that an action is part of: the stream and the bytes that are still to be sent. A piece in sendall
is on the connection already. -/
def Action.upload : Action → Option (Nat × Nat)
  | .locked w | .write w => w.upload
  | .flush (.piece stream chunk n last rest) => some (stream, sizeFrom (chunk.drop n) last rest)
  | .flush (.block stream _ body) => body.map fun body => (stream, body.size)
  | .readBody stream body => some (stream, body.size)
  | .sendChunk stream chunk last rest => some (stream, sizeFrom chunk last rest)
  | _ => none

def leftOn (stream : Nat) : Option (Nat × Nat) → Nat
  | some (h, n) => if h = stream then n else 0
  | none => 0

def leftIn (stream : Nat) (p : List Action) : Nat := (p.map fun a => leftOn stream a.upload).sum

/-- The action does not end an upload early: the windows are open to a round of sendChunk, the frame is not too
large for a connection that takes it, and sendall succeeds. -/
def Http2Session.goesOn (s : Http2Session) (ok : Bool) : Action → Bool
  | .sendChunk stream chunk .. => chunk.size = 0 ∨ 0 < min (s.object stream).sendWindow s.connectionSendWindow
  | .write (.piece _ _ n _ _) => s.connected ∧ n ≤ s.maxFrameSize
  | .write _ => s.connected
  | .flush _ => ok
  | _ => true

namespace Http2Session

variable {s t : Http2Session} {a : Action} {more : List Action} {ok : Bool}

theorem Handed.left {w w' : Writing} {sent : Sent} (handed : s.Handed w sent w') (none : w.upload = none) :
    (∀ h, uploadedOn h [sent] = 0) ∧ (Action.flush w').upload = .none := by
  cases handed with
  | control => exact ⟨fun _ => rfl, rfl⟩
  | headers | block => exact ⟨fun _ => rfl, none⟩
  | piece => cases none
  | bodyEnd => exact ⟨fun h => by simp [uploadedOn], rfl⟩

end Http2Session

namespace Http2World

variable {w t : Http2World} {e : Http2Event}

def left (w : Http2World) (stream : Nat) : Nat := (w.programs.map (leftIn stream)).sum

/-- On the streams that exist in a state, the bytes sent and those left make up the same number later. -/
def Conserves (w t : Http2World) : Prop :=
  w.session.created ≤ t.session.created ∧ ∀ stream < w.session.created,
    uploadedOn stream t.session.wire + t.left stream = uploadedOn stream w.session.wire + w.left stream

theorem Conserves.refl (w : Http2World) : Conserves w w := ⟨le_rfl, fun _ _ => rfl⟩

theorem Conserves.trans {u : Http2World} (first : Conserves w t) (second : Conserves t u) : Conserves w u :=
  ⟨first.1.trans second.1, fun stream known =>
    (second.2 stream (known.trans_le first.1)).trans (first.2 stream known)⟩

end Http2World

def byteUpload : Http2Event := .call (.exchange [⟨ascii ":method", ascii "PUT"⟩] (some (.whole (some ⟨[0], 1, rfl⟩))))

def noWindow : Frame := ⟨.settings, 0, 0, [0, 4, 0, 0, 0, 0]⟩

/-- An upload that is done leaves its stream open for the response, and the initial window is lowered. -/
def lowered : List Http2Event :=
  [.spawn] ++ settingsArrive ++ [.resume 1, byteUpload] ++ advances 15 ++
    [.leave, .resume 0, .call (.receive noWindow)] ++ advances 3

end Qtng.Http2
