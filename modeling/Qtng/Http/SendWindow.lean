import Qtng.Http.StreamOrder

namespace Qtng.Http2

open BigEndian Transition Option Function List Http2.Action

variable {a : Action}

/-- A piece of a body that has been cut off and not been deducted from the windows yet;
handed tells whether the connection has it. -/
structure Flight where
  stream : Nat
  n : Nat
  handed : Bool

def Action.flight : Action → Option Flight
  | .locked (.piece stream _ n _ _) | .write (.piece stream _ n _ _) => some ⟨stream, n, false⟩
  | .flush (.piece stream _ n _ _) | .deduct stream n => some ⟨stream, n, true⟩
  | _ => none

/-- The piece that a coroutine has in flight. The deduction stands behind the release of
the lock. -/
def flightOf : List Action → Option Flight
  | .unlock :: a :: _ => a.flight
  | a :: _ => a.flight
  | [] => none

/-- The actions that may carry a piece are those flightOf looks at. -/
def tidy : List Action → Bool
  | .unlock :: rest => rest.tail.all fun a => a.flight.isNone
  | _ :: rest => rest.all fun a => a.flight.isNone
  | [] => true

/-- The streams that the request's way to the connection names are made already. -/
def Action.below (created : Nat) : Action → Bool
  | .locked (.headers h _ _) | .write (.headers h _ _) | .flush (.headers h _ _) => h < created
  | .locked (.block h _ _) | .write (.block h _ _) | .flush (.block h _ _) => h < created
  | .locked (.piece h _ _ _ _) | .write (.piece h _ _ _ _) | .flush (.piece h _ _ _ _) => h < created
  | .locked (.bodyEnd h) | .write (.bodyEnd h) | .flush (.bodyEnd h) => h < created
  | .readBody h _ | .sendChunk h _ _ _ | .deduct h _ => h < created
  | _ => true

def uploaded (wire : List Sent) : Nat :=
  (wire.map fun
    | .data _ _ piece => piece.size
    | _ => 0).sum

def uploadedOn (stream : Nat) (wire : List Sent) : Nat :=
  (wire.map fun
    | .data h _ piece => if h = stream then piece.size else 0
    | _ => 0).sum

def handed : Option Flight → Nat
  | some ⟨_, n, true⟩ => n
  | _ => 0

def handedOn (stream : Nat) : Option Flight → Nat
  | some ⟨h, n, true⟩ => if h = stream then n else 0
  | _ => 0

def flightOn (stream : Nat) : Option Flight → Nat
  | some ⟨h, n, _⟩ => if h = stream then n else 0
  | none => 0

/-- Whether the peer may lower the initial window to a value: what is sent and in flight
fits into the new windows, for a stream that has left the map together with all that its
old window still allows. -/
def Room (s : Http2Session) (fl : Option Flight) (value : Nat) : Prop :=
  s.connected = true ∧ ∀ h < s.created,
    if ∃ entry ∈ s.streams, entry.2 = h then
      (flightOn h fl : Int) ≤ (s.object h).sendWindow + (value - s.remoteInitialWindow)
    else
      (s.object h).sendWindow + uploadedOn h s.wire ≤ value + granted (s.object h).id s.received + handedOn h fl

instance (s : Http2Session) (fl : Option Flight) (value : Nat) : Decidable (Room s fl value) :=
  inferInstanceAs (Decidable (_ ∧ _))

/-- The accounts of the windows, with the piece in flight. Once the connection takes no
more, only the bounds remain. -/
structure Balanced (v : SendView) (fl : Option Flight) : Prop where
  bound : uploaded v.wire ≤ 65535 + granted 0 v.received
  bounds : ∀ h < v.created, (uploadedOn h v.wire : Int) ≤ v.remoteInitialWindow + granted (v.id h) v.received
  unborn : ∀ h, v.created ≤ h → uploadedOn h v.wire = 0
  flying : ∀ f ∈ fl, f.stream < v.created
  initial : 0 ≤ v.remoteInitialWindow ∧ v.remoteInitialWindow ≤ 0x7fffffff
  connection : v.connected = true →
    v.connectionSendWindow + uploaded v.wire ≤ 65535 + granted 0 v.received + handed fl ∧
      0 ≤ v.connectionSendWindow ∧ ∀ f ∈ fl, (f.n : Int) ≤ v.connectionSendWindow
  streams : v.connected = true → ∀ h < v.created,
    v.sendWindow h + uploadedOn h v.wire ≤ v.remoteInitialWindow + granted (v.id h) v.received + handedOn h fl ∧
      0 ≤ v.sendWindow h ∧ v.sendWindow h ≤ 0x7fffffff ∧ ∀ f ∈ fl, f.stream = h → (f.n : Int) ≤ v.sendWindow h

theorem granted_append (id : Nat) (received : List Frame) (f : Frame) :
    granted id (received ++ [f]) = granted id received + granted id [f] := by
  simp [granted]

theorem uploaded_append (wire : List Sent) (sent : Sent) :
    uploaded (wire ++ [sent]) = uploaded wire + uploaded [sent] := by
  simp [uploaded]

theorem uploadedOn_append (h : Nat) (wire : List Sent) (sent : Sent) :
    uploadedOn h (wire ++ [sent]) = uploadedOn h wire + uploadedOn h [sent] := by
  simp [uploadedOn]

theorem handedOn_le {h : Nat} {fl : Option Flight} {window : Int} (nonneg : 0 ≤ window)
    (within : ∀ f ∈ fl, f.stream = h → (f.n : Int) ≤ window) : (handedOn h fl : Int) ≤ window := by
  unfold handedOn
  split
  · split
    · rename_i same
      exact within _ rfl same
    · exact nonneg
  · exact nonneg

namespace Balanced

variable {v : SendView} {fl : Option Flight}
variable {h n : Nat}

theorem received (balanced : Balanced v fl) (f : Frame) : Balanced { v with received := v.received ++ [f] } fl := by
  have more := fun id => granted_append id v.received f
  refine ⟨?_, ?_, balanced.unborn, balanced.flying, balanced.initial, ?_, ?_⟩
  · have bound := balanced.bound
    have grown := more 0
    dsimp only
    omega
  · intro h known
    have bound := balanced.bounds h known
    have grown := more (v.id h)
    dsimp only
    omega
  · intro up
    obtain ⟨account, rest⟩ := balanced.connection up
    have grown := more 0
    refine ⟨?_, rest⟩
    dsimp only
    omega
  · intro up h known
    obtain ⟨account, rest⟩ := balanced.streams up h known
    have grown := more (v.id h)
    refine ⟨?_, rest⟩
    dsimp only
    omega

theorem cut {fl' : Option Flight} (balanced : Balanced v fl) (fewer : ∀ f ∈ fl', f ∈ fl) :
    Balanced { v with connected := false } fl' :=
  ⟨balanced.bound, balanced.bounds, balanced.unborn, fun f member => balanced.flying f (fewer f member),
    balanced.initial, (nomatch ·), (nomatch ·)⟩

theorem dropped (balanced : Balanced v (some ⟨h, n, false⟩)) : Balanced v none := by
  refine ⟨balanced.bound, balanced.bounds, balanced.unborn, by simp, balanced.initial, ?_, ?_⟩
  · intro up
    obtain ⟨account, nonneg, _⟩ := balanced.connection up
    exact ⟨account, nonneg, by simp⟩
  · intro up stream known
    obtain ⟨account, nonneg, top, _⟩ := balanced.streams up stream known
    exact ⟨account, nonneg, top, by simp⟩

theorem picked (balanced : Balanced v none) (known : h < v.created) (window : (n : Int) ≤ v.sendWindow h)
    (connection : (n : Int) ≤ v.connectionSendWindow) : Balanced v (some ⟨h, n, false⟩) := by
  refine ⟨balanced.bound, balanced.bounds, balanced.unborn, ?_, balanced.initial, ?_, ?_⟩
  · rintro f member
    cases mem_some.mp member
    exact known
  · intro up
    obtain ⟨account, nonneg, _⟩ := balanced.connection up
    refine ⟨account, nonneg, ?_⟩
    rintro f member
    cases mem_some.mp member
    exact connection
  · intro up stream old
    obtain ⟨account, nonneg, top, _⟩ := balanced.streams up stream old
    refine ⟨account, nonneg, top, ?_⟩
    rintro f member same
    cases mem_some.mp member
    subst same
    exact window

theorem sent_empty {sent : Sent} (balanced : Balanced v fl) (empty : uploaded [sent] = 0)
    (none : ∀ h, uploadedOn h [sent] = 0) : Balanced { v with wire := v.wire ++ [sent] } fl := by
  have total : uploaded (v.wire ++ [sent]) = uploaded v.wire := by rw [uploaded_append, empty, Nat.add_zero]
  have each : ∀ h, uploadedOn h (v.wire ++ [sent]) = uploadedOn h v.wire := by
    intro h
    rw [uploadedOn_append, none, Nat.add_zero]
  refine ⟨?_, ?_, ?_, balanced.flying, balanced.initial, ?_, ?_⟩ <;> simp only [total, each]
  · exact balanced.bound
  · exact balanced.bounds
  · exact balanced.unborn
  · exact balanced.connection
  · exact balanced.streams

theorem sent_piece {flags : UInt8} {piece : Chunk} (balanced : Balanced v (some ⟨h, n, false⟩))
    (up : v.connected = true) (small : piece.size ≤ n) :
    Balanced { v with wire := v.wire ++ [.data h flags piece] } (some ⟨h, n, true⟩) := by
  have known : h < v.created := balanced.flying _ rfl
  have total : uploaded (v.wire ++ [.data h flags piece]) = uploaded v.wire + piece.size := by
    rw [uploaded_append]
    simp [uploaded]
  have each : ∀ stream, uploadedOn stream (v.wire ++ [.data h flags piece]) =
      uploadedOn stream v.wire + if h = stream then piece.size else 0 := by
    intro stream
    rw [uploadedOn_append]
    simp [uploadedOn]
  obtain ⟨account, nonneg, fits⟩ := balanced.connection up
  have room : (n : Int) ≤ v.connectionSendWindow := fits _ rfl
  simp only [handed] at account
  refine ⟨?_, ?_, ?_, ?_, balanced.initial, ?_, ?_⟩
  · dsimp only
    omega
  · intro stream old
    obtain ⟨own, low, _, within⟩ := balanced.streams up stream old
    dsimp only
    rw [each]
    split
    · rename_i same
      have enough := within _ rfl same
      simp only [handedOn] at own enough
      omega
    · exact balanced.bounds stream old
  · intro stream new
    have different : h ≠ stream := by
      rintro rfl
      dsimp only at new
      omega
    dsimp only
    rw [each, if_neg different]
    exact balanced.unborn stream new
  · rintro f member
    cases mem_some.mp member
    exact known
  · intro _
    refine ⟨?_, nonneg, ?_⟩
    · simp only [handed]
      omega
    · rintro f member
      cases mem_some.mp member
      exact room
  · intro _ stream old
    obtain ⟨own, low, top, within⟩ := balanced.streams up stream old
    refine ⟨?_, low, top, ?_⟩
    · dsimp only
      rw [each]
      simp only [handedOn] at own ⊢
      split <;> omega
    · rintro f member same
      cases mem_some.mp member
      exact within ⟨h, n, false⟩ rfl same

theorem deducted (balanced : Balanced v (some ⟨h, n, true⟩)) :
    Balanced { v with
      sendWindow := update v.sendWindow h (v.sendWindow h - n)
      connectionSendWindow := v.connectionSendWindow - n } none := by
  refine ⟨balanced.bound, balanced.bounds, balanced.unborn, by simp, balanced.initial, ?_, ?_⟩
  · intro up
    obtain ⟨account, nonneg, fits⟩ := balanced.connection up
    have room : (n : Int) ≤ v.connectionSendWindow := fits _ rfl
    simp only [handed] at account ⊢
    refine ⟨by omega, by omega, by simp⟩
  · intro up stream old
    obtain ⟨account, nonneg, top, within⟩ := balanced.streams up stream old
    dsimp only
    by_cases same : stream = h
    · subst same
      have enough : (n : Int) ≤ v.sendWindow stream := within _ rfl rfl
      simp only [handedOn, if_true, update_self] at account ⊢
      refine ⟨by omega, by omega, by omega, by simp⟩
    · simp only [handedOn, Ne.symm same, if_false, update_of_ne same] at account ⊢
      exact ⟨account, nonneg, top, by simp⟩

theorem widened {f : Frame} {increment : Nat} (balanced : Balanced v fl)
    (grant : granted (v.id h) [f] = increment) (top : v.sendWindow h + increment ≤ 0x7fffffff) :
    Balanced { v with
      received := v.received ++ [f]
      sendWindow := update v.sendWindow h (v.sendWindow h + increment) } fl := by
  have later := balanced.received f
  refine ⟨later.bound, later.bounds, later.unborn, later.flying, later.initial, later.connection, ?_⟩
  intro up stream old
  obtain ⟨account, nonneg, high, within⟩ := balanced.streams up stream old
  have more := granted_append (v.id stream) v.received f
  dsimp only
  by_cases same : stream = h
  · subst same
    simp only [update_self]
    refine ⟨by omega, by omega, top, ?_⟩
    intro f' member at_
    have enough := within f' member at_
    omega
  · simp only [update_of_ne same]
    exact ⟨by omega, nonneg, high, within⟩

theorem granted {f : Frame} {increment : Nat} (balanced : Balanced v fl) (grant : Http2.granted 0 [f] = increment) :
    Balanced { v with
      received := v.received ++ [f], connectionSendWindow := v.connectionSendWindow + increment } fl := by
  have later := balanced.received f
  refine ⟨later.bound, later.bounds, later.unborn, later.flying, later.initial, ?_, later.streams⟩
  intro up
  obtain ⟨account, nonneg, within⟩ := balanced.connection up
  have more := granted_append 0 v.received f
  dsimp only
  refine ⟨by omega, by omega, ?_⟩
  intro f' member
  have enough := within f' member
  omega

theorem created {id : Nat} {next : Nat} (balanced : Balanced v fl) :
    Balanced { v with
      id := update v.id v.created id
      sendWindow := update v.sendWindow v.created v.remoteInitialWindow
      created := v.created + 1
      nextStreamId := next } fl := by
  have initial := balanced.initial
  have ids : ∀ h < v.created, update v.id v.created id h = v.id h :=
    fun h old => update_of_ne (by omega) ..
  have windows : ∀ h < v.created, update v.sendWindow v.created v.remoteInitialWindow h = v.sendWindow h :=
    fun h old => update_of_ne (by omega) ..
  have empty := balanced.unborn v.created le_rfl
  have grounded : ∀ f ∈ fl, f.stream ≠ v.created := fun f member => (balanced.flying f member).ne
  refine ⟨balanced.bound, ?_, ?_, ?_, initial, balanced.connection, ?_⟩
  · intro h known
    dsimp only at known ⊢
    by_cases new : h = v.created
    · subst new
      omega
    · rw [ids h (by omega)]
      exact balanced.bounds h (by omega)
  · intro h outside
    dsimp only at outside
    exact balanced.unborn h (by omega)
  · intro f member
    exact Nat.lt_succ_of_lt (balanced.flying f member)
  · intro up h known
    dsimp only at known ⊢
    by_cases new : h = v.created
    · subst new
      simp only [update_self]
      refine ⟨by omega, initial.1, initial.2, ?_⟩
      exact fun f member same => absurd same (grounded f member)
    · rw [ids h (by omega), windows h (by omega)]
      exact balanced.streams up h (by omega)

theorem shifted {s t : Http2Session} {value : Nat} (balanced : Balanced s.sending fl) (keyed : Keyed s)
    (range : value ≤ 0x7fffffff)
    (shifted : Http2Session.Shifted { s with remoteInitialWindow := value } (value - s.remoteInitialWindow) s.streams t)
    (room : (value : Int) < s.remoteInitialWindow → Room s fl value) : Balanced t.sending fl := by
  obtain ⟨sending, _, _, window, whole⟩ := shifted
  have windowed : ({ s with remoteInitialWindow := value } : Http2Session).sending.sendWindow =
      s.sending.sendWindow := rfl
  rw [windowed] at window whole
  have accounts : s.connected = true → ∀ h < s.created,
      t.sending.sendWindow h + uploadedOn h s.wire ≤ value + Http2.granted (s.sending.id h) s.received + handedOn h fl ∧
        0 ≤ t.sending.sendWindow h ∧ t.sending.sendWindow h ≤ 0x7fffffff ∧
        ∀ f ∈ fl, f.stream = h → (f.n : Int) ≤ t.sending.sendWindow h := by
    intro up h known
    obtain ⟨account, nonneg, top, within⟩ := balanced.streams up h known
    have old : s.sending.remoteInitialWindow = s.remoteInitialWindow := rfl
    have wire : s.sending.wire = s.wire := rfl
    have received : s.sending.received = s.received := rfl
    rw [wire, received] at account
    by_cases lowered : (value : Int) < s.remoteInitialWindow
    · obtain ⟨_, rooms⟩ := room lowered
      have here := rooms h known
      have same : (s.object h).sendWindow = s.sending.sendWindow h := rfl
      have ids : (s.object h).id = s.sending.id h := rfl
      rw [same, ids] at here
      -- no window of the map leaves its range, so that all of them move
      have fits : ∀ entry ∈ s.streams, 0 ≤ s.sending.sendWindow entry.2 + (value - s.remoteInitialWindow) ∧
          s.sending.sendWindow entry.2 + (value - s.remoteInitialWindow) ≤ 0x7fffffff := by
        intro entry member
        have known := keyed.below entry member
        have mapped := rooms entry.2 known
        rw [if_pos ⟨entry, member, rfl⟩] at mapped
        have high := (balanced.streams up entry.2 known).2.2.1
        have same : (s.object entry.2).sendWindow = s.sending.sendWindow entry.2 := rfl
        omega
      split at here
      · rename_i mapped
        obtain ⟨entry, member, at_⟩ := mapped
        have moved := whole fits entry member
        rw [at_] at moved
        have low := fits entry member
        rw [at_] at low
        refine ⟨by omega, by omega, by omega, ?_⟩
        intro f member same
        have flies : flightOn h fl = f.n := by
          cases mem_def.mp member
          simp [flightOn, same]
        omega
      · rename_i unmapped
        rcases window h with kept | ⟨mapped, _⟩
        · rw [kept]
          exact ⟨here, nonneg, top, within⟩
        · exact absurd mapped unmapped
    · rcases window h with kept | ⟨_, moved, low, high⟩
      · rw [kept]
        exact ⟨by omega, nonneg, top, within⟩
      · refine ⟨by omega, low, high, ?_⟩
        intro f member same
        have enough := within f member same
        omega
  have initial : (0 : Int) ≤ value ∧ (value : Int) ≤ 0x7fffffff := by omega
  rw [sending]
  refine ⟨balanced.bound, ?_, balanced.unborn, balanced.flying, initial, balanced.connection, accounts⟩
  intro h known
  change (uploadedOn h s.wire : Int) ≤ value + Http2.granted (s.sending.id h) s.received
  by_cases lowered : (value : Int) < s.remoteInitialWindow
  · obtain ⟨account, nonneg, _, within⟩ := accounts (room lowered).1 h known
    have less := handedOn_le nonneg within
    omega
  · have bound : (uploadedOn h s.wire : Int) ≤ s.remoteInitialWindow + Http2.granted (s.sending.id h) s.received :=
      balanced.bounds h known
    omega

end Balanced

namespace Http2World

def flights (w : Http2World) : List Flight := w.programs.filterMap flightOf

/-- The accounts hold where an exchange cuts off a piece only while no other piece is in
flight, and the peer lowers the initial window only where there is room. -/
def paced (w : Http2World) : Http2Event → Bool
  | .advance _ =>
    match w.current.map w.program with
    | some (.sendChunk .. :: _) => w.flights.isEmpty
    | some (.settings ((id, value) :: _) :: _) =>
      id = settingsInitialWindowSize → value < w.session.remoteInitialWindow → Room w.session w.flights.head? value
    | _ => true
  | _ => true

/-- The accounts of a session whose exchanges have one piece in flight at most. -/
structure Paced (w : Http2World) : Prop where
  disciplined : Disciplined w
  order : ∀ p ∈ w.programs, tidy p = true
  below : ∀ p ∈ w.programs, ∀ a ∈ p, a.below w.session.created = true
  single : w.flights.length ≤ 1
  balanced : Balanced w.session.sending w.flights.head?

end Http2World

theorem set_split {programs : List (List Action)} {c : Nat} {p : List Action} (present : programs[c]? = some p) :
    ∃ before after, programs = before ++ p :: after ∧ ∀ q, programs.set c q = before ++ q :: after := by
  obtain ⟨inside, value⟩ := List.getElem?_eq_some_iff.mp present
  refine ⟨programs.take c, programs.drop (c + 1), ?_, ?_⟩
  · rw [← value, cons_getElem_drop_succ, take_append_drop]
  · intro q
    rw [set_eq_take_append_cons_drop, if_pos inside]

theorem flight_of_plain (plain : a.plain = true) : a.flight = none := by
  cases a with
  | locked writing => cases writing <;> first | rfl | simp at plain
  | _ => first | rfl | simp at plain

theorem below_of_plain (plain : a.plain = true) (created : Nat) : a.below created = true := by
  cases a with
  | locked writing => cases writing <;> first | rfl | simp at plain
  | _ => first | rfl | simp at plain

theorem flight_of_free (free : a.free = true) : a.flight = none := by
  cases a <;> first | rfl | simp [Action.free] at free

theorem below_of_uploads {stream : Nat} (uploads : a.uploads stream = true) (created : Nat) :
    a.flight = none ∧ (a.below created = true ↔ stream < created) := by
  match a with
  | .readBody .. | .sendChunk .. | .locked (.bodyEnd _) =>
    simp only [Action.uploads, decide_eq_true_eq] at uploads
    subst uploads
    exact ⟨rfl, decide_eq_true_iff⟩

theorem below_mono {m n : Nat} (below : a.below m = true) (le : m ≤ n) : a.below n = true := by
  unfold Action.below at below ⊢
  split at below
  all_goals first
    | simp only [decide_eq_true_eq] at below ⊢
      omega
    | rfl

theorem flight_of_write (writing : Writing) : (write writing).flight = none ∨
    ∃ stream n, (write writing).flight = some ⟨stream, n, false⟩ := by
  cases writing with
  | piece => exact Or.inr ⟨_, _, rfl⟩
  | _ => exact Or.inl rfl

theorem flightOf_cons (kept : a ≠ .unlock) (rest : List Action) : flightOf (a :: rest) = a.flight := by
  cases a <;> first | rfl | exact absurd rfl kept

theorem tidy_cons (kept : a ≠ .unlock) (rest : List Action) :
    tidy (a :: rest) = rest.all fun a => a.flight.isNone := by
  cases a <;> first | rfl | exact absurd rfl kept

theorem flightless {p : List Action} (none : ∀ a ∈ p, a.flight = none) : flightOf p = .none ∧ tidy p = true := by
  refine ⟨?_, ?_⟩
  · unfold flightOf
    split
    · exact none _ (by simp)
    · exact none _ (by simp)
    · rfl
  · unfold tidy
    split
    · exact all_eq_true.mpr fun a member => by
        simp [none a (mem_cons_of_mem _ (mem_of_mem_tail member))]
    · exact all_eq_true.mpr fun a member => by simp [none a (mem_cons_of_mem _ member)]
    · rfl

namespace Http2World

variable {w : Http2World} {c : Nat} {p q : List Action}

theorem flights_set (present : w.programs[c]? = some p) :
    ∃ before after, w.flights = before ++ (flightOf p).toList ++ after ∧
      ∀ lock session q, ({ lock, session, programs := w.programs.set c q } : Http2World).flights =
        before ++ (flightOf q).toList ++ after := by
  obtain ⟨before, after, whole, set⟩ := set_split present
  refine ⟨before.filterMap flightOf, after.filterMap flightOf, ?_, ?_⟩
  · rw [flights, whole, filterMap_append]
    cases found : flightOf p <;> simp [found]
  · intro lock session q
    rw [flights, set, filterMap_append]
    cases found : flightOf q <;> simp [found]

theorem flights_set_same (present : w.programs[c]? = some p) (same : flightOf q = flightOf p) (lock : SemaphoreWorld)
    (session : Http2Session) :
    ({ lock, session, programs := w.programs.set c q } : Http2World).flights = w.flights := by
  obtain ⟨before, after, whole, set⟩ := flights_set present
  rw [set, whole, same]

/-- Where the only piece is this program's, or there is none, the program decides. -/
theorem flights_set_own (single : w.flights.length ≤ 1) (present : w.programs[c]? = some p)
    (own : w.flights = [] ∨ ∃ f, flightOf p = some f) (lock : SemaphoreWorld) (session : Http2Session) :
    w.flights.head? = flightOf p ∧
      ({ lock, session, programs := w.programs.set c q } : Http2World).flights = (flightOf q).toList := by
  obtain ⟨before, after, whole, set⟩ := flights_set present
  have alone : before = [] ∧ after = [] := by
    rcases own with empty | ⟨f, flies⟩
    · rw [empty] at whole
      have parts := append_eq_nil_iff.mp whole.symm
      exact ⟨(append_eq_nil_iff.mp parts.1).1, parts.2⟩
    · rw [whole, flies] at single
      simp only [length_append, toList_some, length_singleton] at single
      exact ⟨length_eq_zero_iff.mp (by omega), length_eq_zero_iff.mp (by omega)⟩
  rw [set, whole, alone.1, alone.2]
  cases flightOf p <;> simp

namespace Paced

variable {session : Http2Session} {lock : SemaphoreWorld} {t : Http2World}

theorem change (inv : Paced w)
    (became : t = { lock, session, programs := w.programs.set c q }) (disciplined : Disciplined t)
    (order : tidy q = true) (known : ∀ a ∈ q, a.below session.created = true)
    (created : w.session.created ≤ session.created) (single : t.flights.length ≤ 1)
    (balanced : Balanced session.sending t.flights.head?) : Paced t := by
  subst became
  refine ⟨disciplined, ?_, ?_, single, balanced⟩
  · intro p member
    rcases mem_or_eq_of_mem_set member with old | rfl
    · exact inv.order p old
    · exact order
  · intro p member
    rcases mem_or_eq_of_mem_set member with old | rfl
    · exact fun a inList => below_mono (inv.below p old a inList) created
    · exact known

theorem change_same (inv : Paced w)
    (became : t = { lock, session, programs := w.programs.set c q }) (disciplined : Disciplined t)
    (present : w.programs[c]? = some p) (same : flightOf q = flightOf p) (order : tidy q = true)
    (known : ∀ a ∈ q, a.below session.created = true) (created : w.session.created ≤ session.created)
    (balanced : Balanced session.sending w.flights.head?) : Paced t := by
  have flights : t.flights = w.flights := by
    rw [became]
    exact flights_set_same present same lock session
  exact inv.change became disciplined order known created (flights ▸ inv.single) (flights ▸ balanced)

theorem change_own {fl : Option Flight}
    (inv : Paced w) (became : t = { lock, session, programs := w.programs.set c q }) (disciplined : Disciplined t)
    (present : w.programs[c]? = some p) (own : w.flights = [] ∨ ∃ f, flightOf p = some f) (flight : flightOf q = fl)
    (order : tidy q = true) (known : ∀ a ∈ q, a.below session.created = true)
    (created : w.session.created ≤ session.created)
    (balanced : Balanced w.session.sending (flightOf p) → Balanced session.sending fl) : Paced t := by
  obtain ⟨before, after⟩ := flights_set_own inv.single present own lock session (q := q)
  have flights : t.flights = fl.toList := by rw [became, after, flight]
  refine inv.change became disciplined order known created ?_ ?_
  · rw [flights]
    cases fl <;> simp
  · rw [flights, show fl.toList.head? = fl by cases fl <;> rfl]
    exact balanced (before ▸ inv.balanced)

section Perform

variable {t : Http2World} {a : Action} {rest more : List Action} {session : Http2Session}

theorem perform (inv : Paced w)
    (became : t = { lock := w.lock, session, programs := w.programs.set c (more ++ rest) })
    (disciplined : Disciplined t) (present : w.programs[c]? = some (a :: rest)) (kept : a ≠ .unlock)
    (effect : w.session.SendEffect a session more)
    (clear : (∃ h chunk last more, a = .sendChunk h chunk last more) → w.flights = [])
    (room : ∀ value more, a = .settings ((settingsInitialWindowSize, value) :: more) →
      value < w.session.remoteInitialWindow → Room w.session w.flights.head? value) : Paced t := by
  have member : a :: rest ∈ w.programs := mem_of_getElem? present
  have known := inv.below _ member
  have first := known a mem_cons_self
  have own := flightOf_cons kept rest
  have trailing : ∀ x ∈ rest, x.flight = none := by
    have order := inv.order _ member
    rw [tidy_cons kept] at order
    exact fun x inList => isNone_iff_eq_none.mp (all_eq_true.mp order x inList)
  have created := (id_of_effect effect).1
  have behind : ∀ x ∈ rest, x.below session.created = true :=
    fun x inList => below_mono (known x (mem_cons_of_mem _ inList)) created
  -- actions without a piece stand in front of the rest
  have laid : ∀ {front : List Action}, (∀ b ∈ front, b.flight = none) →
      (∀ b ∈ front, b.below session.created = true) → flightOf (front ++ rest) = none ∧ tidy (front ++ rest) = true ∧
        ∀ b ∈ front ++ rest, b.below session.created = true := by
    intro front flightFree below
    obtain ⟨none, order⟩ := flightless (forall_mem_append.mpr ⟨flightFree, trailing⟩)
    exact ⟨none, order, forall_mem_append.mpr ⟨below, behind⟩⟩
  -- the action carries no piece, and what it leaves to do carries none
  have quiet : a.flight = none → (∀ b ∈ more, b.flight = none) → (∀ b ∈ more, b.below session.created = true) →
      Balanced session.sending w.flights.head? → Paced t := by
    intro unladen flightFree below balanced
    obtain ⟨none, order, known⟩ := laid flightFree below
    exact inv.change_same became disciplined present (none.trans (own.trans unladen).symm) order known created balanced
  have plainly : a.flight = none → (∀ b ∈ more, b.plain = true) → Balanced session.sending w.flights.head? → Paced t :=
    fun unladen plain => quiet unladen (fun b new => flight_of_plain (plain b new))
      fun b new => below_of_plain (plain b new) _
  -- the lock is released with plain actions behind it
  have released : ∀ {after : List Action}, (∀ b ∈ after, b.plain = true) →
      flightOf (.unlock :: after ++ rest) = none ∧ tidy (.unlock :: after ++ rest) = true ∧
        ∀ b ∈ .unlock :: after ++ rest, b.below session.created = true := by
    intro after plain
    refine laid (forall_mem_cons.mpr ⟨rfl, ?_⟩) (forall_mem_cons.mpr ⟨rfl, ?_⟩)
    · exact fun b late => flight_of_plain (plain b late)
    · exact fun b late => below_of_plain (plain b late) _
  have allTrailing : (rest.all fun a => a.flight.isNone) = true :=
    all_eq_true.mpr fun x inList => isNone_iff_eq_none.mpr (trailing x inList)
  have balanced := inv.balanced
  cases effect with
  | plain free still plain => exact plainly (flight_of_free free) plain (still.sending ▸ balanced)
  | received still plain => exact plainly rfl plain (still.sending ▸ balanced.received _)
  | cut free sending _ plain =>
    exact plainly (flight_of_free free) plain (sending ▸ balanced.cut fun _ same => same)
  | @granted f _ type length connection sending _ =>
    refine plainly rfl (by simp) (sending ▸ balanced.granted ?_)
    simp [Http2.granted, type, length, connection]
  | @widened f stream _ type length found top sending _ =>
    refine plainly rfl (by simp) (sending ▸ balanced.widened ?_ top)
    rw [(inv.disciplined.keyed.of_find found).1]
    simp [Http2.granted, type, length]
  | initial range shifted plain =>
    exact plainly rfl plain (balanced.shifted inv.disciplined.keyed range shifted (room _ _ rfl))
  | created sending _ =>
    have grown : session.created = w.session.created + 1 := congrArg SendView.created sending
    exact quiet rfl (by simp [Action.flight]) (by simp [Action.below, grown]) (sending ▸ balanced.created)
  | upload stream uploads free next =>
    have stream_known := ((below_of_uploads uploads w.session.created).2).mp first
    refine quiet (flight_of_free free) ?_ ?_ balanced
    · intro b new
      rcases next b new with plain | uploads
      · exact flight_of_plain plain
      · exact (below_of_uploads uploads 0).1
    · intro b new
      rcases next b new with plain | uploads
      · exact below_of_plain plain _
      · exact ((below_of_uploads uploads _).2).mpr stream_known
  | @picked stream chunk last more n window connection small =>
    have stream_known : stream < w.session.created := by simpa [Action.below] using first
    refine inv.change_own became disciplined present (Or.inl (clear ⟨_, _, _, _, rfl⟩)) rfl allTrailing ?_ created ?_
    · exact forall_mem_cons.mpr ⟨first, behind⟩
    · exact fun before => before.picked stream_known window connection
  | handed up handed sending _ =>
    cases handed with
    | control f =>
      exact quiet rfl (by simp [Action.flight]) (by simp [Action.below])
        (sending ▸ balanced.sent_empty rfl fun _ => rfl)
    | headers | block =>
      exact quiet rfl (by simp [Action.flight]) (forall_mem_singleton.mpr (below_mono first created))
        (sending ▸ balanced.sent_empty rfl fun _ => rfl)
    | piece flags =>
      refine inv.change_own became disciplined present (Or.inr ⟨_, rfl⟩) rfl allTrailing ?_ created ?_
      · exact forall_mem_cons.mpr ⟨below_mono first created, behind⟩
      · exact fun before => sending ▸ before.sent_piece up (min_le_left _ _)
    | bodyEnd =>
      exact quiet rfl (by simp [Action.flight]) (forall_mem_singleton.mpr (below_mono first created))
        (sending ▸ balanced.sent_empty (by simp [uploaded]) fun _ => by simp [uploadedOn])
  | @refused writing _ more still plain =>
    obtain ⟨none, order, known⟩ := released plain
    rcases flight_of_write writing with unladen | ⟨stream, n, laden⟩
    · refine inv.change_same became disciplined present (none.trans (own.trans unladen).symm) order known created ?_
      exact still.sending ▸ balanced
    · refine inv.change_own became disciplined present (Or.inr ⟨_, own.trans laden⟩) none order known created ?_
      intro before
      rw [own, laden] at before
      exact still.sending ▸ before.dropped
  | @flushed writing whole =>
    have unladen : (Action.flush writing).flight = none := by
      cases writing with
      | piece => exact absurd rfl (whole _ _ _ _ _)
      | _ => rfl
    exact quiet unladen (by simp [Action.flight]) (by simp [Action.below]) balanced
  | opened | continued => exact quiet rfl (by simp [Action.flight]) (by simpa [Action.below] using first) balanced
  | sent =>
    refine inv.change_same became disciplined present rfl ?_ ?_ created balanced
    · simpa [tidy, Action.flight] using trailing
    · exact forall_mem_cons.mpr ⟨rfl, forall_mem_cons.mpr ⟨first, forall_mem_cons.mpr ⟨first, behind⟩⟩⟩
  | @broken writing _ more sending _ plain =>
    obtain ⟨none, order, known⟩ := released plain
    have fewer : Balanced session.sending w.flights.head? ∧
        ∀ {fl}, Balanced w.session.sending fl → Balanced session.sending .none :=
      ⟨sending ▸ balanced.cut fun _ same => same, fun before => sending ▸ before.cut (by simp)⟩
    cases laden : (Action.flush writing).flight with
    | none =>
      exact inv.change_same became disciplined present (none.trans (own.trans laden).symm) order known created fewer.1
    | some f =>
      exact inv.change_own became disciplined present (Or.inr ⟨f, own.trans laden⟩) none order known created fewer.2
  | deducted sending _ =>
    obtain ⟨none, order⟩ := flightless trailing
    refine inv.change_own became disciplined present (Or.inr ⟨_, rfl⟩) none order behind created ?_
    exact fun before => sending ▸ before.deducted

end Perform

theorem new : Paced .new where
  disciplined := .new
  order := by
    intro p member
    cases mem_singleton.mp member
    rfl
  below := by
    intro p member
    cases mem_singleton.mp member
    simp
  single := Nat.zero_le 1
  balanced := by
    refine ⟨?_, ?_, ?_, ?_, ?_, ?_, ?_⟩ <;>
      simp [Http2World.new, Http2Session.sending, uploaded, uploadedOn, flights, flightOf, kDefaultWindow, handed]

theorem relock (inv : Paced w) (disciplined : Disciplined { w with lock }) :
    Paced { w with lock } := ⟨disciplined, inv.order, inv.below, inv.single, inv.balanced⟩

theorem step {e : Http2Event} (inv : Paced w) (slow : w.paced e = true) (step : w.step e = some t) :
    Paced t := by
  have disciplined := inv.disciplined.step step
  cases step_cases step with
  | spawn =>
    have same : ({ w with programs := w.programs ++ [[]] } : Http2World).flights = w.flights := by
      simp [flights, flightOf]
    refine ⟨disciplined, ?_, ?_, same ▸ inv.single, same ▸ inv.balanced⟩
    · intro p member
      rcases mem_append.mp member with old | new
      · exact inv.order p old
      · cases mem_singleton.mp new
        rfl
    · intro p member
      rcases mem_append.mp member with old | new
      · exact inv.below p old
      · cases mem_singleton.mp new
        simp
  | resume => exact inv.relock disciplined
  | runFunctor => exact inv.relock disciplined
  | wakeNext => exact inv.relock disciplined
  | leave => exact inv.relock disciplined
  | @call c b call control program =>
    refine inv.change_same rfl disciplined program ?_ ?_ ?_ le_rfl inv.balanced
    · cases call <;> rfl
    · cases call <;> rfl
    · cases call <;> simp [Call.action, Action.below]
  | @acquire c b ok writing rest lock control program acquired =>
    have member := mem_of_getElem? program
    refine inv.change_same rfl disciplined program ?_ ?_ ?_ le_rfl inv.balanced
    · cases writing <;> rfl
    · have order := inv.order _ member
      rwa [tidy_cons (by simp)] at order ⊢
    · intro a inList
      have known := inv.below _ member
      rcases mem_cons.mp inList with rfl | later
      · have own := known _ mem_cons_self
        cases writing <;> exact own
      · exact known a (mem_cons_of_mem _ later)
  | @release c b ok rest lock control program released =>
    have member := mem_of_getElem? program
    have order := inv.order _ member
    have behind : ∀ a ∈ rest, a.behind = true := by
      have tails := inv.disciplined.tails c
      simpa [Http2World.program, program] using tails
    refine inv.change_same rfl disciplined program ?_ ?_ ?_ le_rfl inv.balanced
    · cases rest with
      | nil => rfl
      | cons a more =>
        refine flightOf_cons ?_ more
        rintro rfl
        simpa [Action.behind] using behind .unlock mem_cons_self
    · cases rest with
      | nil => rfl
      | cons a more =>
        rw [tidy_cons]
        · exact order
        · rintro rfl
          simpa [Action.behind] using behind .unlock mem_cons_self
    · exact fun a inList => inv.below _ member a (mem_cons_of_mem _ inList)
  | @perform c b ok a rest session more control program notLocked notUnlock performed =>
    have effect := Http2Session.effect_perform inv.disciplined.keyed.distinct notLocked notUnlock performed
    have before : w.program c = a :: rest := by simp [Http2World.program, program]
    have running : w.current.map w.program = some (a :: rest) := by
      rw [current_of_control control, map_some, before]
    refine inv.perform rfl disciplined program notUnlock effect ?_ ?_
    · rintro ⟨h, chunk, last, more, rfl⟩
      simpa [paced, running] using slow
    · rintro value more rfl lower
      have room : w.session.remoteInitialWindow ≤ value ∨ Room w.session w.flights.head? value := by
        simpa [paced, running] using slow
      exact room.resolve_left (by omega)
  | @kill c lock killed =>
    obtain ⟨f, atFrame⟩ := (inv.disciplined.permits.kill_cases killed).2.1
    have waits := (inv.disciplined.waiting c f atFrame).1
    obtain ⟨p, program⟩ := Disciplined.present (inside_of_atWrite waits)
    have before : w.program c = p := by simp [Http2World.program, program]
    rw [before] at waits
    obtain ⟨writing, rest, rfl⟩ := write_of_atWrite waits
    rcases flight_of_write writing with unladen | ⟨stream, n, laden⟩
    · exact inv.change_same rfl disciplined program unladen.symm rfl (by simp) le_rfl inv.balanced
    · refine inv.change_own rfl disciplined program (Or.inr ⟨_, laden⟩) rfl rfl (by simp) le_rfl ?_
      intro balanced
      rw [flightOf_cons (by simp), laden] at balanced
      exact balanced.dropped

end Paced

end Http2World

/-- The bytes of bodies on the connection and on each stream keep to what the peer has
allowed. -/
structure WithinWindows (w : Http2World) : Prop where
  connection : uploaded w.session.wire ≤ 65535 + granted 0 w.session.received
  streams : ∀ h < w.session.created,
    (uploadedOn h w.session.wire : Int) ≤
      w.session.remoteInitialWindow + granted (w.session.object h).id w.session.received

/-- If each exchange cuts off its next piece only while no other piece is in flight, and
the peer lowers its initial window only where there is room for it, then the bodies stay
within the windows at any time. -/
theorem Http2World.withinWindows_of_paced {history : List (Http2World × Http2Event)} {w s : Http2World}
    (run : Run http2System history w) (slow : ∀ entry ∈ history, entry.1.paced entry.2 = true)
    (visited : Visited history w s) : WithinWindows s := by
  have inv : Paced s := by
    refine run.visited_of_guard (fun w e => w.paced e = true) slow ?_ ?_ visited
    · rintro _ rfl
      exact .new
    · exact fun w e t inv slow step => inv.step slow step
  exact ⟨inv.balanced.bound, inv.balanced.bounds⟩

def upload (n : Nat) : Http2Event :=
  .call (.exchange [⟨ascii ":method", ascii "PUT"⟩] (some (.whole (some ⟨.replicate n 0, n, List.length_replicate⟩))))

def largeFrames : List Http2Event :=
  [.resume 0, .call (.receive ⟨.settings, 0, 0, [0, 5, 0, 0, 0xff, 0xff]⟩)] ++ advances 8 ++ [.leave]

def uploads : List Http2Event :=
  [.spawn, .spawn] ++ largeFrames ++ [.resume 1, upload 40000] ++ advances 7 ++ [.leave, .resume 2, upload 40000] ++
    advances 7 ++ [.leave]

/-- The second upload cuts off its piece after the first one's is deducted. -/
def takingTurns : List Http2Event :=
  uploads ++ [.resume 1] ++ advances 8 ++ [.leave, .resume 2] ++ advances 4

theorem withinWindows_of_paced_takingTurns : ∃ history w, Run http2System history w ∧
    (∀ entry ∈ history, entry.1.paced entry.2 = true) ∧ uploaded w.session.wire = 65535 ∧ WithinWindows w := by
  obtain ⟨history, w, run, _, slow, wire⟩ :=
    Run.of_exec_guarded http2System Http2World.paced rfl takingTurns rfl
      (fun w => uploaded w.session.wire = 65535) (by decide +kernel)
  exact ⟨history, w, run, slow, wire, Http2World.withinWindows_of_paced run slow (Or.inl rfl)⟩

/-- The second upload cuts off its piece while the first one's frame is inside sendall,
and waits for the lock with it. -/
def overrunning : List Http2Event :=
  uploads ++ [.resume 1] ++ advances 4 ++ [.leave, .resume 2] ++ advances 3 ++ [.resume 1] ++ advances 4 ++
    [.leave, .runFunctor 1, .wakeNext] ++ advances 1

theorem window_overrun : ∃ history w, Run http2System history w ∧ history.map Prod.snd = overrunning.reverse ∧
    uploaded w.session.wire = 80000 ∧ ¬ WithinWindows w := by
  obtain ⟨history, w, run, labels, wire, increments⟩ := Run.of_exec http2System rfl overrunning rfl
    (fun w => uploaded w.session.wire = 80000 ∧ granted 0 w.session.received = 0) (by decide +kernel)
  refine ⟨history, w, run, labels, wire, fun within => ?_⟩
  have := within.connection
  omega

end Qtng.Http2
