import ACGlass.Android.Input
import ACGlass.Transition

/-!
# From the fingers to the seat

The listeners push input events into the channel of the consumer, and the backend plays those
of its own channel on the seat. The channels are numbered in the order in which the consumer
connects; a channel is picked up once at most.
-/

namespace ACGlass
namespace InputPath

open Android Anland Transition

variable {φ : Type*}

/-- Events that reach the seat one after the other. -/
def play (touchDevice output : Bool) (seat : Seat) (events : List InputEvent) : Seat :=
  events.foldl (fun seat event => seat.processInputEvent touchDevice output event) seat

/-- A stream of touch events from the first pointer down on: whether its events are handled as
touches, and its pointers. -/
structure Touching where
  touches : Bool
  ids : List Int32
  deriving DecidableEq, Repr

/-- `MAX_POINTERS` of the framework. -/
def maxPointers : ℕ := 16

section Stream

variable (e : PointerEvent φ)

/-- The events that `handleDisplayTouchEvent` passes to `handleTouchEvent`. -/
def touches : Bool :=
  !e.isMouseEvent || e.classification = multiFingerSwipe || e.classification = pinch

def ids : List Int32 := e.pointers.map Pointer.id

/-- The pointers but the acting one. -/
def others : List Int32 := (e.before ++ e.after).map Pointer.id

/-- The streams that the framework dispatches to a listener: one pointer goes down, further
ones come and go, and either the last one goes up or the stream is cancelled. -/
def follow : Option Touching → PointerEvent φ → Option (Option Touching)
  | none, e =>
    if e.action = .down ∧ others e = [] then some (some ⟨touches e, ids e⟩) else none
  | some t, e =>
    if touches e ≠ t.touches then none
    else
      match e.action with
      | .move | .other => if ids e = t.ids then some (some t) else none
      | .pointerDown =>
        if others e = t.ids ∧ t.ids.length < maxPointers then some (some ⟨t.touches, ids e⟩)
        else none
      | .pointerUp =>
        if ids e = t.ids ∧ others e ≠ [] then some (some ⟨t.touches, others e⟩) else none
      | .up => if ids e = t.ids ∧ others e = [] then some none else none
      | .cancel => if ids e = t.ids then some none else none
      | _ => none

/-- The fingers that are down on the display. -/
def fingers : Option Touching → ℕ
  | none => 0
  | some t => if t.touches then t.ids.length else 0

end Stream

/-- What does not change during a run: `isBack` tells the scan codes of back keys. -/
structure Setup where
  view : View
  touchDevice : Bool
  output : Bool
  isBack : Int32 → Bool

/-- `out` is the channel of the consumer library and `inn` that of the producer library.
`next` is the channel of the next connection, `picked` the first one that has not been passed
over. `held` and `backs` are the scan codes of the keys that are down and of the back keys
that have ever gone down, zero if they have none. -/
structure State where
  savedBS : BitVec 32
  stream : Option Touching
  held : List Int32
  backs : List Int32
  out : Option ℕ
  inn : Option ℕ
  next : ℕ
  picked : ℕ
  sockets : ℕ → List InputEvent
  seat : Seat

/-- The view of the surface and the window behind it each have a listener for generic motions,
and the second one is asked about what the first one does not consume. -/
inductive Label (φ : Type*)
  | touch (e : PointerEvent φ)
  | surfaceGeneric (e : PointerEvent φ) (surface : Surface φ)
  | rootGeneric (e : PointerEvent φ) (surface : Surface φ)
  | key (e : KeyEvent)
  | connect
  | consumerLost
  | reopen
  | pickup (c : ℕ)
  | deliver
  | fallback

namespace State

/-- The first connection is up. -/
def initial : State where
  savedBS := 0
  stream := none
  held := []
  backs := []
  out := some 0
  inn := some 0
  next := 1
  picked := 1
  sockets := fun _ => []
  seat := ⟨0, 0, []⟩

section Display

variable (setup : Setup) (s : State)

/-- The native methods push into the channel of the consumer, if it has one. -/
def push (sent : List (Sent φ)) : State :=
  match s.out with
  | none => s
  | some c =>
    { s with sockets := Function.update s.sockets c (s.sockets c ++ sent.map Sent.event) }

/-- A key is down from its first event on until it goes up. -/
def followKey (e : KeyEvent) : State :=
  match e.action with
  | .down =>
    if 0 < e.repeatCount then s
    else { s with
      held := s.held.insert e.scanCode
      backs := if setup.isBack e.scanCode then s.backs.insert e.scanCode else s.backs }
  | .up => { s with held := s.held.filter (· ≠ e.scanCode) }
  | .other => s

end Display

variable [Zero φ] [Sub φ] [Neg φ] [Mul φ] [OfNat φ 10] [DecidableEq φ]
variable [LT φ] [LE φ] [DecidableLT φ] [DecidableLE φ]

def step (setup : Setup) (s : State) : Label φ → Option State
  | .touch e =>
    (follow s.stream e).map fun stream =>
      let (savedBS, sent, _) := handleDisplayTouchEvent s.savedBS e
      { s with savedBS, stream }.push sent
  | .surfaceGeneric e surface =>
    let (savedBS, sent, _) := handleDisplayGenericMotionEvent s.savedBS e surface
      e.firstPointer.x e.firstPointer.y
    some ({ s with savedBS }.push sent)
  | .rootGeneric e surface =>
    let (savedBS, sent, _) := handleRootGenericMotionEvent s.savedBS e surface
    some ({ s with savedBS }.push sent)
  | .key e =>
    if e.scanCode = 0 ∨ (e.keyCode = keycodeBack ↔ setup.isBack e.scanCode = true) then
      some ((s.followKey setup e).push (setup.view.handleKey φ e))
    else none
  | .connect =>
    if s.out = none then some { s with out := some s.next, next := s.next + 1 } else none
  | .consumerLost => some { s with out := none }
  | .reopen =>
    if s.out = none then some { s with savedBS := 0, stream := none, held := [] } else none
  | .pickup c =>
    if s.inn = none ∧ s.picked ≤ c ∧ c < s.next then
      some { s with inn := some c, picked := c + 1 }
    else none
  | .deliver =>
    s.inn.bind fun c =>
      match s.sockets c with
      | [] => none
      | event :: events => some { s with
          sockets := Function.update s.sockets c events
          seat := s.seat.processInputEvent setup.touchDevice setup.output event }
  | .fallback =>
    if s.inn.isSome then
      some { s with inn := none, seat := s.seat.fallbackCb setup.touchDevice }
    else none

end State

end InputPath
end ACGlass
