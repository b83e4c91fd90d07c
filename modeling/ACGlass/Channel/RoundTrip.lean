import ACGlass.Channel.Wire

/-!
# Round trips on the data channel

Input events and window commands travel one way, window events the other. Each way is a
stream of messages, written by the library at one end and read by the polling call of the
other.
-/

namespace ACGlass
namespace Channel

open Framing Transition

variable {φ ψ : Type*}

/-- A consumer with a connected data channel. -/
structure LiveConsumer (φ : Type*) where
  ctx : Consumer.Ctx φ
  fd : φ
  fallback : ctx.fallback = false
  dataFd : ctx.dataFd = some fd

/-- A producer with a connected data channel. -/
structure LiveProducer (φ : Type*) where
  ctx : Producer.Ctx φ
  fd : φ
  fallback : ctx.fallback = false
  dataFd : ctx.dataFd = some fd

/-- One direction of a channel. `result` is what a call returns that has read a message or
none, and `sent` what it should return for a message. -/
structure Direction (μ : Type*) where
  codec : Codec UInt8 μ
  result : Option Bytes → Int × Option Bytes
  sent : μ → Int × Option Bytes
  result_none : (result none).1 = 0
  result_encode : ∀ m, result (some (codec.encode m)) = sent m
  sent_pos : ∀ m, 0 < (sent m).1

namespace Direction

variable {μ : Type*} (D : Direction μ)

/-- What the calls have returned that returned a positive value. -/
def returned (s : Link UInt8 μ) : List (Int × Option Bytes) :=
  (s.calls.map D.result).filter fun r => 0 < r.1

/-- The calls have returned what was sent, in order and so far, and can go on to return the
rest of it. -/
def RoundTrip (s : Link UInt8 μ) : Prop :=
  D.returned s <+: s.written.map D.sent ∧
    ∃ t, Link.Drains D.codec s t ∧ D.returned t = s.written.map D.sent

theorem returned_eq {s : Link UInt8 μ} {ms : List μ} (h : s.received = ms.map D.codec.encode) :
    D.returned s = ms.map D.sent := by
  have hcalls : ∀ calls : List (Option Bytes), (calls.map D.result).filter (fun r => 0 < r.1) =
      (calls.reduceOption.map (D.result ∘ some)).filter fun r => 0 < r.1 := by
    intro calls
    induction calls with
    | nil => rfl
    | cons c calls ih =>
      cases c with
      | none => simpa [D.result_none] using ih
      | some bs => simp [List.filter_cons, ih]
  have hresult : (ms.map D.codec.encode).map (D.result ∘ some) = ms.map D.sent := by
    simp [D.result_encode]
  have hpos : ∀ r ∈ ms.map D.sent, decide (0 < r.1) = true := by
    simp [D.sent_pos]
  rw [returned, hcalls, ← Link.received, h, hresult, List.filter_eq_self.mpr hpos]

theorem roundTrip {s : Link UInt8 μ} (h : s.InStep D.codec) (acts : List (Act μ)) :
    Always (Link.step D.codec) D.RoundTrip s acts := by
  refine always_of_invariant (I := Link.InStep D.codec) (fun _ _ _ h hs => h.step hs) ?_ h acts
  intro s hs
  obtain ⟨⟨rest, hrest⟩, t, hdrains, ht⟩ := hs.roundTrip
  obtain ⟨read, unread, hwritten, hread, -⟩ := List.map_eq_append_iff.mp hrest.symm
  refine ⟨?_, t, hdrains, D.returned_eq ht⟩
  rw [D.returned_eq hread.symm, hwritten, List.map_append]
  exact List.prefix_append _ _

end Direction

/-- What the consumer library sends to the producer. -/
inductive DisplayMsg
  | inputEvent (event : Image inputEventSize)
  | windowCommand (command : Image windowCommandSize)

namespace DisplayMsg

def push (ctx : Consumer.Ctx φ) (calls : Consumer.FallbackCalls φ) : DisplayMsg → Consumer.Out φ
  | .inputEvent event => ctx.pushInputEvent event.1 true calls
  | .windowCommand command => ctx.pushWindowCommand command.1 true calls

def type : DisplayMsg → DataType
  | .inputEvent _ => .inputEvent
  | .windowCommand _ => .windowCommand

def image : DisplayMsg → Bytes
  | .inputEvent event => event.1
  | .windowCommand command => command.1

/-- What `poll_display_event` should return for the message. -/
def sent : DisplayMsg → Int × Option Bytes
  | .inputEvent event => (Producer.Ctx.inputEventRet, some event.1)
  | .windowCommand command => (Producer.Ctx.windowCommandRet, some command.1)

/-- A push writes one message. -/
theorem push_wire (c : LiveConsumer φ) (calls : Consumer.FallbackCalls φ) (m : DisplayMsg) :
    (m.push c.ctx calls).effs.flatMap Consumer.Effect.wire = dataBytes m.type m.image := by
  cases m with
  | inputEvent event =>
    simp [push, Consumer.Ctx.pushInputEvent, c.fallback, c.dataFd, Consumer.Effect.wire, type, image]
  | windowCommand command =>
    simp [push, Consumer.Ctx.pushWindowCommand, c.fallback, c.dataFd, Consumer.Effect.wire, type,
      image]

/-- The header as it is peeked. -/
def header (m : DisplayMsg) : DataMsg := ⟨m.type, m.image.length⟩

theorem ofBytes_header (m : DisplayMsg) (rest : Bytes) :
    .ofBytes (m.header.bytes ++ rest) = m.header := by
  cases m with
  | inputEvent event =>
    exact DataMsg.ofBytes_bytes rfl (by simp [header, image, event.2, inputEventSize]) rest
  | windowCommand command =>
    exact DataMsg.ofBytes_bytes rfl (by simp [header, image, command.2, windowCommandSize]) rest

/-- `poll_display_event` at the header of a message, with `payload` behind it. -/
theorem poll_peeked (p : LiveProducer ψ) (m : DisplayMsg) (payload : Bytes) :
    p.ctx.pollDisplayEvent (.peeked m.header (some payload)) =
      (⟨p.ctx, [.recvAll (dataMsgSize + m.image.length)], m.sent.1⟩, some payload) := by
  cases m with
  | inputEvent event =>
    simp [Producer.Ctx.pollDisplayEvent, Producer.Ctx.takeMessage, p.fallback, header, type, image,
      sent, event.2]
  | windowCommand command =>
    simp [Producer.Ctx.pollDisplayEvent, Producer.Ctx.takeMessage, p.fallback, header, type, image,
      sent, command.2]

theorem sent_eq (m : DisplayMsg) : m.sent = (m.sent.1, some m.image) := by
  cases m <;> rfl

end DisplayMsg

/-- What `poll_display_event` reads with `recv_all` behind a header. -/
def readLength (effs : List (Producer.Effect ψ)) : Option ℕ :=
  effs.findSome? fun
    | .recvAll len => some len
    | _ => none

def displayDirection (c : LiveConsumer φ) (calls : Consumer.FallbackCalls φ) (p : LiveProducer ψ) :
    Direction DisplayMsg where
  codec :=
    { header := dataMsgSize
      header_pos := by decide
      total := fun hdr =>
        readLength (p.ctx.pollDisplayEvent (.peeked (.ofBytes hdr) (some []))).1.effs
      encode := fun m => (m.push c.ctx calls).effs.flatMap Consumer.Effect.wire
      header_le := by
        intro m
        simp [DisplayMsg.push_wire]
      total_encode := by
        intro m
        have htake : (dataBytes m.type m.image).take dataMsgSize = m.header.bytes :=
          take_dataBytes _ _
        have hheader : .ofBytes m.header.bytes = m.header := by
          simpa using m.ofBytes_header []
        rw [DisplayMsg.push_wire, htake, hheader, DisplayMsg.poll_peeked, length_dataBytes]
        rfl }
  result
    | none =>
      let (out, event) := p.ctx.pollDisplayEvent .short
      (out.ret, event)
    | some bs =>
      let (out, event) := p.ctx.pollDisplayEvent
        (.peeked (.ofBytes bs) (some (bs.drop dataMsgSize)))
      (out.ret, event)
  sent := DisplayMsg.sent
  result_none := by simp [Producer.Ctx.pollDisplayEvent, p.fallback]
  result_encode := by
    intro m
    have hheader : .ofBytes (dataBytes m.type m.image) = m.header := m.ofBytes_header m.image
    dsimp only
    rw [DisplayMsg.push_wire, drop_dataBytes, hheader, DisplayMsg.poll_peeked, DisplayMsg.sent_eq]
  sent_pos := by
    intro m
    cases m <;> simp [DisplayMsg.sent, Producer.Ctx.inputEventRet, Producer.Ctx.windowCommandRet]

/-- What the producer library sends to the consumer. -/
abbrev WindowMsg := Image windowEventSize

namespace WindowMsg

def push (p : LiveProducer ψ) (m : WindowMsg) : Producer.Out ψ := p.ctx.pushWindowEvent m.1 true

theorem push_wire (p : LiveProducer ψ) (m : WindowMsg) :
    (push p m).effs.flatMap Producer.Effect.wire = dataBytes .windowEvent m.1 := by
  simp [push, Producer.Ctx.pushWindowEvent, p.fallback, p.dataFd, Producer.Effect.wire]

def header : DataMsg := ⟨.windowEvent, windowEventSize⟩

theorem ofBytes_header (rest : Bytes) : .ofBytes (header.bytes ++ rest) = header :=
  DataMsg.ofBytes_bytes rfl (by simp [header, windowEventSize]) rest

theorem dataBytes_eq (m : WindowMsg) : dataBytes .windowEvent m.1 = header.bytes ++ m.1 := by
  rw [dataBytes, m.2]
  rfl

theorem poll_peeked (c : LiveConsumer φ) (calls : Consumer.FallbackCalls φ) (event : Bytes) :
    c.ctx.pollWindowEvent (.peeked header (some event)) calls = (⟨c.ctx, [], 1⟩, some event) := by
  simp [Consumer.Ctx.pollWindowEvent, c.fallback, header]

end WindowMsg

/-- `poll_window_event` reads on if it takes the header. -/
def windowDirection (p : LiveProducer ψ) (c : LiveConsumer φ) (calls : Consumer.FallbackCalls φ) :
    Direction WindowMsg where
  codec :=
    { header := dataMsgSize
      header_pos := by decide
      total := fun hdr =>
        if (c.ctx.pollWindowEvent (.peeked (.ofBytes hdr) (some [])) calls).1.ret = 1 then
          some (dataMsgSize + windowEventSize)
        else none
      encode := fun m => (WindowMsg.push p m).effs.flatMap Producer.Effect.wire
      header_le := by
        intro m
        simp [WindowMsg.push_wire]
      total_encode := by
        intro m
        have htake : (dataBytes .windowEvent m.1).take dataMsgSize = WindowMsg.header.bytes := by
          rw [take_dataBytes, m.2]
          rfl
        have hheader : .ofBytes WindowMsg.header.bytes = WindowMsg.header := by
          simpa using WindowMsg.ofBytes_header []
        rw [WindowMsg.push_wire, htake, hheader, WindowMsg.poll_peeked, length_dataBytes, m.2]
        rfl }
  result
    | none =>
      let (out, event) := c.ctx.pollWindowEvent .short calls
      (out.ret, event)
    | some bs =>
      let (out, event) := c.ctx.pollWindowEvent
        (.peeked (.ofBytes bs) (some (bs.drop dataMsgSize))) calls
      (out.ret, event)
  sent := fun m => (1, some m.1)
  result_none := by simp [Consumer.Ctx.pollWindowEvent, c.fallback]
  result_encode := by
    intro m
    have hheader : .ofBytes (dataBytes .windowEvent m.1) = WindowMsg.header := by
      rw [WindowMsg.dataBytes_eq, WindowMsg.ofBytes_header]
    dsimp only
    rw [WindowMsg.push_wire, drop_dataBytes, hheader, WindowMsg.poll_peeked]
  sent_pos := by
    intro m
    exact Int.one_pos

/-- Either way, however the bytes arrive, the polling calls return what was sent, in order
and without loss. -/
theorem data_channel_round_trip (c : LiveConsumer φ) (p : LiveProducer ψ)
    (calls : Consumer.FallbackCalls φ) :
    (∀ acts, Always (Link.step (displayDirection c calls p).codec)
        (displayDirection c calls p).RoundTrip .empty acts) ∧
      ∀ acts, Always (Link.step (windowDirection p c calls).codec)
        (windowDirection p c calls).RoundTrip .empty acts :=
  ⟨(displayDirection c calls p).roundTrip Link.inStep_empty,
    (windowDirection p c calls).roundTrip Link.inStep_empty⟩

end Channel
end ACGlass
