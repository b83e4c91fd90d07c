import ACGlass.Channel.RoundTrip

/-!
# Two senders on the data socket

The render thread leaves fallback and then announces the buffers with two sends. A thread of the
user interface tests whether fallback is over and sends an event some time later, to whatever
socket there is then. The producer expects the announcement first, and in one piece.
-/

namespace ACGlass
namespace Channel

open Framing Transition

variable {φ : Type*}

/-- A consumer in fallback with buffers to announce, and the data socket of its new
channel. -/
structure WaitingConsumer (φ : Type*) where
  ctx : Consumer.Ctx φ
  fd : φ
  fallback : ctx.fallback = true
  dataFd : ctx.dataFd = some fd
  stored_pos : 0 < ctx.stored.length
  stored_le : ctx.stored.length ≤ maxBufs

/-- The consumer when it has left fallback. -/
def WaitingConsumer.live (c : WaitingConsumer φ) : LiveConsumer φ where
  ctx := { c.ctx with fallback := false }
  fd := c.fd
  fallback := rfl
  dataFd := c.dataFd

/-- A producer that has picked up the channel and has no buffers. -/
structure FreshProducer (φ : Type*) extends LiveProducer φ where
  bufs : ctx.bufs = []

/-- Where the render thread is in `try_exit_fallback`. -/
inductive Render
  | waiting
  | cleared
  | headerSent
  | done
  deriving DecidableEq, Repr

/-- The data socket with the whole sends so far, the first with its descriptors, and the
events that were sent. `passed` are the events of the threads that have found fallback over and
have not sent yet. -/
structure Senders (φ : Type*) where
  ctx : Consumer.Ctx φ
  render : Render
  passed : List DisplayMsg
  sends : List (Bytes × List φ)
  events : List DisplayMsg

/-- The steps of the render thread in their order, and the two steps of a push of the user
interface: the test of `fallback`, and the send of the `i`-th of those that have passed it. -/
inductive SendAct
  | exitFallback
  | sendHeader
  | sendInfos
  | test (m : DisplayMsg)
  | send (i : ℕ)

namespace Senders

variable (s : Senders φ)

/-- Some threads may have passed the test before the consumer fell back and got its new data
socket. -/
def start (c : WaitingConsumer φ) (passed : List DisplayMsg) : Senders φ :=
  ⟨c.ctx, .waiting, passed, [], []⟩

def infos : List BufInfo := s.ctx.stored.map Prod.snd

def step : SendAct → Option (Senders φ)
  | .exitFallback =>
    if s.render = .waiting then
      some { s with ctx := { s.ctx with fallback := false }, render := .cleared }
    else none
  | .sendHeader =>
    if s.render = .cleared then
      some { s with
        render := .headerSent
        sends := s.sends ++ [((bufsReadyBytes s.infos).1, s.ctx.stored.map Prod.fst)] }
    else none
  | .sendInfos =>
    if s.render = .headerSent then
      some { s with render := .done, sends := s.sends ++ [((bufsReadyBytes s.infos).2, [])] }
    else none
  | .test m => if s.ctx.fallback then some s else some { s with passed := s.passed ++ [m] }
  | .send i =>
    s.passed[i]?.map fun m => { s with
      passed := s.passed.eraseIdx i
      sends := s.sends ++ [(dataBytes m.type m.image, [])]
      events := s.events ++ [m] }

def stream : Bytes := s.sends.flatMap Prod.fst

/-- The descriptors that a receive at the start of the stream gets. -/
def firstFds : List φ := (s.sends.head?.map Prod.snd).getD []

/-- What the events alone put on the wire. -/
def eventBytes : Bytes := s.events.flatMap fun m => dataBytes m.type m.image

/-- No event is sent before the header, and events between the header and the array, if
any, leave the same bytes as events behind it. -/
def Undisturbed : SendAct → Prop
  | .send _ => s.render ≠ .waiting ∧ s.render ≠ .cleared
  | .sendInfos =>
    s.eventBytes ++ (bufsReadyBytes s.infos).2 = (bufsReadyBytes s.infos).2 ++ s.eventBytes
  | _ => True

instance : ∀ a, Decidable (s.Undisturbed a)
  | .send _ => inferInstanceAs (Decidable (_ ∧ _))
  | .sendInfos => inferInstanceAs (Decidable (_ = _))
  | .exitFallback | .sendHeader | .test _ => isTrue trivial

end Senders

/-- The array that `recv_all` fills, `n` entries of it. -/
def infosOf : ℕ → Bytes → List BufInfo
  | 0, _ => []
  | n + 1, bs => .ofBytes bs :: infosOf n (bs.drop bufInfoSize)

/-- The calls of `receive_dmabufs` at the start of a stream. -/
def bufsCalls (stream : Bytes) (fds : List φ) : Producer.BufsCalls φ where
  msg := some ⟨dataMsgSize, .ofBytes stream, fds⟩
  infos := some (infosOf ((DataMsg.ofBytes stream).size / bufInfoSize) (stream.drop dataMsgSize))

/-- The part of the stream behind the first message. -/
def restOf (stream : Bytes) : Bytes := stream.drop (dataMsgSize + (DataMsg.ofBytes stream).size)

/-- A sequence of complete messages that starts with `BUFS_READY`. -/
def StartsWithBufs (stream : Bytes) : Prop :=
  ∃ (payload : Bytes) (msgs : List (DataType × Bytes)),
    stream = dataBytes .bufsReady payload ++ msgs.flatMap fun m => dataBytes m.1 m.2

/-- `receive_dmabufs` returns the buffers, and the calls of `poll_display_event` behind it the
events. -/
def Decodes (c : WaitingConsumer φ) (p : FreshProducer φ) (calls : Consumer.FallbackCalls φ)
    (s : Senders φ) : Prop :=
  (p.ctx.receiveDmabufs (bufsCalls s.stream s.firstFds)).ctx.bufs = c.ctx.stored ∧
    ∃ live : LiveProducer φ,
      live.ctx = (p.ctx.receiveDmabufs (bufsCalls s.stream s.firstFds)).ctx ∧
        ∀ acts : List (Act DisplayMsg), Always (Link.step (displayDirection c.live calls live).codec)
          (displayDirection c.live calls live).RoundTrip
            ⟨s.events, restOf s.stream, [], .idle, []⟩ acts

/-- Once the buffers are announced, the stream is framed and decodes to what was sent. -/
def Framed (c : WaitingConsumer φ) (p : FreshProducer φ) (calls : Consumer.FallbackCalls φ)
    (s : Senders φ) : Prop :=
  s.render = .done → StartsWithBufs s.stream ∧ Decodes c p calls s

theorem infosOf_flatMap (infos : List BufInfo) (rest : Bytes) :
    infosOf infos.length (infos.flatMap BufInfo.bytes ++ rest) = infos := by
  induction infos with
  | nil => rfl
  | cons info infos ih =>
    rw [List.length_cons, infosOf, List.flatMap_cons, List.append_assoc, info.ofBytes_bytes,
      List.drop_left' info.length_bytes, ih]

theorem length_infos (infos : List BufInfo) :
    (infos.flatMap BufInfo.bytes).length = infos.length * bufInfoSize := by
  induction infos with
  | nil => rfl
  | cons info infos ih =>
    rw [List.flatMap_cons, List.length_append, info.length_bytes, ih, List.length_cons,
      Nat.succ_mul, Nat.add_comm]

namespace WaitingConsumer

variable (c : WaitingConsumer φ)

def infos : List BufInfo := c.ctx.stored.map Prod.snd

def fds : List φ := c.ctx.stored.map Prod.fst

/-- The header of the announcement. -/
def hdr : DataMsg := ⟨.bufsReady, c.infos.length * bufInfoSize⟩

def payload : Bytes := c.infos.flatMap BufInfo.bytes

theorem length_infos_eq : c.infos.length = c.ctx.stored.length := List.length_map _

theorem hdr_size : c.hdr.size = c.payload.length := (length_infos c.infos).symm

theorem ofBytes_hdr (rest : Bytes) : .ofBytes (c.hdr.bytes ++ rest) = c.hdr := by
  have hle := c.stored_le
  apply DataMsg.ofBytes_bytes rfl
  simp only [hdr, length_infos_eq, bufInfoSize, maxBufs] at hle ⊢
  omega

/-- The announcement in front of the stream is what `receive_dmabufs` takes. -/
theorem receiveDmabufs_eq (p : FreshProducer φ) (rest : Bytes) :
    p.ctx.receiveDmabufs (bufsCalls (c.hdr.bytes ++ (c.payload ++ rest)) c.fds) =
      ⟨{ p.ctx with bufs := c.ctx.stored }, [.received c.fds, .recvAll c.hdr.size], 0⟩ := by
  have hpos := c.stored_pos
  have hle := c.stored_le
  have hlen : c.fds.length = c.ctx.stored.length := List.length_map _
  have hsize : c.hdr.size / bufInfoSize = c.fds.length := by
    rw [hlen, ← c.length_infos_eq]
    exact Nat.mul_div_cancel _ (by decide)
  have htake : c.fds.take maxBufs = c.fds := List.take_of_length_le (by omega)
  have hzip : c.fds.zip c.infos = c.ctx.stored :=
    (List.zip_of_prod rfl rfl).symm
  have hcalls : bufsCalls (c.hdr.bytes ++ (c.payload ++ rest)) c.fds =
      ⟨some ⟨dataMsgSize, c.hdr, c.fds⟩, some c.infos⟩ := by
    have hinfos : infosOf (c.hdr.size / bufInfoSize) (c.payload ++ rest) = c.infos := by
      rw [hsize, hlen, ← c.length_infos_eq]
      exact infosOf_flatMap c.infos rest
    rw [bufsCalls, c.ofBytes_hdr, List.drop_left' c.hdr.length_bytes, hinfos]
  have hrecv : recvFds maxBufs (some (⟨dataMsgSize, c.hdr, c.fds⟩ : Recvmsg DataMsg φ)) =
      some ⟨dataMsgSize, c.hdr, c.fds.take maxBufs, by decide, List.length_take_le _ _⟩ := rfl
  unfold Producer.Ctx.receiveDmabufs
  rw [hcalls, p.bufs, if_neg (by simp)]
  simp only [hrecv, htake]
  rw [if_neg (by omega), if_neg (by simp [hdr]), if_neg (by omega), hzip]

/-- Behind the announcement the producer is still connected. -/
def received (p : FreshProducer φ) : LiveProducer φ where
  ctx := { p.ctx with bufs := c.ctx.stored }
  fd := p.fd
  fallback := p.fallback
  dataFd := p.dataFd

end WaitingConsumer

namespace Senders

variable {c : WaitingConsumer φ} {p : FreshProducer φ} {calls : Consumer.FallbackCalls φ}
  {s s' : Senders φ}

/-- The announcement stands first, and the events behind it. -/
structure Announced (c : WaitingConsumer φ) (s : Senders φ) : Prop where
  stream : s.stream = c.hdr.bytes ++ (c.payload ++ s.eventBytes)
  firstFds : s.firstFds = c.fds

theorem Announced.startsWithBufs (h : s.Announced c) : StartsWithBufs s.stream := by
  refine ⟨c.payload, s.events.map fun m => (m.type, m.image), ?_⟩
  have hhdr : dataBytes .bufsReady c.payload = c.hdr.bytes ++ c.payload := by
    rw [dataBytes, ← c.hdr_size]
    rfl
  rw [h.stream, hhdr, List.append_assoc, List.flatMap_map]
  rfl

theorem Announced.decodes (h : s.Announced c) : Decodes c p calls s := by
  have hrecv := c.receiveDmabufs_eq p s.eventBytes
  rw [← h.stream, ← h.firstFds] at hrecv
  have hrest : restOf s.stream = s.eventBytes := by
    rw [restOf, h.stream, c.ofBytes_hdr, ← List.drop_drop, List.drop_left' c.hdr.length_bytes,
      List.drop_left' c.hdr_size.symm]
  refine ⟨by rw [hrecv], c.received p, by rw [hrecv]; rfl, fun acts => ?_⟩
  apply Direction.roundTrip
  refine .between s.events rfl rfl ?_
  rw [List.nil_append, hrest]
  exact List.flatMap_congr fun m _ => (DisplayMsg.push_wire c.live calls m).symm

/-- How far the announcement has got, and that no event is in front of it. -/
inductive InTurn (c : WaitingConsumer φ) (s : Senders φ) : Prop
  | waiting (render : s.render = .waiting) (ctx : s.ctx = c.ctx) (sends : s.sends = [])
      (events : s.events = [])
  | cleared (render : s.render = .cleared) (ctx : s.ctx = c.live.ctx) (sends : s.sends = [])
      (events : s.events = [])
  | headerSent (render : s.render = .headerSent) (ctx : s.ctx = c.live.ctx)
      (stream : s.stream = c.hdr.bytes ++ s.eventBytes) (firstFds : s.firstFds = c.fds)
      (started : s.sends ≠ [])
  | done (render : s.render = .done) (ctx : s.ctx = c.live.ctx) (announced : s.Announced c)
      (started : s.sends ≠ [])

theorem stream_append {send : Bytes × List φ} (h : s'.sends = s.sends ++ [send]) :
    s'.stream = s.stream ++ send.1 := by
  simp [stream, h]

theorem firstFds_append {send : Bytes × List φ} (h : s'.sends = s.sends ++ [send])
    (hne : s.sends ≠ []) : s'.firstFds = s.firstFds := by
  obtain ⟨x, l, hx⟩ := List.exists_cons_of_ne_nil hne
  simp [firstFds, h, hx]

theorem eventBytes_append {m : DisplayMsg} (h : s'.events = s.events ++ [m]) :
    s'.eventBytes = s.eventBytes ++ dataBytes m.type m.image := by
  simp [eventBytes, h]

/-- What a test of `fallback` changes, nobody on the socket sees. -/
theorem step_test {m : DisplayMsg} (hs : s.step (.test m) = some s') :
    ∃ passed, s' = { s with passed } := by
  rw [Senders.step] at hs
  split_ifs at hs
  · exact ⟨s.passed, (Option.some.inj hs).symm⟩
  · exact ⟨_, (Option.some.inj hs).symm⟩

/-- A send is one whole message. -/
theorem step_send {i : ℕ} (hs : s.step (.send i) = some s') :
    ∃ m passed, s' = { s with
      passed, sends := s.sends ++ [(dataBytes m.type m.image, [])], events := s.events ++ [m] } := by
  obtain ⟨m, -, rfl⟩ := Option.map_eq_some_iff.mp hs
  exact ⟨m, _, rfl⟩

theorem infos_eq (hctx : s.ctx = c.live.ctx) : s.infos = c.infos := by
  rw [infos, hctx]
  rfl

theorem InTurn.test (h : s.InTurn c) (passed : List DisplayMsg) :
    InTurn c { s with passed } := by
  cases h with
  | waiting render ctx sends events => exact .waiting render ctx sends events
  | cleared render ctx sends events => exact .cleared render ctx sends events
  | headerSent render ctx stream firstFds started =>
    exact .headerSent render ctx stream firstFds started
  | done render ctx announced started =>
    exact .done render ctx ⟨announced.stream, announced.firstFds⟩ started

theorem InTurn.send (h : s.InTurn c) {i : ℕ} (hu : s.Undisturbed (.send i))
    (hs : s.step (.send i) = some s') : s'.InTurn c := by
  obtain ⟨m, passed, rfl⟩ := step_send hs
  cases h with
  | waiting render => exact absurd render hu.1
  | cleared render => exact absurd render hu.2
  | headerSent render ctx stream firstFds started =>
    refine .headerSent render ctx ?_ ?_ (by simp)
    · rw [stream_append rfl, eventBytes_append rfl, ← List.append_assoc, ← stream]
    · rw [firstFds_append rfl started, firstFds]
  | done render ctx announced started =>
    refine .done render ctx ⟨?_, ?_⟩ (by simp)
    · rw [stream_append rfl, eventBytes_append rfl, announced.stream]
      simp only [List.append_assoc]
    · rw [firstFds_append rfl started, announced.firstFds]

theorem InTurn.step (h : s.InTurn c) {a : SendAct} (hu : s.Undisturbed a)
    (hs : s.step a = some s') : s'.InTurn c := by
  cases a with
  | test m =>
    obtain ⟨passed, rfl⟩ := step_test hs
    exact h.test passed
  | send i => exact h.send hu hs
  | exitFallback =>
    simp only [Senders.step] at hs
    split at hs
    · rename_i hrender
      obtain rfl := Option.some.inj hs
      cases h with
      | waiting render ctx sends events =>
        exact .cleared rfl (congrArg (fun ctx => { ctx with fallback := false }) ctx) sends events
      | cleared render => simp [hrender] at render
      | headerSent render => simp [hrender] at render
      | done render => simp [hrender] at render
    · cases hs
  | sendHeader =>
    simp only [Senders.step] at hs
    split at hs
    · rename_i hrender
      obtain rfl := Option.some.inj hs
      cases h with
      | waiting render => simp [hrender] at render
      | cleared render ctx sends events =>
        refine .headerSent rfl ctx ?_ ?_ (by simp)
        · simp only [stream, eventBytes, sends, events, infos_eq ctx, List.nil_append,
            List.flatMap_cons, List.flatMap_nil, List.append_nil]
          rfl
        · simp [firstFds, sends, ctx]
          rfl
      | headerSent render => simp [hrender] at render
      | done render => simp [hrender] at render
    · cases hs
  | sendInfos =>
    simp only [Senders.step] at hs
    split at hs
    · rename_i hrender
      cases h with
      | waiting render => simp [hrender] at render
      | cleared render => simp [hrender] at render
      | headerSent render ctx stream firstFds started =>
        have hcommute : s.eventBytes ++ c.payload = c.payload ++ s.eventBytes := by
          rw [Undisturbed, infos_eq ctx] at hu
          exact hu
        obtain rfl := Option.some.inj hs
        refine .done rfl ctx ⟨?_, ?_⟩ (by simp)
        · rw [stream_append rfl, stream, List.append_assoc, infos_eq ctx]
          exact congrArg _ hcommute
        · rw [firstFds_append rfl started, firstFds]
      | done render => simp [hrender] at render
    · cases hs

theorem InTurn.framed (h : s.InTurn c) : Framed c p calls s := by
  intro hdone
  cases h with
  | waiting render => simp [hdone] at render
  | cleared render => simp [hdone] at render
  | headerSent render => simp [hdone] at render
  | done render ctx announced started => exact ⟨announced.startsWithBufs, announced.decodes⟩

end Senders

/-- Alone, the steps of the render thread are `try_exit_fallback` with sends that succeed. -/
theorem exec_render (c : WaitingConsumer φ) (passed : List DisplayMsg)
    (push : Consumer.PushCalls φ) (hfds : push.sendFdsOk = true) (hall : push.sendAllOk = true) :
    ∃ s, exec Senders.step (.start c passed) [.exitFallback, .sendHeader, .sendInfos] = some s ∧
      (s.ctx, s.stream) = Prod.map id (List.flatMap Consumer.Effect.wire)
        (c.ctx.tryExitFallback (some .fdsReady) push) := by
  have hne : c.ctx.stored ≠ [] := List.ne_nil_of_length_pos c.stored_pos
  refine ⟨_, rfl, ?_⟩
  simp [Consumer.Ctx.tryExitFallback, Consumer.Ctx.pushDmabufsInternal, hne, hfds, hall, c.dataFd,
    Senders.start, Senders.stream, Senders.infos, Consumer.Effect.wire]

/-- Alone, the two steps of the user interface are a push whose send succeeds. -/
theorem exec_push (c : LiveConsumer φ) (calls : Consumer.FallbackCalls φ) {s : Senders φ}
    (hctx : s.ctx = c.ctx) (m : DisplayMsg) :
    exec Senders.step s [.test m, .send s.passed.length] = some { s with
      sends := s.sends ++ [((m.push s.ctx calls).effs.flatMap Consumer.Effect.wire, [])]
      events := s.events ++ [m] } := by
  have hfallback : s.ctx.fallback = false := by rw [hctx, c.fallback]
  have hsend : (m.push s.ctx calls).effs.flatMap Consumer.Effect.wire = dataBytes m.type m.image := by
    rw [hctx, DisplayMsg.push_wire]
  have hpassed : (s.passed ++ [m]).eraseIdx s.passed.length = s.passed := by
    rw [List.eraseIdx_append_of_length_le le_rfl]
    simp
  rw [hsend]
  simp [Senders.step, hfallback, hpassed]

/-- In every interleaving in which no event is in front of the announcement or inside of it,
the stream is framed and decodes to the buffers and the events. -/
theorem framed_of_undisturbed (c : WaitingConsumer φ) (p : FreshProducer φ)
    (calls : Consumer.FallbackCalls φ) (passed : List DisplayMsg) (acts : List SendAct)
    (h : Along Senders.step (fun s a _ => s.Undisturbed a) (.start c passed) acts) :
    Along Senders.step (fun _ _ s => Framed c p calls s) (.start c passed) acts := by
  refine along_of_guard (I := Senders.InTurn c) ?_ (.waiting rfl rfl rfl rfl) h
  intro s a s' hs hstep hu
  have hs' := hs.step hu hstep
  exact ⟨hs', hs'.framed⟩

/-- One buffer to announce. -/
def oneBuffer : WaitingConsumer ℕ where
  ctx := { Consumer.Ctx.fresh with dataFd := some 5, stored := [(7, ⟨64, 1, 0, 0⟩)] }
  fd := 5
  fallback := rfl
  dataFd := rfl
  stored_pos := by decide
  stored_le := by decide

def pickedUp : FreshProducer ℕ where
  ctx := { Producer.Ctx.fresh 3 with dataFd := some 6, fallback := false }
  fd := 6
  fallback := rfl
  dataFd := rfl
  bufs := rfl

def noFallback : Consumer.FallbackCalls ℕ := ⟨none, none, ⟨none, false, false⟩, ⟨none, false⟩⟩

def touchFrame : DisplayMsg := .inputEvent ⟨[6] ++ List.replicate 19 0, rfl⟩

/-- Events behind the announcement do no harm, even if one has been tested before it. -/
theorem framed_of_undisturbed_touchFrame :
    Along Senders.step (fun _ _ s => Framed oneBuffer pickedUp noFallback s)
      (.start oneBuffer [touchFrame])
      [.exitFallback, .test touchFrame, .sendHeader, .sendInfos, .send 1, .send 0] :=
  framed_of_undisturbed oneBuffer pickedUp noFallback _ _ (by decide)

/-- An event that slips in front of the announcement. -/
def eventFirst : List SendAct :=
  [.exitFallback, .test touchFrame, .send 0, .sendHeader, .sendInfos]

/-- It costs the producer the buffers. -/
theorem eventFirst_not_framed :
    ¬ Along Senders.step (fun _ _ s => Framed oneBuffer pickedUp noFallback s)
      (.start oneBuffer []) eventFirst := by
  intro h
  have hlast := Along.at (eventFirst.take 4) h rfl rfl
  have hbufs := ((hlast rfl).2).1
  exact absurd hbufs (by decide)

end Channel
end ACGlass
