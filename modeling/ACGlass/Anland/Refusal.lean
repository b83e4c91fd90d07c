import ACGlass.Anland.InStep
import ACGlass.Channel.Announcement

/-!
# A buffer message that is refused

`anland_buf_ready_handler` takes the token of a frame from the eventfd before
`receive_dmabufs` looks at the message. A failure closes the channel, or leaves the message
half read.
-/

namespace ACGlass
namespace Anland

open Transition
open ACGlass.Channel (Announcement Receipt receiveDmabufsCounted)

variable {φ ρ : Type*}

/-- The positions of a stream at which a data message starts. -/
inductive Starts : Bytes → ℕ → Prop
  | here (stream : Bytes) : Starts stream 0
  | behind {stream : Bytes} {pos : ℕ}
      (complete : dataMsgSize + (DataMsg.ofBytes stream).size ≤ stream.length)
      (next : Starts (stream.drop (dataMsgSize + (DataMsg.ofBytes stream).size)) pos) :
      Starts stream (dataMsgSize + (DataMsg.ofBytes stream).size + pos)

/-- A stream at the start of a message, the part of its header that one `recvmsg` gets, and
the descriptors that come with it. -/
structure Incoming (φ : Type*) where
  stream : Bytes
  n : ℕ
  fds : List φ
  n_le : n ≤ dataMsgSize
  arrived : n ≤ stream.length
  fds_le : fds.length ≤ maxBufs

namespace Incoming

variable (i : Incoming φ)

def announcement : Announcement φ where
  n := i.n
  hdr := .ofBytes i.stream
  fds := i.fds
  payload := i.stream.drop i.n
  n_le := i.n_le
  size_lt := by
    have hlt := Framing.ofLeBytes_lt ((i.stream.drop 4).take 4)
    have hlen : ((i.stream.drop 4).take 4).length ≤ 4 := List.length_take_le 4 _
    exact hlt.trans_le (Nat.pow_le_pow_right (by decide) hlen)
  fds_le := i.fds_le

/-- Where `receive_dmabufs` leaves the stream. -/
def position (ctx : Producer.Ctx φ) : ℕ :=
  if 0 < ctx.bufs.length then 0 else i.n + (receiveDmabufsCounted ctx i.announcement).2

/-- A whole header with descriptors that does not pass the tests. -/
structure Refused : Prop where
  complete : i.n = dataMsgSize
  fds : i.fds ≠ []
  tested : ¬ i.announcement.Tested

end Incoming

/-- Behind a header a message starts only if nothing belongs to the header. -/
theorem starts_header_iff {stream : Bytes} (hlen : dataMsgSize ≤ stream.length) :
    Starts stream dataMsgSize ↔ (DataMsg.ofBytes stream).size = 0 := by
  constructor
  · intro h
    generalize hpos : dataMsgSize = pos at h
    cases h with
    | here => exact absurd hpos (by decide)
    | behind complete next => omega
  · intro hsize
    have h : Starts stream (dataMsgSize + (DataMsg.ofBytes stream).size + 0) :=
      .behind (by omega) (.here _)
    rwa [hsize] at h

namespace Backend

variable {b : Backend φ ρ}

/-- A frame is owed only to a consumer whose buffers have been received. -/
def OwesReceived (b : Backend φ ρ) : Prop := b.consumerReady = true → b.dmabufReceived = true

theorem OwesReceived.returned (h : b.OwesReceived) (out : Producer.Out φ) :
    (b.returned out).1.OwesReceived := by
  unfold Backend.returned
  dsimp only
  split
  · intro hready
    cases hready
  · exact h

theorem OwesReceived.bufReady (h : b.OwesReceived) {fd : φ} {calls : BufReadyCalls φ ρ}
    {r : Backend φ ρ × List (Effect φ ρ)} (hr : b.bufReadyHandler fd calls = some r) :
    r.1.OwesReceived := by
  unfold bufReadyHandler at hr
  split at hr
  · rename_i hreceived
    obtain rfl := Option.some.inj hr
    exact fun _ => hreceived
  · obtain ⟨out, -, rfl⟩ := Option.map_eq_some_iff.mp hr
    dsimp only
    split
    · exact h.returned out
    · exact fun _ => rfl

theorem OwesReceived.sendWindowEvents (h : b.OwesReceived) (sends : List (Bytes × Bool)) :
    (b.sendWindowEvents sends).1.OwesReceived := by
  induction sends generalizing b with
  | nil => exact h
  | cons send sends ih => exact ih (h.returned _)

theorem OwesReceived.inputLoop (h : b.OwesReceived) (rounds : List InputRound) :
    (b.inputLoop rounds).1.OwesReceived := by
  induction rounds generalizing b with
  | nil => exact h
  | cons round rounds ih =>
    rw [Backend.inputLoop]
    dsimp only
    split
    · exact h.returned _
    · exact ih ((h.returned _).sendWindowEvents round.sends)

theorem OwesReceived.outputRepaint (h : b.OwesReceived) (damage : Region) (shm : UInt32) :
    (b.outputRepaint damage shm).1.OwesReceived := by
  unfold Backend.outputRepaint
  split
  · exact h
  · dsimp only
    split
    · intro hready
      cases hready
    · exact h

theorem OwesReceived.reconnectTimer (h : b.OwesReceived) (calls : Producer.ReconnectCalls φ) :
    (b.reconnectTimerHandler calls).1.OwesReceived := by
  unfold reconnectTimerHandler
  split
  · exact h
  · unfold Backend.tryReconnect
    dsimp only
    split
    · exact OwesReceived.returned (b := b.dropRenderbuffers) h _
    · exact OwesReceived.returned (b := b.dropRenderbuffers) h _

theorem OwesReceived.step {b' : Backend φ ρ} {call : Call φ ρ} (h : b.OwesReceived)
    (hs : b.step call = some b') : b'.OwesReceived := by
  cases call with
  | bufReady calls =>
    obtain ⟨fd, -, hs⟩ := Option.bind_eq_some_iff.mp hs
    obtain ⟨r, hr, rfl⟩ := Option.map_eq_some_iff.mp hs
    exact h.bufReady hr
  | inputFd rounds =>
    rw [Backend.step] at hs
    split at hs
    · obtain rfl := Option.some.inj hs
      unfold inputFdHandler
      split
      · exact h
      · exact h.inputLoop rounds
    · cases hs
  | reconnectTimer calls =>
    obtain rfl := Option.some.inj hs
    exact h.reconnectTimer calls
  | windowEvent event sendOk =>
    obtain rfl := Option.some.inj hs
    exact h.returned _
  | repaint damage shm =>
    obtain rfl := Option.some.inj hs
    exact h.outputRepaint damage shm
  | finishFrame =>
    obtain rfl := Option.some.inj hs
    exact h

theorem owesReceived_of_reaches {connect : Producer.ConnectCalls φ} {timer : Bool}
    {output : Output ρ} {b₀ : Backend φ ρ} (hb : backendCreate connect timer output = some b₀)
    (hreach : Reaches Backend.step b₀ b) : b.OwesReceived := by
  refine hreach.invariant (I := OwesReceived) (fun _ _ _ h hs => h.step hs) ?_
  obtain ⟨ctx, -, rfl⟩ := Option.map_eq_some_iff.mp hb
  intro hready
  cases hready

/-- The handler gets to `receive_dmabufs`, which fails. -/
structure FailsToReceive (b : Backend φ ρ) (polls : List Producer.BufferPoll) (i : Incoming φ) :
    Prop where
  first : b.dmabufReceived = false
  connected : b.display.fallback = false
  readable : Producer.Ctx.waitBuffer polls = some true
  fails : (b.display.waitBufferAsync.ctx.receiveDmabufs i.announcement.calls).ret < 0

end Backend

/-- What is left when `receive_dmabufs` fails in the handler. -/
theorem bufReadyHandler_failed {b b' : Backend φ ρ} {fd : φ} {pickup : Producer.PickupCalls φ}
    {polls : List Producer.BufferPoll} {i : Incoming φ} {created : List (Option ρ)}
    {effs : List (Effect φ ρ)} (hfail : b.FailsToReceive polls i)
    (hr : b.bufReadyHandler fd ⟨pickup, polls, i.announcement.calls, created⟩ = some (b', effs)) :
    b'.display.fallback =
      (b.display.waitBufferAsync.ctx.receiveDmabufs i.announcement.calls).ctx.fallback ∧
      (b.consumerReady = false → b'.consumerReady = false) := by
  obtain ⟨hfirst, hconnected, hreadable, hfails⟩ := hfail
  have hpending : b.display.waitBufferAsync.ctx.asyncPending = true := rfl
  have hlive : b.display.waitBufferAsync.ctx.fallback = false := hconnected
  simp only [Backend.bufReadyHandler, hfirst, Bool.false_eq_true, if_false,
    Producer.Ctx.waitBufferAsyncResult, hlive, Producer.Ctx.awaitBuffer, hpending, Bool.not_true,
    hreadable, Option.map_some, if_true, Option.some.injEq] at hr
  rw [if_pos (by omega)] at hr
  obtain ⟨rfl, -⟩ := Prod.mk.inj hr
  constructor
  · rw [Backend.returned_display]
  · intro hready
    unfold Backend.returned
    dsimp only
    split
    · rfl
    · exact hready

theorem Backend.FailsToReceive.bufs_eq_nil {b : Backend φ ρ} {polls : List Producer.BufferPoll}
    {i : Incoming φ} (h : b.FailsToReceive polls i) :
    b.display.waitBufferAsync.ctx.bufs = [] := by
  by_contra hne
  have hfails := h.fails
  have hlen : 0 < b.display.waitBufferAsync.ctx.bufs.length := List.length_pos_iff.mpr hne
  simp [Producer.Ctx.receiveDmabufs, hlen] at hfails

theorem Incoming.Refused.not_broken {i : Incoming φ} (h : i.Refused) :
    ¬ (i.announcement.n < dataMsgSize ∨ i.announcement.fds = []) := by
  rintro (hn | hnil)
  · exact absurd h.complete hn.ne
  · exact h.fds hnil

theorem starts_position_iff {i : Incoming φ} {ctx : Producer.Ctx φ} (hbufs : ctx.bufs = [])
    (hcomplete : i.n = dataMsgSize) (hread : (receiveDmabufsCounted ctx i.announcement).2 = 0) :
    Starts i.stream (i.position ctx) ↔ i.announcement.hdr.size = 0 := by
  have hpos : i.position ctx = dataMsgSize := by simp [Incoming.position, hbufs, hread, hcomplete]
  rw [hpos]
  exact starts_header_iff (hcomplete ▸ i.arrived)

/-- After the handler the channel is closed, or a message starts at the read position and the
consumer does not wait in vain. -/
structure Resynchronised (c : Consumer.Ctx φ) (b b' : Backend φ ρ) (i : Incoming φ) : Prop where
  position : b'.display.fallback = true ∨ Starts i.stream (i.position b.display.waitBufferAsync.ctx)
  token : c.bufferPending = true → b'.display.fallback = false → b'.consumerReady = true

/-- A failure leaves both parties in step if and only if the message is not refused, or has no
payload while the consumer is not waiting. -/
theorem resynchronised_iff_not_refused {connect : Producer.ConnectCalls φ} {timer : Bool}
    {output : Output ρ} {b₀ b b' : Backend φ ρ}
    (hb : backendCreate connect timer output = some b₀) (hreach : Reaches Backend.step b₀ b)
    {fd : φ} {pickup : Producer.PickupCalls φ} {polls : List Producer.BufferPoll} {i : Incoming φ}
    {created : List (Option ρ)} {effs : List (Effect φ ρ)} (hfail : b.FailsToReceive polls i)
    (hr : b.bufReadyHandler fd ⟨pickup, polls, i.announcement.calls, created⟩ = some (b', effs))
    (c : Consumer.Ctx φ) :
    Resynchronised c b b' i ↔
      (i.Refused → i.announcement.hdr.size = 0 ∧ c.bufferPending = false) := by
  obtain ⟨hfell, hready⟩ := bufReadyHandler_failed hfail hr
  have howes : b'.consumerReady = false := by
    apply hready
    by_contra hno
    have := Backend.owesReceived_of_reaches hb hreach (by simpa using hno)
    simp [hfail.first] at this
  have hlive : b.display.waitBufferAsync.ctx.fallback = false := hfail.connected
  have hbufs := hfail.bufs_eq_nil
  have hfails := hfail.fails
  have hreceipt := Channel.receiveDmabufsCounted_receipt hbufs i.announcement
  have hstarts := starts_position_iff (i := i) hbufs
  rw [← Channel.receiveDmabufsCounted_value] at hfails hfell
  generalize hcounted : receiveDmabufsCounted b.display.waitBufferAsync.ctx i.announcement = r at *
  cases hreceipt with
  | broken hbroken =>
    have hfallback : b'.display.fallback = true :=
      hfell.trans (Producer.Ctx.enterFallback_fallback _)
    exact ⟨fun _ h => absurd hbroken h.not_broken, fun _ => ⟨.inl hfallback, by simp [hfallback]⟩⟩
  | cut tested hcut =>
    have hfallback : b'.display.fallback = true :=
      hfell.trans (Producer.Ctx.enterFallback_fallback _)
    exact ⟨fun _ h => absurd tested h.tested, fun _ => ⟨.inl hfallback, by simp [hfallback]⟩⟩
  | stored tested harr => simp at hfails
  | refused complete fds tested =>
    have hfallback : b'.display.fallback = false := hfell.trans hlive
    constructor
    · rintro ⟨hposition, htoken⟩ -
      have hsize := (hstarts complete rfl).mp (hposition.resolve_left (by simp [hfallback]))
      refine ⟨hsize, ?_⟩
      by_contra hpending
      have := htoken (by simpa using hpending) hfallback
      simp [howes] at this
    · intro h
      obtain ⟨hsize, hidle⟩ := h ⟨complete, fds, tested⟩
      exact ⟨.inr ((hstarts complete rfl).mpr hsize), by simp [hidle]⟩

/-- A message without records that has a descriptor. -/
def unrecorded : Incoming ℕ :=
  ⟨dataBytes .bufsReady [], 8, [11], by decide, by decide, by decide⟩

/-- It is refused, and a consumer that does not wait goes on behind it. -/
theorem resynchronised_unrecorded :
    ∃ b b' : Backend ℕ ℕ, backendCreate connected true (.fresh 1080 2400 ∅) = some b ∧
      unrecorded.Refused ∧ Resynchronised .fresh b b' unrecorded := by
  obtain ⟨b, hb⟩ : ∃ b, backendCreate connected true (.fresh 1080 2400 ∅ : Output ℕ) = some b :=
    ⟨_, rfl⟩
  obtain rfl := Option.some.inj hb
  have huntested : ¬ unrecorded.announcement.Tested := by
    intro htested
    exact absurd htested.count (by decide)
  exact ⟨_, _, rfl, ⟨rfl, by decide, huntested⟩,
    (@resynchronised_iff_not_refused _ _ _ _ _ _ _ _ hb (.refl _) 0
      connected.pickup [.ready true false] unrecorded [] _ ⟨rfl, rfl, rfl, by decide⟩ rfl
      .fresh).mpr fun _ => ⟨by decide, rfl⟩⟩

/-- One record with two descriptors. -/
def mismatched : Incoming ℕ :=
  ⟨dataBytes .bufsReady (List.replicate bufInfoSize 0), 8, [11, 12], by decide, by decide, by decide⟩

theorem mismatched_not_resynchronised :
    ∃ b b' : Backend ℕ ℕ, ∃ effs, backendCreate connected true (.fresh 1080 2400 ∅) = some b ∧
      b.FailsToReceive [.ready true false] mismatched ∧
      b.bufReadyHandler 0 ⟨connected.pickup, [.ready true false],
        mismatched.announcement.calls, []⟩ = some (b', effs) ∧
      ∀ c : Consumer.Ctx ℕ, ¬ Resynchronised c b b' mismatched := by
  refine ⟨_, _, _, rfl, ⟨rfl, rfl, rfl, by decide⟩, rfl, ?_⟩
  rintro c ⟨hposition, -⟩
  have hstarts : Starts mismatched.stream dataMsgSize := by
    rcases hposition with hclosed | hstarts
    · cases hclosed
    · exact hstarts
  have hsize := (starts_header_iff (by decide)).mp hstarts
  revert hsize
  decide

end Anland
end ACGlass
