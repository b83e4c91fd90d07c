import ACGlass.Anland.Aside
import ACGlass.Anland.Generation
import ACGlass.Consumer.Frame

/-!
# The frame handshake

A generation has at most one frame token. It is made by `select_dmabuf`, moves through the
counter of the buffer-ready eventfd, `consumer_ready` and the counter of the refresh-done
eventfd, and is taken back by `refresh_done`.
-/

namespace ACGlass
namespace Anland

open Transition

variable {φ ρ : Type*}

/-- The consumer's end of the generation. -/
structure Attached (ch : Channel φ) (bufs : List (φ × BufInfo)) (ctx : Consumer.Ctx φ) : Prop where
  bufReadyEfd : ctx.bufReadyEfd = some ch.bufReadyEfd
  shmPtr : ctx.shmPtr = some ch.shm
  stored : ctx.stored = bufs

/-- The backend's end of the generation. -/
structure Carries (ch : Channel φ) (bufs : List (φ × BufInfo)) (b : Backend φ ρ) : Prop where
  bufReadyEfd : b.display.bufReadyEfd = some ch.bufReadyEfd
  refreshDoneEfd : b.display.refreshDoneEfd = some ch.refreshDoneEfd
  shmPtr : b.display.shmPtr = some ch.shm
  received : b.display.bufs = [] ∨ b.display.bufs = bufs
  bufCount : b.output.bufCount = 0 ∨ b.output.bufCount = bufs.length ∧ b.display.bufs = bufs

/-- What passes the guards of `anland_output_repaint` in a connected backend is the buffer
that the page names. -/
theorem Carries.target_eq {ch : Channel φ} {bufs : List (φ × BufInfo)} {b : Backend φ ρ}
    (h : Carries ch bufs b)
    {shm : UInt32} (hlt : shm.toNat < bufs.length) {idx : ℕ} {rb : ρ}
    (ht : b.target shm = some (idx, rb)) : idx = shm.toNat := by
  unfold Backend.target at ht
  split at ht
  · simp at ht
  rename_i hcount
  have hbufs : b.display.bufs = bufs := by
    rcases h.bufCount with hzero | ⟨-, hbufs⟩
    · exact absurd hzero hcount
    · exact hbufs
  have hidx : b.display.getSelectedIdx shm = shm.toNat := by
    simp [Producer.Ctx.getSelectedIdx, h.shmPtr, hbufs, hlt]
  dsimp only at ht
  rw [hidx] at ht
  split at ht
  · simp at ht
  · obtain ⟨rb', -, heq⟩ := Option.map_eq_some_iff.mp ht
    exact (congrArg Prod.fst heq).symm

/-- A repaint draws once, and passes on the token if the backend has it. -/
theorem outputRepaint_of_target {b : Backend φ ρ} (h : b.Inv) {shm : UInt32} {idx : ℕ} {rb : ρ}
    (ht : b.target shm = some (idx, rb)) (damage : Region) :
    ∃ (output : Output ρ) (debt : Region) (next : Effect φ ρ),
      output.bufCount = b.output.bufCount ∧ next.aside = true ∧
      (b.consumerReady = false ∧
          b.outputRepaint damage shm = ({ b with output }, [.repaintOutput idx debt rb, next]) ∨
        b.consumerReady = true ∧ b.display.fallback = false ∧
          b.outputRepaint damage shm =
            ({ b with output, consumerReady := false },
              .repaintOutput idx debt rb ::
                (b.display.refreshDoneEfd.toList.map fun efd => .lib (.eventfdWrite efd)) ++
                  [next])) := by
  refine ⟨(b.output.accumulate (damage ∪ b.output.region)).settle idx,
    (b.output.accumulate (damage ∪ b.output.region)).accumDamage idx,
    if b.refresh = 0 then .addIdle else .armFrameTimer, rfl, ?_, ?_⟩
  · split <;> rfl
  unfold Backend.outputRepaint
  rw [ht]
  dsimp only
  cases hready : b.consumerReady with
  | false => exact .inl ⟨rfl, by simp⟩
  | true =>
    have hf : b.display.fallback = false := by
      by_contra hno
      have hidle := h.idle (h.agree.trans (by simpa using hno))
      exact absurd (hready.symm.trans hidle.consumerReady) (by simp)
    have htrigger : b.display.triggerRefresh =
        ⟨b.display, b.display.refreshDoneEfd.toList.map .eventfdWrite, 0⟩ := by
      rw [Producer.Ctx.triggerRefresh, if_neg (by simp [hf])]
    have hquiet : b.display.triggerRefresh.callsBack = false := by
      rw [htrigger]
      cases b.display.refreshDoneEfd <;> rfl
    refine .inr ⟨rfl, hf, ?_⟩
    rw [if_pos rfl, Backend.returned_kept hquiet, htrigger]
    simp

section BufReady

variable {ctx : Producer.Ctx φ} {bufs : List (φ × BufInfo)} {pushed : Option (List (φ × BufInfo))}

/-- The library reads the pushed buffers or loses the channel. -/
theorem receiveDmabufs_pushed (hf : ctx.fallback = false) (hpushed : ∀ p ∈ pushed, p = bufs)
    (hle : bufs.length ≤ maxBufs) (recvOk infosOk : Bool) :
    let out := ctx.receiveDmabufs (pushedCalls pushed recvOk infosOk)
    out.ctx.fallback = true ∧ out.ctx.bufs = [] ∨
      out.ret = 0 ∧ out.effs.any Producer.Effect.isEventfd = false ∧
        (out.ctx = ctx ∧ ctx.bufs ≠ [] ∨ out.ctx = { ctx with bufs }) := by
  have hfail : ∀ effs, (ctx.failWith effs).ctx.fallback = true ∧ (ctx.failWith effs).ctx.bufs = [] :=
    fun effs => ⟨ctx.enterFallback_fallback, ctx.enterFallback_bufs hf⟩
  dsimp only
  unfold Producer.Ctx.receiveDmabufs
  split
  · rename_i hheld
    exact .inr ⟨rfl, rfl, .inl ⟨rfl, List.length_pos_iff.mp hheld⟩⟩
  cases hmsg : recvFds maxBufs (pushedCalls pushed recvOk infosOk).msg with
  | none => exact .inl (hfail _)
  | some m =>
    obtain ⟨hrecv, hsome⟩ : recvOk = true ∧ pushed = some bufs := by
      cases recvOk with
      | false => simp [pushedCalls, recvFds] at hmsg
      | true =>
        cases pushed with
        | none => simp [pushedCalls, recvFds] at hmsg
        | some p => exact ⟨rfl, congrArg some (hpushed p rfl)⟩
    subst hrecv hsome
    have hfds : m.fds = bufs.map Prod.fst ∧ m.n = dataMsgSize ∧
        m.hdr = ⟨.bufsReady, bufs.length * bufInfoSize⟩ := by
      simp only [pushedCalls, recvFds, Option.map_some, if_true] at hmsg
      rw [dif_pos (by simp [dataMsgSize])] at hmsg
      obtain rfl := Option.some.inj hmsg
      exact ⟨List.take_of_length_le (by simpa using hle), rfl, rfl⟩
    obtain ⟨hfds, hn, hhdr⟩ := hfds
    dsimp only
    split
    · exact .inl (hfail _)
    rw [if_neg (by simp [hhdr]), if_neg (by simp [hhdr, hfds, bufInfoSize, hle])]
    cases infosOk with
    | false => exact .inl (hfail _)
    | true =>
      have hzip : (bufs.map Prod.fst).zip (bufs.map Prod.snd) = bufs :=
        (List.zip_of_prod rfl rfl).symm
      refine .inr ⟨rfl, rfl, .inr ?_⟩
      simp [pushedCalls, hfds, hzip]

/-- The import makes renderbuffers and no frame. -/
theorem importFrom_spec (o : Output ρ) (i : ℕ) (bufs : List (φ × BufInfo))
    (created : List (Option ρ)) :
    (o.importFrom i bufs created).1.bufCount = o.bufCount ∧
      ∀ x ∈ (o.importFrom i bufs created).2.1, x.aside = true := by
  induction bufs generalizing o i created with
  | nil => exact ⟨rfl, by simp [Output.importFrom]⟩
  | cons buf bufs ih =>
    obtain ⟨fd, info⟩ := buf
    unfold Output.importFrom
    dsimp only
    split
    · rename_i rb created'
      obtain ⟨hcount, heffs⟩ := ih _ (i + 1) created'
      refine ⟨hcount, fun x hx => ?_⟩
      rcases List.mem_cons.mp hx with rfl | hx
      · rfl
      · exact heffs x hx
    · exact ⟨rfl, by simp [Effect.aside]⟩

theorem importDmabufs_spec (o : Output ρ) (bufs : List (φ × BufInfo))
    (created : List (Option ρ)) :
    ((o.importDmabufs bufs created).1.bufCount = o.bufCount ∨
        (o.importDmabufs bufs created).1.bufCount = bufs.length) ∧
      ∀ x ∈ (o.importDmabufs bufs created).2, x.aside = true := by
  obtain ⟨hcount, heffs⟩ := importFrom_spec o 0 bufs created
  unfold Output.importDmabufs
  split
  · exact ⟨.inl rfl, by simp⟩
  dsimp only
  refine ⟨?_, heffs⟩
  split
  · exact .inr rfl
  · exact .inl hcount

/-- The buffer-ready handler of a connected backend, up to calls that have no part in the
handshake. -/
inductive BufReadied (b : Backend φ ρ) (bufs : List (φ × BufInfo)) (efd : φ) :
    Backend φ ρ × List (Effect φ ρ) → Prop
  | again : BufReadied b bufs efd
      ({ b with consumerReady := true }, [.lib (.eventfdRead efd), .scheduleRepaint])
  | fell {r : Backend φ ρ × List (Effect φ ρ)} (hf : r.1.display.fallback = true)
      (hempty : r.1.display.bufs = []) (heffs : ∀ x ∈ r.2, x.retains = true) :
      BufReadied b bufs efd r
  | first {output : Output ρ} {source : Option φ} {effs : List (Effect φ ρ)}
      (hcount : output.bufCount = b.output.bufCount ∨ output.bufCount = bufs.length)
      (heffs : ∀ x ∈ effs, x.aside = true) :
      BufReadied b bufs efd
        ({ b with
            display := { b.display with asyncPending := false, bufs }
            dmabufReceived := true, inputFdSource := source, output, consumerReady := true },
          .lib (.eventfdRead efd) :: effs)

/-- The wait of the library, once `wait_buffer_async` has been called. -/
theorem waitBufferAsyncResult_pushed (hf : ctx.fallback = false) {efd : φ}
    (hefd : ctx.bufReadyEfd = some efd) (hreceived : ctx.bufs = [] ∨ ctx.bufs = bufs)
    (hpushed : ∀ p ∈ pushed, p = bufs) (hle : bufs.length ≤ maxBufs) {recvOk infosOk : Bool}
    {pickup : Producer.PickupCalls φ} {polls : List Producer.BufferPoll} {out : Producer.Out φ}
    (h : ctx.waitBufferAsync.ctx.waitBufferAsyncResult pickup polls
      (pushedCalls pushed recvOk infosOk) = some out) :
    out.ctx.fallback = true ∧ out.ctx.bufs = [] ∨
      out.ret = 0 ∧ out.ctx = { ctx with asyncPending := false, bufs } ∧
        ∃ effs, out.effs = .eventfdRead efd :: effs ∧
          effs.any Producer.Effect.isEventfd = false := by
  have hstart : ctx.waitBufferAsync.ctx = { ctx with asyncPending := true } := rfl
  rw [hstart, Producer.Ctx.waitBufferAsyncResult, if_neg (by simp [hf]),
    Producer.Ctx.awaitBuffer, if_neg (by simp)] at h
  obtain ⟨readable, -, rfl⟩ := Option.map_eq_some_iff.mp h
  have hfail : ({ ctx with asyncPending := true } : Producer.Ctx φ).fallback = false := hf
  cases readable with
  | false =>
    exact .inl ⟨Producer.Ctx.enterFallback_fallback _, Producer.Ctx.enterFallback_bufs _ hfail⟩
  | true =>
    rcases receiveDmabufs_pushed hfail hpushed hle recvOk infosOk with hfell | ⟨hret, heffs, hctx⟩
    · exact .inl hfell
    · refine .inr ⟨hret, ?_, _, by simp [hefd], heffs⟩
      rcases hctx with ⟨hctx, hheld⟩ | hctx
      · have hbufs : ctx.bufs = bufs := hreceived.resolve_left hheld
        simp [hctx, ← hbufs]
      · simp [hctx]

/-- A library call that falls back and touches no eventfd but to empty it. -/
theorem returned_retains {b : Backend φ ρ} {out : Producer.Out φ} (hcalled : out.callsBack = true)
    (heffs : ∀ e ∈ out.effs, e.isEventfd = true → ∃ efd, e = .eventfdRead efd) :
    ∀ x ∈ (b.returned out).2, x.retains = true := by
  intro x hx
  rw [Backend.returned_called hcalled] at hx
  rcases List.mem_append.mp hx with hx | hx
  · obtain ⟨e, he, rfl⟩ := List.mem_map.mp hx
    by_cases hefd : e.isEventfd = true
    · obtain ⟨efd, rfl⟩ := heffs e he hefd
      rfl
    · exact Effect.retains_of_aside (by simpa [Effect.aside] using hefd)
  · exact Effect.retains_of_aside (aside_fallbackCb _ x hx)

theorem bufReadyHandler_pushed {ch : Channel φ} {b : Backend φ ρ} (h : b.Inv) {fd : φ}
    (hfd : b.bufReadySource = some fd) (hc : Carries ch bufs b)
    (hpushed : ∀ p ∈ pushed, p = bufs) (hle : bufs.length ≤ maxBufs) {recvOk infosOk : Bool}
    {pickup : Producer.PickupCalls φ} {polls : List Producer.BufferPoll}
    {created : List (Option ρ)} {r : Backend φ ρ × List (Effect φ ρ)}
    (hr : b.bufReadyHandler fd ⟨pickup, polls, pushedCalls pushed recvOk infosOk, created⟩ =
      some r) : BufReadied b bufs ch.bufReadyEfd r := by
  have hno := h.connected (.inl (by simp [hfd]))
  have hefd : fd = ch.bufReadyEfd :=
    Option.some.inj (((h.watching hno).bufReadySource fd hfd).symm.trans hc.bufReadyEfd)
  have hf : b.display.fallback = false := h.agree.symm.trans hno
  unfold Backend.bufReadyHandler at hr
  split at hr
  · obtain rfl := Option.some.inj hr
    rw [hefd]
    exact .again
  obtain ⟨out, hout, rfl⟩ := Option.map_eq_some_iff.mp hr
  have ho := b.display.waitBufferAsync_outcome hf hout
  have hawait : b.display.waitBufferAsync.ctx.awaitBuffer polls
      (pushedCalls pushed recvOk infosOk) = some out := by
    rw [← hout, Producer.Ctx.waitBufferAsyncResult,
      if_neg (by simp [Producer.Ctx.waitBufferAsync, hf])]
  rcases waitBufferAsyncResult_pushed hf hc.bufReadyEfd hc.received hpushed hle hout with
    ⟨hfell, hempty⟩ | ⟨hret, hctx, effs, heffs, hquiet⟩
  · cases ho with
    | kept same quiet => exact absurd (hfell.symm.trans (same.fallback.trans hf)) (by simp)
    | fell held fallback fallbackCb called ret =>
      dsimp only
      rw [if_pos (by omega)]
      refine .fell ?_ ?_ ?_
      · rw [Backend.returned_display]
        exact hfell
      · rw [Backend.returned_display]
        exact hempty
      · exact returned_retains (called.trans h.fallbackCb) (Producer.Ctx.awaitBuffer_effs _ hawait)
  · have hreturned := (Backend.returned_of_ret ho (by omega)).1
    obtain ⟨hcount, himport⟩ := importDmabufs_spec b.output bufs created
    dsimp only
    rw [if_neg (by omega), hreturned, hctx, heffs]
    refine .first hcount ?_
    intro x hx
    rcases List.mem_append.mp hx with hx | hx
    · rcases List.mem_append.mp hx with hx | hx
      · obtain ⟨e, he, rfl⟩ := List.mem_map.mp hx
        have := List.any_eq_false.mp hquiet e he
        simpa [Effect.aside] using this
      · exact himport x hx
    · obtain rfl := List.mem_singleton.mp hx
      rfl

end BufReady

namespace State

variable (s : State φ ρ)

/-- Neither party has left the generation. -/
def Live : Prop := s.gone = false ∧ s.backend.display.fallback = false

/-- The places of the frame token. -/
def tokens : ℕ := s.bufReady + (if s.backend.consumerReady then 1 else 0) + s.refreshDone

/-- Every pending buffer is one token, and there is no other. -/
def Balanced : Prop := s.tokens = if s.consumer.bufferPending then 1 else 0

/-- The invariant of a generation whose consumer has stored `bufs`. -/
structure Inv (bufs : List (φ × BufInfo)) : Prop where
  backend : s.backend.Inv
  bufs_le : bufs.length ≤ maxBufs
  pushed : ∀ p ∈ s.pushed, p = bufs
  attached : s.gone = false → Attached s.channel bufs s.consumer
  carries : s.backend.display.fallback = false → Carries s.channel bufs s.backend
  emptied : s.backend.display.fallback = true → s.backend.display.bufs = []
  handed : s.handed = if s.consumer.bufferPending then some s.shm.toNat else none
  pending : s.consumer.bufferPending = true →
    s.phase = .selected s.shm.toNat ∧ s.shm.toNat < bufs.length ∧ s.consumer.fallback = false
  balanced : s.Live → s.Balanced
  refreshed : s.gone = false → 0 < s.refreshDone →
    s.consumer.bufferPending = true ∧ s.shm.toNat ∈ s.painted

variable {s} {bufs : List (φ × BufInfo)}

theorem inv_start (setup : Setup φ ρ) : (State.start setup).Inv setup.consumer.stored where
  backend := setup.fresh.toInv
  bufs_le := setup.offers.stored_le
  pushed := by simp [State.start]
  attached _ := ⟨setup.offers.bufReadyEfd, setup.offers.shmPtr, rfl⟩
  carries _ := ⟨setup.fresh.bufReadyEfd, setup.fresh.refreshDoneEfd, setup.fresh.shmPtr,
    .inl setup.fresh.bufs, .inl setup.fresh.bufCount⟩
  emptied _ := setup.fresh.bufs
  handed := by simp [State.start, setup.offers.bufferPending]
  pending hp := by simp [State.start, setup.offers.bufferPending] at hp
  balanced _ := by
    simp [Balanced, tokens, State.start, setup.fresh.consumerReady, setup.offers.bufferPending]
  refreshed _ h := by simp [State.start] at h

section Consumer

/-- Whatever is pushed are the stored buffers. -/
theorem pushedAfter_mem {effs : List (Consumer.Effect φ)} {pushed : Option (List (φ × BufInfo))}
    (hpushed : ∀ p ∈ pushed, p = bufs) (h : ∀ fd p, .sendBufsReady fd p ∈ effs → p = bufs) :
    ∀ p ∈ pushedAfter pushed effs, p = bufs := by
  induction effs generalizing pushed with
  | nil => exact hpushed
  | cons x effs ih =>
    have hrest : ∀ fd p, .sendBufsReady fd p ∈ effs → p = bufs :=
      fun fd p hp => h fd p (by simp [hp])
    cases x with
    | sendBufsReady fd p =>
      refine @ih (some p) ?_ hrest
      intro q hq
      obtain rfl := Option.some.inj hq
      exact h fd p (by simp)
    | _ => exact ih hpushed hrest

theorem pushedAfter_pushes {pushes : List (Consumer.Effect φ)}
    {pushed : Option (List (φ × BufInfo))} (hpushed : ∀ p ∈ pushed, p = bufs)
    (h : ∀ x ∈ pushes, ∃ fd, x = .sendBufsReady fd bufs) :
    ∀ p ∈ pushedAfter pushed pushes, p = bufs := by
  apply pushedAfter_mem hpushed
  intro fd p hmem
  obtain ⟨fd', heq⟩ := h _ hmem
  cases heq
  rfl

theorem Inv.not_pending (h : s.Inv bufs) (hphase : ∀ idx, s.phase ≠ .selected idx) :
    s.consumer.bufferPending = false := by
  by_contra hp
  exact hphase _ (h.pending (by simpa using hp)).1

/-- A frame begins without a token. -/
theorem Inv.no_tokens (h : s.Inv bufs) (hlive : s.Live) (hp : s.consumer.bufferPending = false) :
    s.bufReady = 0 ∧ s.backend.consumerReady = false ∧ s.refreshDone = 0 := by
  have hb := h.balanced hlive
  rw [Balanced, hp, tokens] at hb
  cases hready : s.backend.consumerReady with
  | false => simpa [hready] using hb
  | true => simp [hready] at hb

/-- A call of the consumer that leaves the generation. -/
theorem Inv.leave {t : State φ ρ} (h : s.Inv bufs) (hbackend : t.backend = s.backend)
    (hchannel : t.channel = s.channel) (hpushed : ∀ p ∈ t.pushed, p = bufs)
    (hgone : t.gone = true) (hp : t.consumer.bufferPending = false) (hhanded : t.handed = none) :
    t.Inv bufs where
  backend := hbackend ▸ h.backend
  bufs_le := h.bufs_le
  pushed := hpushed
  attached hno := absurd (hgone.symm.trans hno) (by simp)
  carries := by
    rw [hbackend, hchannel]
    exact h.carries
  emptied := hbackend ▸ h.emptied
  handed := by simp [hhanded, hp]
  pending hno := absurd (hp.symm.trans hno) (by simp)
  balanced hlive := absurd (hgone.symm.trans hlive.1) (by simp)
  refreshed hno := absurd (hgone.symm.trans hno) (by simp)

/-- A call of the consumer between two frames. -/
theorem Inv.between {t : State φ ρ} (h : s.Inv bufs) (hgone : s.gone = false)
    (hp : s.consumer.bufferPending = false) (hbackend : t.backend = s.backend)
    (hchannel : t.channel = s.channel) (hpushed : ∀ p ∈ t.pushed, p = bufs)
    (hatt : Attached t.channel bufs t.consumer) (hp' : t.consumer.bufferPending = false)
    (hhanded : t.handed = none) (hready : t.bufReady = s.bufReady)
    (hdone : t.refreshDone = s.refreshDone) : t.Inv bufs where
  backend := hbackend ▸ h.backend
  bufs_le := h.bufs_le
  pushed := hpushed
  attached _ := hatt
  carries := by
    rw [hbackend, hchannel]
    exact h.carries
  emptied := hbackend ▸ h.emptied
  handed := by simp [hhanded, hp']
  pending hno := absurd (hp'.symm.trans hno) (by simp)
  balanced hlive := by
    have hlive' : s.Live := ⟨hgone, hbackend ▸ hlive.2⟩
    have hb := h.balanced hlive'
    rw [Balanced, tokens, hp] at hb
    rw [Balanced, tokens, hp', hready, hbackend, hdone]
    exact hb
  refreshed _ hpos := by
    rw [hdone] at hpos
    exact absurd (hp.symm.trans (h.refreshed hgone hpos).1) (by simp)

theorem Inv.refresh (h : s.Inv bufs) (hgone : s.gone = false) {polls : List Consumer.RefreshPoll}
    {out : Consumer.Out φ}
    (hpolls : Consumer.Ctx.waitRefresh polls = some true → 0 < s.refreshDone)
    (hout : Consumer.Refresh s.consumer polls out) : (s.afterRefresh out).Inv bufs := by
  have hatt := h.attached hgone
  cases hout with
  | nothingPending hp =>
    have hnone : (s.afterRefresh ⟨s.consumer, [], 0⟩).handed = none := by simp [afterRefresh, hp]
    have hdone : (s.afterRefresh ⟨s.consumer, [], 0⟩).refreshDone = s.refreshDone := by
      simp [afterRefresh, hp]
    exact h.between hgone hp rfl rfl h.pushed hatt hp hnone rfl hdone
  | refreshed hp hread =>
    refine ⟨h.backend, h.bufs_le, h.pushed,
      fun _ => ⟨hatt.bufReadyEfd, hatt.shmPtr, hatt.stored⟩, h.carries, h.emptied, ?_, ?_, ?_, ?_⟩
    · simp [afterRefresh]
    · intro hp'
      simp [afterRefresh] at hp'
    · intro hlive
      have hb := h.balanced ⟨hgone, hlive.2⟩
      have hpos := hpolls hread
      rw [Balanced, tokens, hp] at hb
      simp only [Balanced, tokens, afterRefresh, hp]
      cases hready : s.backend.consumerReady <;> simp [hready] at hb ⊢ <;> omega
    · intro _ hpos
      simp [afterRefresh, hp] at hpos
  | fell hf hp hp' hret =>
    have hheld := (h.pending hp).2.2
    have hgone' : (s.afterRefresh out).gone = true := by simp [afterRefresh, hf, hheld]
    have hnone : (s.afterRefresh out).handed = none := by simp [afterRefresh]
    exact h.leave rfl rfl h.pushed hgone' (hp' hheld) hnone

variable [DecidableEq φ]

theorem count_pushes {pushes : List (Consumer.Effect φ)}
    (h : ∀ x ∈ pushes, ∃ fd, x = .sendBufsReady fd bufs) (efd : φ) :
    pushes.count (.eventfdWrite efd) = 0 := by
  refine List.count_eq_zero.mpr fun hx => ?_
  obtain ⟨fd, hfd⟩ := h _ hx
  cases hfd

theorem shmAfter_pushes {pushes : List (Consumer.Effect φ)}
    (h : ∀ x ∈ pushes, ∃ fd, x = .sendBufsReady fd bufs) (shm : φ) (value : UInt32) :
    shmAfter shm value pushes = value := by
  induction pushes with
  | nil => rfl
  | cons x pushes ih =>
    obtain ⟨fd, rfl⟩ := h x (by simp)
    exact ih fun y hy => h y (by simp [hy])

theorem shmAfter_append (shm : φ) (value : UInt32) (effs effs' : List (Consumer.Effect φ)) :
    shmAfter shm value (effs ++ effs') = shmAfter shm (shmAfter shm value effs) effs' :=
  List.foldl_append ..

/-- What a hand-over does to the page and to the eventfd. -/
theorem handedOver_effs {pushes : List (Consumer.Effect φ)} {ctx : Consumer.Ctx φ}
    {ch : Channel φ} (hatt : Attached ch bufs ctx)
    (hpush : ∀ x ∈ pushes, ∃ fd, x = .sendBufsReady fd bufs) (idx : ℕ) (value : UInt32) :
    let effs := pushes ++ .shmWrite ctx.shmPtr (UInt32.ofNat idx) ::
      ctx.bufReadyEfd.toList.map .eventfdWrite
    effs.count (.eventfdWrite ch.bufReadyEfd) = 1 ∧
      shmAfter ch.shm value effs = UInt32.ofNat idx := by
  dsimp only
  rw [hatt.bufReadyEfd, hatt.shmPtr]
  constructor
  · rw [List.count_append, count_pushes hpush]
    simp
  · rw [shmAfter_append, shmAfter_pushes hpush]
    simp [shmAfter]

theorem Inv.select (h : s.Inv bufs) (hphase : s.phase = .locking) (hgone : s.gone = false)
    (idx : Int) (msg : Option CtrlType) (calls : Consumer.PushCalls φ) :
    (s.afterSelect idx msg (s.consumer.selectDmabuf idx msg calls)).Inv bufs := by
  have hp : s.consumer.bufferPending = false := h.not_pending (by simp [hphase])
  have hatt := h.attached hgone
  have hsel := s.consumer.selectDmabuf_selection idx msg calls
  generalize s.consumer.selectDmabuf idx msg calls = out at hsel ⊢
  cases hsel with
  | waits hf hm =>
    have hnone : (s.afterSelect idx msg ⟨s.consumer, [], 0⟩).handed = none := by
      simp [afterSelect, hf]
    exact h.between hgone hp rfl rfl h.pushed hatt hp hnone rfl rfl
  | fell hm hf hp' hpush hret =>
    have hgone' : (s.afterSelect idx msg out).gone = true := by simp [afterSelect, hf, hm]
    have hnone : (s.afterSelect idx msg out).handed = none := by simp [afterSelect, hf]
    have hpushed : ∀ p ∈ pushedAfter s.pushed out.effs, p = bufs := by
      refine pushedAfter_mem h.pushed fun fd p hmem => ?_
      exact absurd (List.any_eq_false.mp hpush _ hmem) (by simp [Consumer.Effect.isPush])
    exact h.leave rfl rfl hpushed hgone' hp' hnone
  | refused pushes hpush =>
    rw [hatt.stored] at hpush
    have hready : s.bufReady + pushes.count (.eventfdWrite s.channel.bufReadyEfd) = s.bufReady := by
      rw [count_pushes hpush, Nat.add_zero]
    exact h.between hgone hp rfl rfl (pushedAfter_pushes h.pushed hpush)
      ⟨hatt.bufReadyEfd, hatt.shmPtr, hatt.stored⟩ hp (by simp [afterSelect]) hready rfl
  | handedOver pushes hpush hidx hlt =>
    rw [hatt.stored] at hpush hlt
    obtain ⟨hcount, hshm⟩ := handedOver_effs hatt hpush idx.toNat s.shm
    have hval : (UInt32.ofNat idx.toNat).toNat = idx.toNat := by
      have hle := h.bufs_le
      rw [maxBufs] at hle
      exact UInt32.toNat_ofNat_of_lt' (by simp [UInt32.size]; omega)
    refine ⟨h.backend, h.bufs_le, ?_, fun _ => ⟨hatt.bufReadyEfd, hatt.shmPtr, hatt.stored⟩,
      h.carries, h.emptied, ?_, ?_, ?_, ?_⟩
    · change ∀ p ∈ pushedAfter s.pushed (pushes ++ _ :: _), p = bufs
      rw [pushedAfter, List.foldl_append]
      refine pushedAfter_mem (pushedAfter_pushes h.pushed hpush) fun fd p hmem => ?_
      simp at hmem
    · simp [afterSelect, hshm, hval]
    · intro _
      refine ⟨by simp [afterSelect, hshm, hval], ?_, rfl⟩
      simp only [afterSelect, hshm, hval]
      omega
    · intro hlive
      obtain ⟨hb, hr, hd⟩ := h.no_tokens ⟨hgone, hlive.2⟩ hp
      simp [Balanced, tokens, afterSelect, hcount, hb, hr, hd]
    · intro _ hpos
      exact absurd (hp.symm.trans (h.refreshed hgone hpos).1) (by simp)

end Consumer

section Backend

variable [DecidableEq φ] {r : Backend φ ρ × List (Effect φ ρ)}

theorem observe_aside {x : Effect φ ρ} (h : x.aside = true) : s.observe x = s := by
  cases x with
  | lib e => cases e <;> first | rfl | simp [Effect.aside, Producer.Effect.isEventfd] at h
  | repaintOutput idx damage rb => simp [Effect.aside] at h
  | _ => rfl

theorem foldl_observe_aside {effs : List (Effect φ ρ)} (h : ∀ x ∈ effs, x.aside = true) :
    effs.foldl observe s = s := by
  induction effs with
  | nil => rfl
  | cons x effs ih =>
    rw [List.foldl_cons, observe_aside (h x (by simp))]
    exact ih fun y hy => h y (by simp [hy])

theorem afterBackend_aside (h : ∀ x ∈ r.2, x.aside = true) :
    s.afterBackend r = { s with backend := r.1 } :=
  foldl_observe_aside h

/-- Calls that do not pass the token on can only empty the buffer-ready eventfd. -/
theorem foldl_observe_retains (s : State φ ρ) {effs : List (Effect φ ρ)}
    (h : ∀ x ∈ effs, x.retains = true) : ∃ bufReady, effs.foldl observe s = { s with bufReady } := by
  induction effs generalizing s with
  | nil => exact ⟨s.bufReady, rfl⟩
  | cons x effs ih =>
    have hx : ∃ bufReady, s.observe x = { s with bufReady } := by
      have hx := h x (by simp)
      unfold observe
      split
      · split
        · exact ⟨0, rfl⟩
        · exact ⟨s.bufReady, rfl⟩
      · simp [Effect.retains] at hx
      · simp [Effect.retains] at hx
      · exact ⟨s.bufReady, rfl⟩
    obtain ⟨bufReady, hx⟩ := hx
    rw [List.foldl_cons, hx]
    exact ih _ fun y hy => h y (by simp [hy])

/-- The library has entered fallback. -/
theorem Inv.lost (h : s.Inv bufs) (hinv : r.1.Inv) (hfell : r.1.display.fallback = true)
    (hempty : r.1.display.bufs = []) (heffs : ∀ x ∈ r.2, x.retains = true) :
    (s.afterBackend r).Inv bufs := by
  obtain ⟨bufReady, hst⟩ := foldl_observe_retains { s with backend := r.1 } heffs
  rw [afterBackend, hst]
  exact ⟨hinv, h.bufs_le, h.pushed, h.attached, fun hno => absurd (hfell.symm.trans hno) (by simp),
    fun _ => hempty, h.handed, h.pending,
    fun hlive => absurd (hfell.symm.trans hlive.2) (by simp), h.refreshed⟩

theorem Inv.aside (h : s.Inv bufs) (ha : Aside s.backend r) (hinv : r.1.Inv) :
    (s.afterBackend r).Inv bufs := by
  rcases ha.backend with heq | ⟨hfell, hempty⟩
  · rw [afterBackend_aside ha.effs, heq]
    exact h
  · exact h.lost hinv hfell hempty fun x hx => Effect.retains_of_aside (ha.effs x hx)

theorem Inv.repaint (h : s.Inv bufs) (damage : Region) :
    (s.afterBackend (s.backend.outputRepaint damage s.shm)).Inv bufs := by
  have hinv := h.backend.outputRepaint damage s.shm
  cases ht : s.backend.target s.shm with
  | none =>
    have hnone : s.backend.outputRepaint damage s.shm = (s.backend, [.armFrameTimer]) := by
      unfold Backend.outputRepaint
      rw [ht]
    rw [hnone]
    exact h.aside ⟨by simp [Effect.aside], rfl, .inl rfl⟩ h.backend
  | some found =>
    obtain ⟨idx, rb⟩ := found
    obtain ⟨output, debt, next, hcount, hnext, hcase⟩ :=
      outputRepaint_of_target h.backend ht damage
    rcases hcase with ⟨hready, heq⟩ | ⟨hready, hf, heq⟩
    · rw [heq] at hinv ⊢
      have hst : s.afterBackend ({ s.backend with output }, [.repaintOutput idx debt rb, next]) =
          { s with backend := { s.backend with output }, painted := s.painted ++ [idx] } :=
        observe_aside (s := { s with
          backend := { s.backend with output }, painted := s.painted ++ [idx] }) hnext
      rw [hst]
      refine ⟨hinv, h.bufs_le, h.pushed, h.attached, fun hf => ?_, h.emptied, h.handed, h.pending,
        h.balanced, fun hgone hpos => ?_⟩
      · have hc := h.carries hf
        exact ⟨hc.bufReadyEfd, hc.refreshDoneEfd, hc.shmPtr, hc.received, hcount ▸ hc.bufCount⟩
      · obtain ⟨hp, hmem⟩ := h.refreshed hgone hpos
        exact ⟨hp, List.mem_append_left _ hmem⟩
    · rw [heq] at hinv ⊢
      have hc := h.carries hf
      have hlive_of : s.gone = false → s.Live := fun hgone => ⟨hgone, hf⟩
      have hst : s.afterBackend ({ s.backend with output, consumerReady := false },
          .repaintOutput idx debt rb :: (s.backend.display.refreshDoneEfd.toList.map fun efd =>
            Effect.lib (.eventfdWrite efd)) ++ [next]) =
          { s with
            backend := { s.backend with output, consumerReady := false }
            refreshDone := s.refreshDone + 1, painted := s.painted ++ [idx] } := by
        rw [hc.refreshDoneEfd]
        simp only [afterBackend, Option.toList_some, List.map_cons, List.map_nil, List.cons_append,
          List.nil_append, List.foldl_cons, List.foldl_nil, observe_aside hnext]
        simp [observe]
      rw [hst]
      refine ⟨hinv, h.bufs_le, h.pushed, h.attached, fun _ => ?_, h.emptied, h.handed, h.pending,
        fun hlive => ?_, fun hgone _ => ?_⟩
      · exact ⟨hc.bufReadyEfd, hc.refreshDoneEfd, hc.shmPtr, hc.received, hcount ▸ hc.bufCount⟩
      · have hb := h.balanced (hlive_of hlive.1)
        rw [Balanced, tokens, hready] at hb
        simp only [Balanced, tokens]
        simp at hb ⊢
        omega
      · have hp : s.consumer.bufferPending = true := by
          by_contra hno
          have := (h.no_tokens (hlive_of hgone) (by simpa using hno)).2.1
          exact absurd (hready.symm.trans this) (by simp)
        rw [hc.target_eq (h.pending hp).2.1 ht]
        exact ⟨hp, by simp⟩

theorem Inv.bufReady (h : s.Inv bufs) (hpos : 0 < s.bufReady) {fd : φ}
    (hfd : s.backend.bufReadySource = some fd) {recvOk infosOk : Bool}
    {pickup : Producer.PickupCalls φ} {polls : List Producer.BufferPoll}
    {created : List (Option ρ)}
    (hr : s.backend.bufReadyHandler fd
      ⟨pickup, polls, pushedCalls s.pushed recvOk infosOk, created⟩ = some r) :
    (s.afterBackend r).Inv bufs := by
  have hf : s.backend.display.fallback = false :=
    h.backend.agree.symm.trans (h.backend.connected (.inl (by simp [hfd])))
  have hc := h.carries hf
  have hinv := h.backend.bufReady hfd hr
  have hready : s.Live → s.backend.consumerReady = false ∧ s.bufReady = 1 ∧
      s.refreshDone = 0 ∧ s.consumer.bufferPending = true := by
    intro hlive
    have hb := h.balanced hlive
    rw [Balanced, tokens] at hb
    cases hp : s.consumer.bufferPending <;> cases hready : s.backend.consumerReady <;>
      simp [hp, hready] at hb ⊢ <;> omega
  cases bufReadyHandler_pushed h.backend hfd hc h.pushed h.bufs_le hr with
  | again =>
    have hst : s.afterBackend ({ s.backend with consumerReady := true },
        [.lib (.eventfdRead s.channel.bufReadyEfd), .scheduleRepaint]) =
        { s with backend := { s.backend with consumerReady := true }, bufReady := 0 } := by
      simp [afterBackend, observe]
    rw [hst]
    refine ⟨hinv, h.bufs_le, h.pushed, h.attached, fun _ => ?_, h.emptied, h.handed, h.pending,
      fun hlive => ?_, h.refreshed⟩
    · exact ⟨hc.bufReadyEfd, hc.refreshDoneEfd, hc.shmPtr, hc.received, hc.bufCount⟩
    · obtain ⟨-, -, hdone, hp⟩ := hready ⟨hlive.1, hf⟩
      simp [Balanced, tokens, hdone, hp]
  | fell hfell hempty heffs => exact h.lost hinv hfell hempty heffs
  | @first output source effs hcount heffs =>
    have hst : s.afterBackend
        ({ s.backend with
            display := { s.backend.display with asyncPending := false, bufs }
            dmabufReceived := true, inputFdSource := source, output, consumerReady := true },
          .lib (.eventfdRead s.channel.bufReadyEfd) :: effs) =
        { s with
          backend :=
            { s.backend with
              display := { s.backend.display with asyncPending := false, bufs }
              dmabufReceived := true, inputFdSource := source, output, consumerReady := true }
          bufReady := 0 } := by
      rw [afterBackend, List.foldl_cons, foldl_observe_aside heffs]
      simp [observe]
    rw [hst]
    refine ⟨hinv, h.bufs_le, h.pushed, h.attached, fun _ => ?_,
      fun hno => absurd (hf.symm.trans hno) (by simp), h.handed, h.pending,
      fun hlive => ?_, h.refreshed⟩
    · refine ⟨hc.bufReadyEfd, hc.refreshDoneEfd, hc.shmPtr, .inr rfl, ?_⟩
      rcases hcount with hold | hnew
      · rcases hc.bufCount with hzero | ⟨hall, -⟩
        · exact .inl (hold.trans hzero)
        · exact .inr ⟨hold.trans hall, rfl⟩
      · exact .inr ⟨hnew, rfl⟩
    · obtain ⟨-, -, hdone, hp⟩ := hready ⟨hlive.1, hf⟩
      simp [Balanced, tokens, hdone, hp]

theorem Inv.step {l : Label φ ρ} {s' : State φ ρ} (h : s.Inv bufs) (hs : s.step l = some s') :
    s'.Inv bufs := by
  cases l with
  | select idx msg calls =>
    rw [State.step] at hs
    split_ifs at hs with hen
    obtain rfl := Option.some.inj hs
    exact h.select hen.1 hen.2 idx msg calls
  | refreshDone polls readOk calls =>
    rw [State.step] at hs
    split at hs
    · split_ifs at hs with hen
      obtain ⟨out, hout, rfl⟩ := Option.map_eq_some_iff.mp hs
      exact h.refresh hen.1 hen.2 (s.consumer.refreshDone_refresh hout)
    · simp at hs
  | post =>
    rw [State.step] at hs
    split_ifs at hs with hen
    obtain rfl := Option.some.inj hs
    refine ⟨h.backend, h.bufs_le, h.pushed, h.attached, h.carries, h.emptied, h.handed, ?_,
      h.balanced, h.refreshed⟩
    intro hp
    exact absurd (hen.symm.trans (h.pending hp).1) (by simp)
  | bufReady pickup polls recvOk infosOk created =>
    rw [State.step] at hs
    split_ifs at hs with hpos
    obtain ⟨fd, hfd, hs⟩ := Option.bind_eq_some_iff.mp hs
    obtain ⟨r, hr, rfl⟩ := Option.map_eq_some_iff.mp hs
    exact h.bufReady hpos hfd hr
  | repaint damage =>
    obtain rfl := Option.some.inj hs
    exact h.repaint damage
  | finishFrame =>
    obtain rfl := Option.some.inj hs
    exact h.aside (aside_finishFrame s.backend) h.backend
  | inputFd rounds =>
    rw [State.step] at hs
    split_ifs at hs
    obtain rfl := Option.some.inj hs
    exact h.aside (aside_inputFd h.backend rounds) (h.backend.inputFd rounds)
  | reconnectTimer calls =>
    rw [State.step] at hs
    split_ifs at hs with hf
    obtain rfl := Option.some.inj hs
    exact h.aside (aside_reconnectTimer h.backend (by simpa using hf) calls)
      (h.backend.reconnectTimer calls)
  | windowEvent event sendOk =>
    obtain rfl := Option.some.inj hs
    exact h.aside (aside_sendWindowEvent h.backend event sendOk)
      (h.backend.sendWindowEvent event sendOk)

end Backend

/-- A `refresh_done` that returns 0 for a pending buffer returns after a repaint of the
renderbuffer of the index that was selected. -/
def Repainted (s : State φ ρ) (l : Label φ ρ) (_ : State φ ρ) : Prop :=
  ∀ polls readOk calls out, l = .refreshDone polls readOk calls →
    s.consumer.refreshDone polls readOk calls = some out →
    s.consumer.bufferPending = true → out.ret = 0 → ∃ idx, s.phase = .selected idx ∧ idx ∈ s.painted

theorem Inv.repainted [DecidableEq φ] {l : Label φ ρ} {s' : State φ ρ} (h : s.Inv bufs)
    (hs : s.step l = some s') : Repainted s l s' := by
  rintro polls readOk calls out rfl hout hp hret
  rw [State.step] at hs
  split at hs
  · rename_i idx hphase
    split_ifs at hs with hen
    cases s.consumer.refreshDone_refresh hout with
    | nothingPending hno => exact absurd (hp.symm.trans hno) (by simp)
    | refreshed _ hread =>
      exact ⟨_, (h.pending hp).1, (h.refreshed hen.1 (hen.2 hread)).2⟩
    | fell _ _ _ hneg => omega
  · simp at hs

end State

/-- Within a generation, every schedule keeps the one token of a pending buffer, and no
frame is taken back unpainted. -/
theorem handshake_of_run [DecidableEq φ] (setup : Setup φ ρ) (ls : List (Label φ ρ)) :
    Always State.step (fun s => s.Live → s.Balanced) (.start setup) ls ∧
      Along State.step State.Repainted (.start setup) ls := by
  have hinv := State.inv_start setup
  constructor
  · exact always_of_invariant (I := fun s => s.Inv setup.consumer.stored)
      (fun _ _ _ h hs => h.step hs) (fun _ h => h.balanced) hinv ls
  · exact along_of_invariant (I := fun s => s.Inv setup.consumer.stored)
      (fun _ _ _ h hs => h.step hs) (fun _ _ _ h hs => h.repainted hs) hinv ls

end Anland
end ACGlass
