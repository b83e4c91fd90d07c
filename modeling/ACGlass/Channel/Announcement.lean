import ACGlass.Channel.TwoSenders
import ACGlass.Producer.Outcome

/-!
# What `receive_dmabufs` takes for an announcement

The header is tested with a division that truncates, and the payload is read with the size
itself. `receiveDmabufsCounted` adds to `receive_dmabufs` the number of bytes that
`recv_all` puts into the array `infos`.
-/

namespace ACGlass
namespace Channel

open Producer (Ctx Out)

variable {φ : Type*}

/-- What the data socket has for a call of `receive_dmabufs`: a receive of `n` bytes of a
header with its descriptors, and the bytes that arrive behind it. -/
structure Announcement (φ : Type*) where
  n : ℕ
  hdr : DataMsg
  fds : List φ
  payload : Bytes
  n_le : n ≤ dataMsgSize
  size_lt : hdr.size < 2 ^ 32
  fds_le : fds.length ≤ maxBufs

namespace Announcement

variable (a : Announcement φ)

def recvmsg : Option (Recvmsg DataMsg φ) := some ⟨a.n, a.hdr, a.fds⟩

/-- The whole payload arrives. -/
def Arrives : Prop := a.hdr.size ≤ a.payload.length

instance : Decidable a.Arrives := inferInstanceAs (Decidable (_ ≤ _))

/-- The entries of `infos` that are used after a `recv_all` that succeeds. -/
def calls : Producer.BufsCalls φ where
  msg := a.recvmsg
  infos := if a.Arrives then some (infosOf (a.hdr.size / bufInfoSize) a.payload) else none

/-- A complete `BUFS_READY` with as many records as descriptors. -/
structure WellFormed : Prop where
  complete : a.n = dataMsgSize
  type : a.hdr.type = .bufsReady
  fds_pos : 1 ≤ a.fds.length
  size : a.hdr.size = a.fds.length * bufInfoSize

/-- The header passes the tests of `receive_dmabufs`. -/
structure Tested : Prop where
  complete : a.n = dataMsgSize
  type : a.hdr.type = .bufsReady
  fds_pos : 1 ≤ a.fds.length
  count : a.hdr.size / bufInfoSize = a.fds.length

end Announcement

/-- `receive_dmabufs`, and how many bytes it has read behind the header. -/
def receiveDmabufsCounted (ctx : Ctx φ) (a : Announcement φ) : Out φ × ℕ :=
  if 0 < ctx.bufs.length then (⟨ctx, [], 0⟩, 0)
  else
    match recvFds maxBufs a.recvmsg with
    | none => (ctx.failWith [], 0)
    | some m =>
      if m.n < dataMsgSize ∨ m.fds.length < 1 then (ctx.failWith [.received m.fds], 0)
      else if m.hdr.type ≠ .bufsReady then (⟨ctx, .received m.fds :: m.fds.map .close, -1⟩, 0)
      else
        let count := m.hdr.size / bufInfoSize
        if count ≠ m.fds.length ∨ maxBufs < count then
          (⟨ctx, .received m.fds :: m.fds.map .close, -1⟩, 0)
        else if a.payload.length < m.hdr.size then
          (ctx.failWith (.received m.fds :: m.fds.map .close), a.payload.length)
        else
          (⟨{ ctx with bufs := m.fds.zip (infosOf count a.payload) },
            [.received m.fds, .recvAll m.hdr.size], 0⟩, m.hdr.size)

theorem receiveDmabufsCounted_value (ctx : Ctx φ) (a : Announcement φ) :
    (receiveDmabufsCounted ctx a).1 = ctx.receiveDmabufs a.calls := by
  unfold receiveDmabufsCounted Ctx.receiveDmabufs
  have hmsg : a.calls.msg = a.recvmsg := rfl
  split
  · rfl
  rw [hmsg]
  cases hm : recvFds maxBufs a.recvmsg with
  | none => rfl
  | some m =>
    have hhdr : m.hdr = a.hdr := by
      simp only [recvFds, Announcement.recvmsg] at hm
      split at hm
      · obtain rfl := Option.some.inj hm
        rfl
      · cases hm
    dsimp only
    split
    · rfl
    split
    · rfl
    split
    · rfl
    by_cases harr : a.Arrives
    · have hno : ¬ a.payload.length < m.hdr.size := by
        rw [hhdr]
        exact not_lt.mpr harr
      rw [if_neg hno, Announcement.calls, if_pos harr, hhdr]
    · have hcut : a.payload.length < m.hdr.size := by
        rw [hhdr]
        exact not_le.mp harr
      rw [if_pos hcut, Announcement.calls, if_neg harr]

/-- How a call of `receive_dmabufs` that reads the socket can end. -/
inductive Receipt (ctx : Ctx φ) (a : Announcement φ) : Out φ × ℕ → Prop
  | broken {effs : List (Producer.Effect φ)} (h : a.n < dataMsgSize ∨ a.fds = []) :
      Receipt ctx a (ctx.failWith effs, 0)
  | refused {effs : List (Producer.Effect φ)} (complete : a.n = dataMsgSize) (fds : a.fds ≠ [])
      (h : ¬ a.Tested) : Receipt ctx a (⟨ctx, effs, -1⟩, 0)
  | cut {effs : List (Producer.Effect φ)} (tested : a.Tested) (h : ¬ a.Arrives) :
      Receipt ctx a (ctx.failWith effs, a.payload.length)
  | stored {effs : List (Producer.Effect φ)} (tested : a.Tested) (h : a.Arrives) :
      Receipt ctx a
        (⟨{ ctx with bufs := a.fds.zip (infosOf a.fds.length a.payload) }, effs, 0⟩, a.hdr.size)

theorem receiveDmabufsCounted_receipt {ctx : Ctx φ} (hbufs : ctx.bufs = [])
    (a : Announcement φ) : Receipt ctx a (receiveDmabufsCounted ctx a) := by
  have htake : a.fds.take maxBufs = a.fds := List.take_of_length_le a.fds_le
  unfold receiveDmabufsCounted
  rw [if_neg (by simp [hbufs])]
  by_cases hn : 0 < a.n
  · have hm : recvFds maxBufs a.recvmsg =
        some ⟨a.n, a.hdr, a.fds.take maxBufs, hn, List.length_take_le _ _⟩ := by
      simp [recvFds, Announcement.recvmsg, hn]
    rw [hm]
    simp only [htake]
    by_cases hbad : a.n < dataMsgSize ∨ a.fds.length < 1
    · rw [if_pos hbad]
      refine .broken (hbad.imp_right fun hlen => ?_)
      exact List.eq_nil_of_length_eq_zero (by omega)
    rw [if_neg hbad]
    obtain ⟨hfull, hpos⟩ := not_or.mp hbad
    have hcomplete : a.n = dataMsgSize := le_antisymm a.n_le (not_lt.mp hfull)
    have hne : a.fds ≠ [] := List.ne_nil_of_length_pos (by omega)
    by_cases htype : a.hdr.type ≠ .bufsReady
    · rw [if_pos htype]
      exact .refused hcomplete hne fun h => htype h.type
    rw [if_neg htype]
    by_cases hcount : a.hdr.size / bufInfoSize ≠ a.fds.length ∨ maxBufs < a.hdr.size / bufInfoSize
    · rw [if_pos hcount]
      refine .refused hcomplete hne fun h => ?_
      rcases hcount with hne' | hlt
      · exact hne' h.count
      · rw [h.count] at hlt
        exact absurd a.fds_le (not_le.mpr hlt)
    rw [if_neg hcount]
    obtain ⟨heq, -⟩ := not_or.mp hcount
    have htested : a.Tested := ⟨hcomplete, not_not.mp htype, by omega, not_not.mp heq⟩
    by_cases hcut : a.payload.length < a.hdr.size
    · rw [if_pos hcut]
      exact .cut htested (not_le.mpr hcut)
    · rw [if_neg hcut, htested.count]
      exact .stored htested (not_lt.mp hcut)
  · have hm : recvFds maxBufs a.recvmsg = none := by
      simp [recvFds, Announcement.recvmsg, hn]
    rw [hm]
    refine .broken (.inl ?_)
    rw [dataMsgSize]
    omega

theorem length_infosOf (n : ℕ) (bs : Bytes) : (infosOf n bs).length = n := by
  induction n generalizing bs with
  | zero => rfl
  | succ n ih => simp [infosOf, ih]

/-- Buffers that are stored are not none. -/
theorem Announcement.Tested.zip_ne_nil {a : Announcement φ} (h : a.Tested) :
    a.fds.zip (infosOf a.fds.length a.payload) ≠ [] := by
  intro hnil
  have hlen := congrArg List.length hnil
  rw [List.length_zip, length_infosOf, min_self, List.length_nil] at hlen
  have := h.fds_pos
  omega

theorem failWith_bufs {ctx : Ctx φ} (hbufs : ctx.bufs = []) (effs : List (Producer.Effect φ)) :
    (ctx.failWith effs).ctx.bufs = [] := by
  cases hf : ctx.fallback with
  | true => simp [Ctx.failWith, ctx.enterFallback_of_fallback hf, hbufs]
  | false => exact ctx.enterFallback_bufs hf

/-- The message is the one that `push_dmabufs` sends for `bufs`, with `rest` behind it. -/
def Announcement.IsPush (a : Announcement φ) (bufs : List (φ × BufInfo)) : Prop :=
  a.fds = bufs.map Prod.fst ∧ ∃ fd rest, a.hdr.bytes ++ a.payload =
    (Consumer.Effect.sendBufsReady fd bufs).wire ++ rest

/-- Buffers are stored if and only if the message is well formed, they are those that were
pushed, and the array `infos` is not overrun. -/
structure ReceivesExactly (ctx : Ctx φ) (a : Announcement φ) : Prop where
  accepts : a.Arrives → ((receiveDmabufsCounted ctx a).1.ctx.bufs ≠ [] ↔ a.WellFormed)
  stores : a.Arrives → a.WellFormed → ∀ bufs, a.IsPush bufs →
    (receiveDmabufsCounted ctx a).1.ctx.bufs = bufs
  inBounds : (receiveDmabufsCounted ctx a).2 ≤ maxBufs * bufInfoSize

namespace Announcement

variable {a : Announcement φ}

theorem WellFormed.tested (h : a.WellFormed) : a.Tested where
  complete := h.complete
  type := h.type
  fds_pos := h.fds_pos
  count := by
    rw [h.size]
    exact Nat.mul_div_cancel _ (by decide)

/-- Without a remainder the tests are exact. -/
theorem Tested.wellFormed (h : a.Tested) (hmod : a.hdr.size % bufInfoSize = 0) :
    a.WellFormed where
  complete := h.complete
  type := h.type
  fds_pos := h.fds_pos
  size := by
    rw [← h.count]
    exact (Nat.div_mul_cancel (Nat.dvd_of_mod_eq_zero hmod)).symm

/-- The records behind the header are read back as they were pushed. -/
theorem IsPush.zip_eq {bufs : List (φ × BufInfo)} (h : a.IsPush bufs) :
    a.fds.zip (infosOf a.fds.length a.payload) = bufs := by
  obtain ⟨hfds, fd, rest, hwire⟩ := h
  have hpayload : a.payload = (bufs.map Prod.snd).flatMap BufInfo.bytes ++ rest := by
    rw [Consumer.Effect.wire, bufsReadyBytes, List.append_assoc] at hwire
    exact (List.append_inj hwire (by simp)).2
  have hlen : a.fds.length = (bufs.map Prod.snd).length := by simp [hfds]
  rw [hpayload, hlen, infosOf_flatMap, hfds]
  exact (List.zip_of_prod rfl rfl).symm

/-- A whole record fits for every descriptor. -/
theorem WellFormed.size_le (h : a.WellFormed) : a.hdr.size ≤ maxBufs * bufInfoSize := by
  rw [h.size]
  exact Nat.mul_le_mul_right _ a.fds_le

end Announcement

section Receipts

variable {ctx : Ctx φ} {a : Announcement φ} {r : Out φ × ℕ}

theorem Announcement.Tested.not_broken (h : a.Tested) : ¬ (a.n < dataMsgSize ∨ a.fds = []) := by
  rintro (hn | hnil)
  · exact absurd h.complete hn.ne
  · have hpos := h.fds_pos
    simp [hnil] at hpos

theorem Receipt.of_not_tested (h : Receipt ctx a r) (hbufs : ctx.bufs = []) (hno : ¬ a.Tested) :
    r.1.ctx.bufs = [] ∧ r.2 = 0 := by
  cases h with
  | broken _ => exact ⟨failWith_bufs hbufs _, rfl⟩
  | refused _ _ _ => exact ⟨hbufs, rfl⟩
  | cut htested _ => exact absurd htested hno
  | stored htested _ => exact absurd htested hno

theorem Receipt.of_cut (h : Receipt ctx a r) (htested : a.Tested) (hcut : ¬ a.Arrives) :
    r.2 = a.payload.length := by
  cases h with
  | broken hbroken => exact absurd hbroken htested.not_broken
  | refused _ _ hno => exact absurd htested hno
  | cut _ _ => rfl
  | stored _ harr => exact absurd harr hcut

theorem Receipt.of_arrives (h : Receipt ctx a r) (htested : a.Tested) (harr : a.Arrives) :
    r.1.ctx.bufs = a.fds.zip (infosOf a.fds.length a.payload) ∧ r.2 = a.hdr.size := by
  cases h with
  | broken hbroken => exact absurd hbroken htested.not_broken
  | refused _ _ hno => exact absurd htested hno
  | cut _ hcut => exact absurd harr hcut
  | stored _ _ => exact ⟨rfl, rfl⟩

theorem ReceivesExactly.multiple (h : ReceivesExactly ctx a)
    (hreceipt : Receipt ctx a (receiveDmabufsCounted ctx a)) (htested : a.Tested) :
    a.hdr.size % bufInfoSize = 0 ∨
      ¬ a.Arrives ∧ a.payload.length ≤ maxBufs * bufInfoSize := by
  by_cases harr : a.Arrives
  · have hstored : (receiveDmabufsCounted ctx a).1.ctx.bufs ≠ [] := by
      rw [(hreceipt.of_arrives htested harr).1]
      exact htested.zip_ne_nil
    left
    rw [((h.accepts harr).mp hstored).size]
    exact Nat.mul_mod_left _ _
  · right
    refine ⟨harr, ?_⟩
    rw [← hreceipt.of_cut htested harr]
    exact h.inBounds

theorem receivesExactly_of_not_tested (hbufs : ctx.bufs = [])
    (hreceipt : Receipt ctx a (receiveDmabufsCounted ctx a)) (hno : ¬ a.Tested) :
    ReceivesExactly ctx a := by
  obtain ⟨hnil, hread⟩ := hreceipt.of_not_tested hbufs hno
  have hno' : ¬ a.WellFormed := fun hwell => hno hwell.tested
  refine ⟨fun _ => ?_, fun _ hwell => absurd hwell hno', ?_⟩
  · simp [hnil, hno']
  · simp [hread]

theorem receivesExactly_of_wellFormed
    (hreceipt : Receipt ctx a (receiveDmabufsCounted ctx a)) (hwell : a.WellFormed) :
    ReceivesExactly ctx a := by
  refine ⟨fun harr => ?_, fun harr _ bufs hpush => ?_, ?_⟩
  · rw [(hreceipt.of_arrives hwell.tested harr).1]
    simp [hwell, hwell.tested.zip_ne_nil]
  · rw [(hreceipt.of_arrives hwell.tested harr).1]
    exact hpush.zip_eq
  · by_cases harr : a.Arrives
    · rw [(hreceipt.of_arrives hwell.tested harr).2]
      exact hwell.size_le
    · rw [hreceipt.of_cut hwell.tested harr]
      exact (not_le.mp harr).le.trans hwell.size_le

end Receipts

/-- `receive_dmabufs` takes exactly the well-formed messages, and stays in bounds, if and only
if the size of a message that passes its tests has no remainder, or the payload is cut off
before it overruns the array. -/
theorem receivesExactly_iff_multiple {ctx : Ctx φ} (hbufs : ctx.bufs = []) (a : Announcement φ) :
    ReceivesExactly ctx a ↔ (a.Tested → a.hdr.size % bufInfoSize = 0 ∨
      ¬ a.Arrives ∧ a.payload.length ≤ maxBufs * bufInfoSize) := by
  have hreceipt := receiveDmabufsCounted_receipt hbufs a
  refine ⟨fun h => h.multiple hreceipt, fun h => ?_⟩
  by_cases htested : a.Tested
  · rcases h htested with hmod | ⟨hcut, hle⟩
    · exact receivesExactly_of_wellFormed hreceipt (htested.wellFormed hmod)
    · refine ⟨fun harr => absurd harr hcut, fun harr => absurd harr hcut, ?_⟩
      rw [hreceipt.of_cut htested hcut]
      exact hle
  · exact receivesExactly_of_not_tested hbufs hreceipt htested

theorem receivesExactly_twoBufs :
    ReceivesExactly (Ctx.fresh 0)
      ⟨8, ⟨.bufsReady, 40⟩, [5, 6], List.replicate 40 0, by decide, by decide, by decide⟩ :=
  (receivesExactly_iff_multiple rfl _).mpr fun _ => .inl rfl

/-- A size of one byte less than nine records is read over the end of `infos`. -/
theorem not_receivesExactly_overrun :
    ¬ ReceivesExactly (Ctx.fresh 0)
      ⟨8, ⟨.bufsReady, 179⟩, [1, 2, 3, 4, 5, 6, 7, 8], List.replicate 179 0,
        by decide, by decide, by decide⟩ := by
  intro h
  have hwritten := h.inBounds
  revert hwritten
  decide +kernel

end Channel
end ACGlass
