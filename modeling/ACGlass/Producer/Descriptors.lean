import ACGlass.Producer.Outcome
import ACGlass.Transition
import Mathlib.Data.Multiset.AddSub

/-!
# What the producer library holds

Descriptors and mappings that the library has come by are held by the context, released, or
lost. Answers of the daemon that are refused, and mappings that fail, are where they get
lost.
-/

namespace ACGlass
namespace Producer

open Transition

variable {φ : Type*}

/-- A descriptor, or the mapping of a page. -/
inductive Resource (φ : Type*)
  | fd (f : φ)
  | map (shm : φ)
  deriving DecidableEq, Repr

def Effect.gains : Effect φ → List (Resource φ)
  | .received fds => fds.map .fd
  | .mmap shm => [.map shm]
  | _ => []

def Effect.releases : Effect φ → List (Resource φ)
  | .close f => [.fd f]
  | .munmap shm => [.map shm]
  | _ => []

attribute [simp] Effect.gains Effect.releases

def gained (effs : List (Effect φ)) : Multiset (Resource φ) := ↑(effs.flatMap Effect.gains)

def released (effs : List (Effect φ)) : Multiset (Resource φ) := ↑(effs.flatMap Effect.releases)

namespace Ctx

variable (ctx : Ctx φ)

/-- What `disconnect` would release. -/
def held : Multiset (Resource φ) := released ctx.disconnect

/-- No descriptor of a channel, no buffer and no mapping. -/
structure Clean : Prop where
  dataFd : ctx.dataFd = none
  bufReadyEfd : ctx.bufReadyEfd = none
  refreshDoneEfd : ctx.refreshDoneEfd = none
  shmFd : ctx.shmFd = none
  shmPtr : ctx.shmPtr = none
  bufs : ctx.bufs = []

instance [DecidableEq φ] : Decidable ctx.Clean :=
  decidable_of_iff (ctx.dataFd = none ∧ ctx.bufReadyEfd = none ∧ ctx.refreshDoneEfd = none ∧
      ctx.shmFd = none ∧ ctx.shmPtr = none ∧ ctx.bufs = [])
    ⟨fun ⟨h₁, h₂, h₃, h₄, h₅, h₆⟩ => ⟨h₁, h₂, h₃, h₄, h₅, h₆⟩,
      fun ⟨h₁, h₂, h₃, h₄, h₅, h₆⟩ => ⟨h₁, h₂, h₃, h₄, h₅, h₆⟩⟩

/-- A context in fallback holds nothing but its connection to the daemon. -/
def Sound : Prop := ctx.fallback = true → ctx.Clean

instance [DecidableEq φ] : Decidable ctx.Sound :=
  inferInstanceAs (Decidable (ctx.fallback = true → ctx.Clean))

end Ctx

/-- The descriptors of an answer that is refused. -/
def AnswerCalls.refused (calls : AnswerCalls φ) : List φ :=
  match recvFds 4 calls.msg with
  | none => []
  | some m =>
    match m.hdr.type, m.fds with
    | .fdsReady, [_, _, _, _] => []
    | _, fds => fds

/-- An answer that is taken, with a page that cannot be mapped. -/
def AnswerCalls.unmapped (calls : AnswerCalls φ) : Bool :=
  match recvFds 4 calls.msg with
  | none => false
  | some m =>
    match m.hdr.type, m.fds with
    | .fdsReady, [_, _, _, _] => !calls.mmapOk
    | _, _ => false

/-- The descriptors of a `BUFS_READY` whose header is cut. -/
def BufsCalls.cut (calls : BufsCalls φ) : List φ :=
  match recvFds maxBufs calls.msg with
  | none => []
  | some m => if m.n < dataMsgSize then m.fds else []

/-- `recv_all` fills in an information for every buffer. -/
def BufsCalls.filled (calls : BufsCalls φ) : Bool :=
  match recvFds maxBufs calls.msg, calls.infos with
  | some m, some infos => m.fds.length ≤ infos.length
  | _, _ => true

/-- An operation on a connected context. -/
inductive Call (φ : Type*)
  | tryReconnect (calls : ReconnectCalls φ)
  | waitBufferAsync
  | waitBufferAsyncResult (pickup : PickupCalls φ) (polls : List BufferPoll)
      (bufs : BufsCalls φ)
  | pollDisplayEvent (poll : DisplayPoll)
  | pushWindowEvent (event : Bytes) (sendOk : Bool)
  deriving DecidableEq, Repr

/-- What the call makes of the context; `none` is a call that does not return. -/
def Ctx.call (ctx : Ctx φ) : Call φ → Option (Out φ)
  | .tryReconnect calls => some (ctx.tryReconnect calls)
  | .waitBufferAsync => some ctx.waitBufferAsync
  | .waitBufferAsyncResult pickup polls bufs =>
    if bufs.filled then ctx.waitBufferAsyncResult pickup polls bufs else none
  | .pollDisplayEvent poll => some (ctx.pollDisplayEvent poll).1
  | .pushWindowEvent event sendOk => some (ctx.pushWindowEvent event sendOk)

/-- The descriptors that the call receives and forgets. -/
def Ctx.drops (ctx : Ctx φ) : Call φ → List φ
  | .tryReconnect calls =>
    if ctx.fallback && calls.sendOk && calls.polled then calls.answer.refused else []
  | .waitBufferAsyncResult pickup polls bufs =>
    if ctx.fallback then if pickup.sendOk then pickup.answer.refused else []
    else if ctx.asyncPending && waitBuffer polls = some true && ctx.bufs.isEmpty then bufs.cut
    else []
  | _ => []

/-- The call keeps an answer whose page it cannot map. -/
def Ctx.clutters (ctx : Ctx φ) : Call φ → Bool
  | .tryReconnect calls =>
    ctx.fallback && calls.sendOk && calls.polled && calls.answer.unmapped
  | .waitBufferAsyncResult pickup _ _ =>
    ctx.fallback && pickup.sendOk && pickup.answer.unmapped
  | _ => false

/-- The descriptors that a connect receives and forgets. -/
def ConnectCalls.drops (calls : ConnectCalls φ) : List φ :=
  match calls.connectUnix, calls.helloOk, calls.screen with
  | some _, true, some (hdr, _) =>
    if hdr.type ≠ .screenInfo ∨ hdr.size ≠ screenInfoSize then []
    else if calls.pickup.sendOk then calls.pickup.answer.refused
    else []
  | _, _, _ => []

inductive Op (φ : Type*)
  | connect (calls : ConnectCalls φ)
  | call (c : Call φ)
  | disconnect
  deriving DecidableEq, Repr

/-- A run of the library with all it has come by and all it has let go of. -/
structure Account (φ : Type*) where
  ctx : Option (Ctx φ)
  taken : Multiset (Resource φ)
  freed : Multiset (Resource φ)

namespace Account

variable (s : Account φ)

def initial : Account φ := ⟨none, 0, 0⟩

def take (ctx : Option (Ctx φ)) (effs : List (Effect φ)) : Account φ :=
  ⟨ctx, s.taken + gained effs, s.freed + released effs⟩

def step : Op φ → Option (Account φ)
  | .connect calls =>
    if s.ctx.isSome then none
    else
      let (ctx, effs) := connectToDeamon calls
      some (s.take ctx (.received calls.connectUnix.toList :: effs))
  | .call c => s.ctx.bind fun ctx => (ctx.call c).map fun out => s.take (some out.ctx) out.effs
  | .disconnect => s.ctx.map fun ctx => s.take none ctx.disconnect

/-- With a `disconnect` now, everything would have been released once. -/
def Settled : Prop := s.taken = s.freed + (s.ctx.map Ctx.held).getD 0

/-- What a run owes: nothing is lost, and fallback is clean. -/
def InOrder : Prop := s.Settled ∧ ∀ ctx ∈ s.ctx, ctx.Sound

instance [DecidableEq φ] : Decidable s.InOrder :=
  inferInstanceAs (Decidable
    (s.taken = s.freed + (s.ctx.map Ctx.held).getD 0 ∧ ∀ ctx ∈ s.ctx, ctx.Sound))

/-- The operation forgets no descriptor and keeps no answer whose page it cannot map. -/
def Careful : Op φ → Prop
  | .connect calls => calls.drops = []
  | .call c => ∀ ctx ∈ s.ctx, ctx.drops c = [] ∧ ctx.clutters c = false
  | .disconnect => True

end Account

theorem gained_append (effs effs' : List (Effect φ)) :
    gained (effs ++ effs') = gained effs + gained effs' := by
  simp [gained]

theorem released_append (effs effs' : List (Effect φ)) :
    released (effs ++ effs') = released effs + released effs' := by
  simp [released]

@[simp] theorem gained_nil : gained ([] : List (Effect φ)) = 0 := rfl

@[simp] theorem released_nil : released ([] : List (Effect φ)) = 0 := rfl

theorem gained_cons (x : Effect φ) (effs : List (Effect φ)) :
    gained (x :: effs) = ↑x.gains + gained effs := by
  simp [gained]

theorem released_cons (x : Effect φ) (effs : List (Effect φ)) :
    released (x :: effs) = ↑x.releases + released effs := by
  simp [released]

@[simp] theorem gained_closeIf (fd : Option φ) : gained (closeIf fd) = 0 := by
  cases fd <;> rfl

@[simp] theorem gained_munmapIf (shm : Option φ) : gained (munmapIf shm) = 0 := by
  cases shm <;> rfl

@[simp] theorem gained_map_close (fds : List φ) : gained (fds.map Effect.close) = 0 := by
  induction fds with
  | nil => rfl
  | cons fd fds ih =>
    rw [List.map_cons, gained_cons, ih]
    rfl

@[simp] theorem released_map_close (fds : List φ) :
    released (fds.map Effect.close) = ↑(fds.map Resource.fd) := by
  induction fds with
  | nil => rfl
  | cons fd fds ih =>
    rw [List.map_cons, released_cons, ih]
    rfl

@[simp] theorem released_closeIf (fd : Option φ) :
    released (closeIf fd) = ↑(fd.toList.map Resource.fd) := by
  cases fd <;> rfl

@[simp] theorem released_munmapIf (shm : Option φ) :
    released (munmapIf shm) = ↑(shm.toList.map Resource.map) := by
  cases shm <;> rfl

namespace Ctx

variable (ctx : Ctx φ)

/-- What is gained is held or released; `lost` is the rest. -/
def Accounts (lost : Multiset (Resource φ)) (out : Out φ) : Prop :=
  gained out.effs + ctx.held = released out.effs + out.ctx.held + lost

theorem held_eq : ctx.held = released ctx.closeBufs + (released (munmapIf ctx.shmPtr) +
    released (closeIf ctx.shmFd) + released (closeIf ctx.ctrlFd) + released (closeIf ctx.dataFd) +
      released (closeIf ctx.bufReadyEfd) + released (closeIf ctx.refreshDoneEfd)) := by
  simp only [held, disconnect, release, released_append]

theorem gained_closeBufs : gained ctx.closeBufs = 0 := by
  simpa [closeBufs, Function.comp_def] using gained_map_close (ctx.bufs.map Prod.fst)

theorem enterFallback_accounts :
    gained ctx.enterFallback.2 = 0 ∧
      released ctx.enterFallback.2 + ctx.enterFallback.1.held = ctx.held := by
  unfold enterFallback
  split
  · exact ⟨rfl, by simp⟩
  have hcb : gained ctx.callFallbackCb = 0 ∧ released ctx.callFallbackCb = 0 := by
    unfold callFallbackCb
    split <;> exact ⟨rfl, rfl⟩
  constructor
  · simp only [gained_append, gained_closeBufs, hcb.1, gained_closeIf, gained_munmapIf, add_zero]
  · simp only [held_eq, released_append, hcb.2, closeBufs, closeIf, munmapIf, Option.toList_none,
      List.map_nil, released_nil, add_zero, zero_add]
    abel

theorem Clean.held_eq (h : ctx.Clean) : ctx.held = ↑(ctx.ctrlFd.toList.map Resource.fd) := by
  simp [Ctx.held_eq, closeBufs, h.dataFd, h.bufReadyEfd, h.refreshDoneEfd, h.shmFd, h.shmPtr,
    h.bufs]

/-- The descriptors of a refused answer are lost. -/
theorem takeFds_accounts (h : ctx.Clean) (calls : AnswerCalls φ) :
    ctx.Accounts ↑(calls.refused.map Resource.fd) (ctx.takeFds calls) := by
  unfold Accounts
  rw [h.held_eq]
  unfold takeFds AnswerCalls.refused
  cases hm : recvFds 4 calls.msg with
  | none => simp [h.held_eq]
  | some m =>
    dsimp only
    generalize m.hdr.type = type
    generalize m.fds = fds
    split
    · split
      all_goals
        simp only [Ctx.held_eq, closeBufs, h.bufs, gained_cons, released_cons,
          Effect.gains, Effect.releases, gained_nil, released_nil, released_closeIf,
          released_munmapIf, Option.toList_some, Option.toList_none, List.map_cons, List.map_nil,
          ← Multiset.cons_coe, ← Multiset.singleton_add, Multiset.coe_nil]
        abel
    · simp [released, gained, Effect.gains, Effect.releases, add_comm, h.held_eq]

theorem takeFds_cases (calls : AnswerCalls φ) :
    ((ctx.takeFds calls).ctx = ctx ∧ calls.unmapped = false) ∨
      ((ctx.takeFds calls).ctx.fallback = false ∧ calls.unmapped = false) ∨
      ((ctx.takeFds calls).ctx.fallback = ctx.fallback ∧
        (ctx.takeFds calls).ctx.dataFd ≠ none ∧ calls.unmapped = true) := by
  unfold takeFds AnswerCalls.unmapped
  cases hm : recvFds 4 calls.msg with
  | none => exact .inl ⟨rfl, rfl⟩
  | some m =>
    dsimp only
    generalize m.hdr.type = type
    generalize m.fds = fds
    split
    · cases calls.mmapOk <;> simp
    · simp

/-- Only a page that cannot be mapped leaves something behind in fallback. -/
theorem takeFds_sound (h : ctx.Clean) (hf : ctx.fallback = true) (calls : AnswerCalls φ) :
    (ctx.takeFds calls).ctx.Sound ↔ calls.unmapped = false := by
  rcases ctx.takeFds_cases calls with ⟨hctx, hun⟩ | ⟨hfb, hun⟩ | ⟨hfb, hfd, hun⟩
  · rw [hctx, hun]
    exact ⟨fun _ => rfl, fun _ _ => h⟩
  · rw [hun]
    exact ⟨fun _ => rfl, fun _ hf' => absurd hf' (by simp [hfb])⟩
  · rw [hun]
    constructor
    · intro hs
      exact absurd (hs (hfb.trans hf)).dataFd hfd
    · intro hun
      cases hun

theorem enterFallback_sound (h : ctx.Sound) : ctx.enterFallback.1.Sound := by
  unfold enterFallback
  split
  · exact h
  · intro _
    constructor <;> rfl

/-- What an operation does to a sound context: `lost` is forgotten, and `clutters` says
whether fallback is left holding something. -/
structure Books (lost : List φ) (clutters : Bool) (out : Out φ) : Prop where
  accounts : ctx.Accounts ↑(lost.map Resource.fd) out
  sound : out.ctx.Sound ↔ clutters = false

theorem pickupFds_asyncPending (calls : PickupCalls φ) :
    (ctx.pickupFds calls).ctx.asyncPending = ctx.asyncPending := by
  unfold pickupFds takeFds
  split
  · rfl
  dsimp only
  split
  · rfl
  split
  · split <;> rfl
  · rfl

section Books

variable {ctx : Ctx φ}

theorem Books.refl (h : ctx.Sound) (ret : Int) : ctx.Books [] false ⟨ctx, [], ret⟩ :=
  ⟨by simp [Accounts], iff_of_true h rfl⟩

/-- Effects that neither gain nor release do not show in the books. -/
theorem Books.around {lost : List φ} {clutters : Bool} {out : Out φ}
    (h : ctx.Books lost clutters out) (effs : List (Effect φ)) (hg : gained effs = 0)
    (hr : released effs = 0) (pending : Bool) (ret : Int) :
    ctx.Books lost clutters
      ⟨{ out.ctx with asyncPending := pending }, effs ++ out.effs, ret⟩ := by
  constructor
  · have hacc := h.accounts
    unfold Accounts at hacc ⊢
    rw [gained_append, released_append, hg, hr, zero_add, zero_add]
    exact hacc
  · rw [← h.sound]
    constructor
    all_goals
      intro hs hf
      obtain ⟨h₁, h₂, h₃, h₄, h₅, h₆⟩ := hs hf
      exact ⟨h₁, h₂, h₃, h₄, h₅, h₆⟩

theorem Books.failWith (h : ctx.Sound) {effs : List (Effect φ)} {lost : List φ}
    (heff : gained effs = released effs + ↑(lost.map Resource.fd)) :
    ctx.Books lost false (ctx.failWith effs) := by
  obtain ⟨hg, hr⟩ := ctx.enterFallback_accounts
  constructor
  · unfold Accounts Ctx.failWith
    dsimp only
    rw [gained_append, released_append, hg, heff, ← hr]
    abel
  · exact iff_of_true (ctx.enterFallback_sound h) rfl

theorem takeFds_books (h : ctx.Clean) (hf : ctx.fallback = true) (calls : AnswerCalls φ) :
    ctx.Books calls.refused calls.unmapped (ctx.takeFds calls) :=
  ⟨ctx.takeFds_accounts h calls, ctx.takeFds_sound h hf calls⟩

theorem takeReconnect_books (h : ctx.Clean) (hf : ctx.fallback = true) (calls : AnswerCalls φ) :
    ctx.Books calls.refused calls.unmapped (ctx.takeReconnect calls) := by
  have hbooks := takeFds_books h hf calls
  have hbufs : (ctx.takeFds calls).ctx.bufs = [] := by rw [takeFds_bufs, h.bufs]
  have htake : { (ctx.takeFds calls).ctx with bufs := [] } = (ctx.takeFds calls).ctx := by
    rw [← hbufs]
  unfold takeReconnect
  dsimp only
  split
  · exact hbooks
  · rw [htake]
    exact hbooks

theorem tryReconnect_books (h : ctx.Sound) (calls : ReconnectCalls φ) :
    ctx.Books (ctx.drops (.tryReconnect calls)) (ctx.clutters (.tryReconnect calls))
      (ctx.tryReconnect calls) := by
  unfold tryReconnect drops clutters
  dsimp only
  cases hf : ctx.fallback with
  | false => exact .refl h 0
  | true =>
    cases calls.sendOk with
    | false => exact .refl h (-1)
    | true =>
      cases calls.polled with
      | false =>
        exact (Books.refl h (-1)).around [.sendCtrl .pickupFds] rfl rfl ctx.asyncPending _
      | true =>
        exact (takeReconnect_books (h hf) hf calls.answer).around [.sendCtrl .pickupFds]
          rfl rfl (ctx.takeReconnect calls.answer).ctx.asyncPending _

theorem pickupFds_books (h : ctx.Clean) (hf : ctx.fallback = true) (calls : PickupCalls φ) :
    ctx.Books (if calls.sendOk then calls.answer.refused else [])
      (calls.sendOk && calls.answer.unmapped) (ctx.pickupFds calls) := by
  unfold pickupFds
  cases calls.sendOk with
  | false => exact .refl (fun _ => h) (-1)
  | true =>
    exact (takeFds_books h hf calls.answer).around [.sendCtrl .pickupFds] rfl rfl
      (ctx.takeFds calls.answer).ctx.asyncPending _

/-- Received descriptors that are all closed again. -/
theorem Books.closeAll (h : ctx.Sound) (fds : List φ) :
    ctx.Books [] false ⟨ctx, .received fds :: fds.map .close, -1⟩ := by
  constructor
  · simp [Accounts, gained_cons, released_cons]
  · exact iff_of_true h rfl

theorem receiveDmabufs_books (h : ctx.Sound) (hf : ctx.fallback = false) {calls : BufsCalls φ}
    (hfill : calls.filled = true) :
    ctx.Books (if ctx.bufs.isEmpty then calls.cut else []) false (ctx.receiveDmabufs calls) := by
  unfold receiveDmabufs
  by_cases hbufs : ctx.bufs = []
  · have hempty : ¬ 0 < ctx.bufs.length := by simp [hbufs]
    rw [if_neg hempty, if_pos (by simp [hbufs])]
    unfold BufsCalls.cut
    unfold BufsCalls.filled at hfill
    cases hm : recvFds maxBufs calls.msg with
    | none => exact .failWith h rfl
    | some m =>
      rw [hm] at hfill
      dsimp only at hfill ⊢
      by_cases hn : m.n < dataMsgSize
      · rw [if_pos hn, if_pos (.inl hn)]
        exact .failWith h (by simp [gained, released])
      rw [if_neg hn]
      split
      · rename_i hlen
        have hnone : m.fds = [] := by
          apply List.eq_nil_of_length_eq_zero
          omega
        rw [hnone]
        exact .failWith h rfl
      split
      · exact .closeAll h m.fds
      split
      · exact .closeAll h m.fds
      cases hinfos : calls.infos with
      | none => exact .failWith h (by simp [gained_cons, released_cons])
      | some infos =>
        rw [hinfos] at hfill
        have hfst : (m.fds.zip infos).map Prod.fst = m.fds :=
          List.map_fst_zip (of_decide_eq_true hfill)
        have hclose : closeBufs { ctx with bufs := m.fds.zip infos } = m.fds.map .close := by
          conv_rhs => rw [← hfst, List.map_map]
          rfl
        constructor
        · simp only [Accounts, held_eq, hclose]
          simp [closeBufs, hbufs, gained_cons, released_cons]
        · exact iff_of_true (fun hf' => absurd hf' (by simp [hf])) rfl
  · have hfull : 0 < ctx.bufs.length := List.length_pos_of_ne_nil hbufs
    rw [if_pos hfull, if_neg (by simpa using hbufs)]
    exact .refl h 0

theorem awaitBuffer_books (h : ctx.Sound) (hf : ctx.fallback = false) {polls : List BufferPoll}
    {bufs : BufsCalls φ} (hfill : bufs.filled = true) {out : Out φ} (pickup : PickupCalls φ)
    (hout : ctx.awaitBuffer polls bufs = some out) :
    ctx.Books (ctx.drops (.waitBufferAsyncResult pickup polls bufs)) false out := by
  unfold awaitBuffer at hout
  unfold drops
  dsimp only
  rw [if_neg (by simp [hf])]
  cases hp : ctx.asyncPending with
  | false =>
    rw [hp] at hout
    obtain rfl := Option.some.inj hout
    exact .refl h (-1)
  | true =>
    rw [hp] at hout
    obtain ⟨readable, hread, rfl⟩ := Option.map_eq_some_iff.mp hout
    rw [hread]
    cases readable with
    | false =>
      have hfail : ctx.Books [] false (ctx.failWith []) := .failWith h rfl
      exact hfail.around [] rfl rfl _ _
    | true =>
      have hefd : ∀ efd : Option φ, gained (efd.toList.map Effect.eventfdRead) = 0 ∧
          released (efd.toList.map Effect.eventfdRead) = 0 := by
        intro efd
        cases efd <;> exact ⟨rfl, rfl⟩
      exact (receiveDmabufs_books h hf hfill).around _ (hefd _).1 (hefd _).2 _ _

/-- In fallback nothing is pending, so nothing is waited for. -/
theorem waitBufferAsyncResult_of_fallback (hf : ctx.fallback = true) {pickup : PickupCalls φ}
    {polls : List BufferPoll} {bufs : BufsCalls φ} {out : Out φ}
    (hout : ctx.waitBufferAsyncResult pickup polls bufs = some out) :
    out.ctx = (pickupFds { ctx with asyncPending := false } pickup).ctx ∧
      out.effs = (pickupFds { ctx with asyncPending := false } pickup).effs := by
  have hpend := pickupFds_asyncPending { ctx with asyncPending := false } pickup
  unfold waitBufferAsyncResult at hout
  rw [if_pos hf] at hout
  dsimp only at hout hpend
  split at hout
  · obtain rfl := Option.some.inj hout
    exact ⟨rfl, rfl⟩
  · rw [awaitBuffer, hpend] at hout
    obtain rfl := Option.some.inj hout
    exact ⟨rfl, List.append_nil _⟩

theorem waitBufferAsyncResult_books (h : ctx.Sound) {pickup : PickupCalls φ}
    {polls : List BufferPoll} {bufs : BufsCalls φ} (hfill : bufs.filled = true) {out : Out φ}
    (hout : ctx.waitBufferAsyncResult pickup polls bufs = some out) :
    ctx.Books (ctx.drops (.waitBufferAsyncResult pickup polls bufs))
      (ctx.clutters (.waitBufferAsyncResult pickup polls bufs)) out := by
  cases hf : ctx.fallback with
  | false =>
    rw [waitBufferAsyncResult, hf] at hout
    have hclut : ctx.clutters (.waitBufferAsyncResult pickup polls bufs) = false := by
      simp [clutters, hf]
    rw [hclut]
    exact awaitBuffer_books h hf hfill pickup hout
  | true =>
    obtain ⟨hctx, heffs⟩ := waitBufferAsyncResult_of_fallback hf hout
    have hclean : Clean { ctx with asyncPending := false } := by
      obtain ⟨h₁, h₂, h₃, h₄, h₅, h₆⟩ := h hf
      exact ⟨h₁, h₂, h₃, h₄, h₅, h₆⟩
    have hbooks := pickupFds_books hclean hf pickup
    simp only [drops, clutters, hf, if_true, Bool.true_and]
    constructor
    · have hacc := hbooks.accounts
      rw [Accounts, ← hctx, ← heffs] at hacc
      exact hacc
    · rw [hctx]
      exact hbooks.sound

theorem takeMessage_books (h : ctx.Sound) (size : ℕ) (ret : Int) (hdr : DataMsg)
    (payload : Option Bytes) : ctx.Books [] false (ctx.takeMessage size ret hdr payload).1 := by
  unfold takeMessage
  split
  · exact .failWith h rfl
  split
  · exact .refl h (-1)
  · exact (Books.refl h ret).around [.recvAll (dataMsgSize + size)] rfl rfl
      ctx.asyncPending ret

theorem pollDisplayEvent_books (h : ctx.Sound) (poll : DisplayPoll) :
    ctx.Books [] false (ctx.pollDisplayEvent poll).1 := by
  unfold pollDisplayEvent
  split
  · exact .refl h 0
  split
  · exact .refl h 0
  · exact .refl h 0
  · exact .failWith h rfl
  split
  · exact takeMessage_books h _ _ _ _
  · exact takeMessage_books h _ _ _ _
  split
  · exact .failWith h rfl
  split
  · exact .refl h (-1)
  · exact (Books.refl h 0).around [.recvAll _] rfl rfl ctx.asyncPending 0

theorem pushWindowEvent_books (h : ctx.Sound) (event : Bytes) (sendOk : Bool) :
    ctx.Books [] false (ctx.pushWindowEvent event sendOk) := by
  unfold pushWindowEvent
  split
  · exact .refl h 0
  split
  · exact .failWith h rfl
  split
  · exact (Books.refl h 1).around [.sendData _ .windowEvent event] rfl rfl
      ctx.asyncPending 1
  · exact .failWith h rfl

theorem call_books (h : ctx.Sound) {c : Call φ} {out : Out φ} (hout : ctx.call c = some out) :
    ctx.Books (ctx.drops c) (ctx.clutters c) out := by
  unfold call at hout
  cases c with
  | tryReconnect calls =>
    obtain rfl := Option.some.inj hout
    exact tryReconnect_books h calls
  | waitBufferAsync =>
    obtain rfl := Option.some.inj hout
    exact (Books.refl h 0).around [] rfl rfl true 0
  | waitBufferAsyncResult pickup polls bufs =>
    dsimp only at hout
    split at hout
    · rename_i hfill
      exact waitBufferAsyncResult_books h hfill hout
    · cases hout
  | pollDisplayEvent poll =>
    obtain rfl := Option.some.inj hout
    exact pollDisplayEvent_books h poll
  | pushWindowEvent event sendOk =>
    obtain rfl := Option.some.inj hout
    exact pushWindowEvent_books h event sendOk

end Books

end Ctx

theorem fresh_clean (fd : φ) (si : ScreenInfo) : ((Ctx.fresh fd).setScreen si).Clean := by
  constructor <;> rfl

theorem released_release {ctx : Ctx φ} (h : ctx.bufs = []) : released ctx.release = ctx.held := by
  simp [Ctx.held, Ctx.disconnect, Ctx.closeBufs, h]

theorem gained_release (ctx : Ctx φ) : gained ctx.release = 0 := by
  simp [Ctx.release, gained_append]

/-- Of what a connect comes by, only the descriptors of a refused answer are lost. -/
theorem connectToDeamon_accounts (calls : ConnectCalls φ) :
    gained (.received calls.connectUnix.toList :: (connectToDeamon calls).2) =
      released (connectToDeamon calls).2 + ((connectToDeamon calls).1.map Ctx.held).getD 0 +
        ↑(calls.drops.map Resource.fd) := by
  have hfail : ∀ fd : φ, gained (Ctx.fresh fd).release = 0 ∧
      released (Ctx.fresh fd).release = {Resource.fd fd} := fun fd => ⟨rfl, rfl⟩
  unfold connectToDeamon ConnectCalls.drops
  cases hunix : calls.connectUnix with
  | none => rfl
  | some fd =>
    cases hhello : calls.helloOk with
    | false => simp [gained_cons, hfail]
    | true =>
      cases hscreen : calls.screen with
      | none => simp [gained_cons, released_cons, hfail]
      | some msg =>
        obtain ⟨hdr, si⟩ := msg
        dsimp only
        by_cases hmsg : hdr.type ≠ .screenInfo ∨ hdr.size ≠ screenInfoSize
        · simp [hmsg, gained_cons, released_cons, hfail]
        · have hclean := fresh_clean fd si
          have hacc := (Ctx.pickupFds_books hclean rfl calls.pickup).accounts
          have hbufs := ((Ctx.fresh fd).setScreen si).pickupFds_bufs calls.pickup
          have hheld : ((Ctx.fresh fd).setScreen si).held = {Resource.fd fd} := rfl
          rw [Ctx.Accounts, hheld] at hacc
          rw [if_neg hmsg, if_neg (by simp), if_neg hmsg]
          rw [Multiset.add_comm, Multiset.singleton_add] at hacc
          split
          · simp only [gained_cons, released_cons, gained_append, released_append, gained_release,
              released_release hbufs]
            simpa using hacc
          · simpa [gained_cons, released_cons] using hacc

namespace Account

variable {s s' : Account φ} {op : Op φ}

theorem settled_take (h : s.Settled) (ctx : Option (Ctx φ)) (effs : List (Effect φ))
    (lost : List φ)
    (hbal : gained effs + (s.ctx.map Ctx.held).getD 0 =
      released effs + (ctx.map Ctx.held).getD 0 + ↑(lost.map Resource.fd)) :
    (s.take ctx effs).Settled ↔ lost = [] := by
  have hs : s.taken = s.freed + (s.ctx.map Ctx.held).getD 0 := h
  have htotal : s.taken + gained effs =
      s.freed + released effs + (ctx.map Ctx.held).getD 0 + ↑(lost.map Resource.fd) := by
    rw [hs, add_assoc, add_comm _ (gained effs), hbal]
    abel
  unfold Settled take
  dsimp only
  rw [htotal, add_eq_left]
  simp

theorem inOrder_initial : (initial : Account φ).InOrder := ⟨rfl, by simp [initial]⟩

/-- A step keeps the books in order exactly if it is careful. -/
theorem inOrder_iff (h : s.InOrder) (hs : s.step op = some s') :
    s'.InOrder ↔ s.Careful op := by
  obtain ⟨hset, hclean⟩ := h
  cases op with
  | connect calls =>
    simp only [step] at hs
    split at hs
    · cases hs
    rename_i hnone
    have hnone : s.ctx = none := by simpa using hnone
    obtain rfl := Option.some.inj hs
    have hiff := settled_take hset (connectToDeamon calls).1
      (.received calls.connectUnix.toList :: (connectToDeamon calls).2) calls.drops (by
        rw [hnone, connectToDeamon_accounts calls]
        simp [released_cons])
    constructor
    · intro hord
      exact hiff.mp hord.1
    · intro hcare
      refine ⟨hiff.mpr hcare, ?_⟩
      intro ctx hctx hfb
      rw [connectToDeamon_fallback hctx] at hfb
      cases hfb
  | call c =>
    simp only [step, Option.bind_eq_some_iff, Option.map_eq_some_iff] at hs
    obtain ⟨ctx, hctx, out, hout, rfl⟩ := hs
    have hbooks := Ctx.call_books (hclean ctx hctx) hout
    have hiff := settled_take hset (some out.ctx) out.effs (ctx.drops c)
      (by rw [hctx]; exact hbooks.accounts)
    have hcare : s.Careful (.call c) ↔ ctx.drops c = [] ∧ ctx.clutters c = false := by
      simp [Careful, hctx]
    have hsound : (∀ ctx ∈ (s.take (some out.ctx) out.effs).ctx, ctx.Sound) ↔ out.ctx.Sound := by
      simp [take]
    rw [InOrder, hiff, hcare, hsound, hbooks.sound]
  | disconnect =>
    simp only [step, Option.map_eq_some_iff] at hs
    obtain ⟨ctx, hctx, rfl⟩ := hs
    have hquiet : gained ctx.disconnect = 0 := by
      rw [Ctx.disconnect, gained_append, gained_release, Ctx.gained_closeBufs, add_zero]
    have hiff := settled_take hset none ctx.disconnect []
      (by rw [hctx, hquiet]; simp [Ctx.held])
    exact iff_of_true ⟨hiff.mpr rfl, by simp [take]⟩ trivial

end Account

/-- Whenever the library would disconnect, everything that it came by would have been
released once, and a context in fallback holds nothing of a channel, if and only if no
operation forgets a descriptor or keeps an answer whose page it cannot map. -/
theorem inOrder_iff_careful (ops : List (Op φ)) :
    Along Account.step (fun _ _ s => s.InOrder) .initial ops ↔
      Along Account.step (fun s op _ => s.Careful op) .initial ops :=
  along_iff_of_invariant (I := Account.InOrder) (fun _ _ _ h hs => Account.inOrder_iff h hs)
    (fun _ _ _ h hs hcare => (Account.inOrder_iff h hs).mpr hcare) Account.inOrder_initial ops

/-- An answer with a page that can be mapped or not. -/
def answerWith (fds : List ℕ) (mmapOk : Bool) : AnswerCalls ℕ where
  msg := some ⟨ctrlMsgSize, ⟨.fdsReady, 0⟩, fds⟩
  mmapOk := mmapOk

/-- A channel that hangs up, and a reconnection whose page cannot be mapped. -/
def unmappedReconnect : List (Op ℕ) :=
  [.connect
      { connectUnix := some 1, helloOk := true
        screen := some (⟨.screenInfo, screenInfoSize⟩, ⟨0, 0, 0, 0⟩)
        pickup := ⟨true, answerWith [2, 3, 4, 5] true⟩ },
    .call (.pollDisplayEvent .hangup),
    .call (.tryReconnect ⟨true, true, answerWith [6, 7, 8, 9] false⟩)]

/-- The context holds four descriptors of a channel while it is in fallback. -/
theorem unmappedReconnect_not_inOrder :
    ¬ Along Account.step (fun _ _ s => s.InOrder) (.initial : Account ℕ) unmappedReconnect := by
  decide

end Producer
end ACGlass
