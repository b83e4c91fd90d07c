import ACGlass.Consumer.Library

/-!
# The consumer's channel

The socketpair, the eventfds and the shared page make up one generation of the
channel. Every operation leaves the channel alone, loses it, or replaces it by a new
one that it deposits with the daemon. Descriptors are numbers here, handed out by
the kernel in increasing order, and the two ends of a socketpair are neighbours.
-/

namespace ACGlass
namespace Consumer

/-- The new descriptors are the next ones of the kernel. -/
def FallbackCalls.From (n : ℕ) (calls : FallbackCalls ℕ) : Prop :=
  calls.bufReadyEfd ∈ [none, some n] ∧ calls.refreshDoneEfd ∈ [none, some (n + 1)] ∧
    calls.shm.memfd ∈ [none, some (n + 2)] ∧
    calls.hello.socketpair ∈ [none, some (n + 3, n + 4)]

instance (n : ℕ) (calls : FallbackCalls ℕ) : Decidable (calls.From n) :=
  inferInstanceAs (Decidable (_ ∧ _ ∧ _ ∧ _))

/-- The descriptors of a `CONSUMER_HELLO`. -/
def helloOf {φ : Type*} : Effect φ → Option (List φ)
  | .sendHello fds => some fds
  | _ => none

def hellos {φ : Type*} (effs : List (Effect φ)) : List (List φ) := effs.filterMap helloOf

/-- No store through a `NULL` mapping. -/
def NoNullWrite {φ : Type*} (effs : List (Effect φ)) : Prop :=
  ∀ value, Effect.shmWrite none value ∉ effs

/-- The calls send the given deposits and write to no missing page. -/
structure Sends {φ : Type*} (effs : List (Effect φ)) (fds : List (List φ)) : Prop where
  hellos : hellos effs = fds
  noNullWrite : NoNullWrite effs

/-- The generation held in the context is the one deposited with `fds`. -/
def Ctx.Holds (ctx : Ctx ℕ) (fds : List ℕ) : Prop :=
  ∃ e r k m, ctx.bufReadyEfd = some e ∧ ctx.refreshDoneEfd = some r ∧ ctx.dataFd = some k ∧
    ctx.shmFd = some m ∧ ctx.shmPtr = some m ∧ fds = [e, r, k + 1, m]

/-- What the operations rely on outside of fallback. -/
structure Ctx.Open {φ : Type*} (ctx : Ctx φ) : Prop where
  shmPtr : ctx.shmPtr.isSome
  dataFd : ctx.dataFd.isSome
  bufReadyEfd : ctx.bufReadyEfd.isSome
  refreshDoneEfd : ctx.refreshDoneEfd.isSome

structure SameChannel {φ : Type*} (ctx ctx' : Ctx φ) : Prop where
  fallback : ctx'.fallback = ctx.fallback
  dataFd : ctx'.dataFd = ctx.dataFd
  bufReadyEfd : ctx'.bufReadyEfd = ctx.bufReadyEfd
  refreshDoneEfd : ctx'.refreshDoneEfd = ctx.refreshDoneEfd
  shmFd : ctx'.shmFd = ctx.shmFd
  shmPtr : ctx'.shmPtr = ctx.shmPtr

/-- The deposit that a fallback makes when the kernel is at `n`. -/
def depositFrom (n : ℕ) : List ℕ := [n, n + 1, n + 4, n + 2]

/-- What an operation does to the channel of `ctx`. -/
inductive ChannelStep (n : ℕ) (ctx ctx' : Ctx ℕ) (effs : List (Effect ℕ)) : Prop
  | kept (h : SameChannel ctx ctx') (hs : Sends effs [])
  | lost (h : ctx.fallback = false) (h' : ctx'.fallback = true) (hs : Sends effs [])
  | renewed (h : ctx.fallback = false) (h' : ctx'.fallback = true)
      (hs : Sends effs [depositFrom n]) (hold : ctx'.Holds (depositFrom n))

section Sends

variable {φ : Type*} {effs effs' : List (Effect φ)} {fds fds' : List (List φ)}

theorem Sends.append (h : Sends effs fds) (h' : Sends effs' fds') :
    Sends (effs ++ effs') (fds ++ fds') where
  hellos := by rw [Consumer.hellos, List.filterMap_append, ← h.hellos, ← h'.hellos]; rfl
  noNullWrite := by
    intro value hx
    rcases List.mem_append.mp hx with hx | hx
    · exact h.noNullWrite value hx
    · exact h'.noNullWrite value hx

/-- Appending calls that deposit nothing. -/
theorem Sends.append_quiet (h : Sends effs fds) (h' : Sends effs' []) :
    Sends (effs ++ effs') fds :=
  List.append_nil fds ▸ h.append h'

theorem sends_nil : Sends ([] : List (Effect φ)) [] := ⟨rfl, by simp [NoNullWrite]⟩

theorem sends_closeIf (fd : Option φ) : Sends (closeIf fd) [] := by
  cases fd with
  | none => exact sends_nil
  | some fd => exact ⟨rfl, by simp [closeIf, NoNullWrite]⟩

theorem sends_munmapIf (shm : Option φ) : Sends (munmapIf shm) [] := by
  cases shm with
  | none => exact sends_nil
  | some shm => exact ⟨rfl, by simp [munmapIf, NoNullWrite]⟩

theorem sends_eventfdWrite (efd : Option φ) :
    Sends (efd.toList.map Effect.eventfdWrite) [] := by
  cases efd with
  | none => exact sends_nil
  | some efd => exact ⟨rfl, by simp [NoNullWrite]⟩

theorem sends_callFallbackCb (ctx : Ctx φ) : Sends ctx.callFallbackCb [] := by
  unfold Ctx.callFallbackCb
  split
  · exact ⟨rfl, by simp [NoNullWrite]⟩
  · exact sends_nil

theorem sends_closeChannel (ctx : Ctx φ) : Sends ctx.closeChannel [] :=
  ((((sends_closeIf _).append_quiet (sends_closeIf _)).append_quiet
    (sends_closeIf _)).append_quiet (sends_munmapIf _)).append_quiet (sends_closeIf _)

theorem sends_release (ctx : Ctx φ) : Sends ctx.release [] :=
  (((((sends_munmapIf _).append_quiet (sends_closeIf _)).append_quiet
    (sends_closeIf _)).append_quiet (sends_closeIf _)).append_quiet
    (sends_closeIf _)).append_quiet (sends_closeIf _)

end Sends

section Channel

variable {ctx ctx' : Ctx ℕ} {effs : List (Effect ℕ)} {n : ℕ} {fds : List ℕ}

theorem Ctx.Holds.isOpen (h : ctx.Holds fds) : ctx.Open := by
  obtain ⟨e, r, k, m, he, hr, hk, hm, hp, -⟩ := h
  exact ⟨by simp [hp], by simp [hk], by simp [he], by simp [hr]⟩

theorem SameChannel.refl {φ : Type*} (ctx : Ctx φ) : SameChannel ctx ctx :=
  ⟨rfl, rfl, rfl, rfl, rfl, rfl⟩

theorem SameChannel.trans {ctx'' : Ctx ℕ} (h : SameChannel ctx ctx')
    (h' : SameChannel ctx' ctx'') : SameChannel ctx ctx'' :=
  ⟨h'.fallback.trans h.fallback, h'.dataFd.trans h.dataFd, h'.bufReadyEfd.trans h.bufReadyEfd,
    h'.refreshDoneEfd.trans h.refreshDoneEfd, h'.shmFd.trans h.shmFd, h'.shmPtr.trans h.shmPtr⟩

theorem SameChannel.holds (h : SameChannel ctx ctx') (hold : ctx.Holds fds) :
    ctx'.Holds fds := by
  obtain ⟨e, r, k, m, he, hr, hk, hm, hp, hfds⟩ := hold
  exact ⟨e, r, k, m, h.bufReadyEfd.trans he, h.refreshDoneEfd.trans hr, h.dataFd.trans hk,
    h.shmFd.trans hm, h.shmPtr.trans hp, hfds⟩

theorem SameChannel.isOpen (h : SameChannel ctx ctx') (ho : ctx.Open) : ctx'.Open :=
  ⟨h.shmPtr ▸ ho.shmPtr, h.dataFd ▸ ho.dataFd, h.bufReadyEfd ▸ ho.bufReadyEfd,
    h.refreshDoneEfd ▸ ho.refreshDoneEfd⟩

/-- A channel that is in use afterwards was in use all the time. -/
theorem ChannelStep.same_of_fallback (h : ChannelStep n ctx ctx' effs)
    (hfb : ctx'.fallback = false) : SameChannel ctx ctx' ∧ Sends effs [] := by
  cases h with
  | kept h hs => exact ⟨h, hs⟩
  | lost h h' hs => simp [h'] at hfb
  | renewed h h' hs hold => simp [h'] at hfb

theorem ChannelStep.of_same {ctx₀ : Ctx ℕ} (h : ChannelStep n ctx ctx' effs)
    (hs : SameChannel ctx₀ ctx) : ChannelStep n ctx₀ ctx' effs := by
  cases h with
  | kept h hs' => exact .kept (hs.trans h) hs'
  | lost h h' hs' => exact .lost (hs.fallback ▸ h) h' hs'
  | renewed h h' hs' hold => exact .renewed (hs.fallback ▸ h) h' hs' hold

theorem ChannelStep.noNullWrite (h : ChannelStep n ctx ctx' effs) : NoNullWrite effs := by
  cases h with
  | kept h hs => exact hs.noNullWrite
  | lost h h' hs => exact hs.noNullWrite
  | renewed h h' hs hold => exact hs.noNullWrite

end Channel

section Library

variable {ctx : Ctx ℕ} {n : ℕ}

/-- Either the page is not there and the result is negative, or it is mapped. -/
theorem Ctx.createShm_cases (ctx : Ctx ℕ) {calls : ShmCalls ℕ}
    (hm : calls.memfd ∈ [none, some (n + 2)]) :
    Sends (ctx.createShm calls).effs [] ∧ (ctx.createShm calls).ctx.fallback = ctx.fallback ∧
      ((ctx.createShm calls).ret < 0 ∨
        (ctx.createShm calls).ctx =
          { ctx with shmFd := some (n + 2), shmPtr := some (n + 2) }) := by
  have hneg : (-1 : Int) < 0 := by decide
  have hclose : Sends [(.close (n + 2) : Effect ℕ)] [] := sends_closeIf (some (n + 2))
  unfold createShm
  simp only [List.mem_cons, List.not_mem_nil, or_false] at hm
  rcases hm with hm | hm <;> rw [hm] <;> dsimp only
  · exact ⟨sends_nil, rfl, .inl hneg⟩
  · split_ifs
    · exact ⟨hclose, rfl, .inl hneg⟩
    · exact ⟨hclose, rfl, .inl hneg⟩
    · exact ⟨⟨rfl, by simp [NoNullWrite]⟩, rfl, .inr rfl⟩

/-- A hello that is sent carries the eventfds, the other end of the socketpair and the
page. -/
theorem Ctx.sendHelloFds_cases (ctx : Ctx ℕ) {calls : HelloCalls ℕ}
    (hsv : calls.socketpair ∈ [none, some (n + 3, n + 4)]) :
    (ctx.sendHelloFds calls).ctx.fallback = ctx.fallback ∧
      ((ctx.sendHelloFds calls).ret < 0 ∧ Sends (ctx.sendHelloFds calls).effs [] ∨
        ¬ (ctx.sendHelloFds calls).ret < 0 ∧
        ∃ e r m, ctx.bufReadyEfd = some e ∧ ctx.refreshDoneEfd = some r ∧ ctx.shmFd = some m ∧
          Sends (ctx.sendHelloFds calls).effs [[e, r, n + 4, m]] ∧
          (ctx.sendHelloFds calls).ctx = { ctx with dataFd := some (n + 3) }) := by
  have hneg : (-1 : Int) < 0 := by decide
  have hclose : Sends [(.close (n + 4) : Effect ℕ)] [] := sends_closeIf (some (n + 4))
  unfold sendHelloFds
  simp only [List.mem_cons, List.not_mem_nil, or_false] at hsv
  rcases hsv with hsv | hsv <;> rw [hsv] <;> dsimp only
  · exact ⟨rfl, .inl ⟨hneg, sends_nil⟩⟩
  · split
    · rename_i e r m he hr hm
      split_ifs
      · exact ⟨rfl, .inr ⟨lt_irrefl 0, e, r, m, he, hr, hm, ⟨rfl, by simp [NoNullWrite]⟩, rfl⟩⟩
      · exact ⟨rfl, .inl ⟨hneg, hclose⟩⟩
    · exact ⟨rfl, .inl ⟨hneg, hclose⟩⟩

/-- With eventfds and page of the calls `From n`, a hello deposits that generation and
the context holds it. -/
theorem Ctx.sendHelloFds_holds (ctx : Ctx ℕ) {calls : FallbackCalls ℕ} (hf : calls.From n)
    (he : ctx.bufReadyEfd = calls.bufReadyEfd) (hr : ctx.refreshDoneEfd = calls.refreshDoneEfd)
    (hm : ctx.shmFd = some (n + 2)) (hp : ctx.shmPtr = some (n + 2)) :
    (ctx.sendHelloFds calls.hello).ctx.fallback = ctx.fallback ∧
      ((ctx.sendHelloFds calls.hello).ret < 0 ∧ Sends (ctx.sendHelloFds calls.hello).effs [] ∨
        ¬ (ctx.sendHelloFds calls.hello).ret < 0 ∧
          Sends (ctx.sendHelloFds calls.hello).effs [depositFrom n] ∧
          (ctx.sendHelloFds calls.hello).ctx.Holds (depositFrom n)) := by
  obtain ⟨hfe, hfr, -, hsv⟩ := hf
  obtain ⟨hfb, hres⟩ := ctx.sendHelloFds_cases hsv
  refine ⟨hfb, ?_⟩
  rcases hres with h | ⟨hret, e, r, m, he', hr', hm', hs, hctx⟩
  · exact .inl h
  · rw [← he, he'] at hfe
    rw [← hr, hr'] at hfr
    obtain rfl : e = n := by simpa using hfe
    obtain rfl : r = e + 1 := by simpa using hfr
    obtain rfl : m = e + 2 := by simpa [hm', eq_comm] using hm
    refine .inr ⟨hret, hs, ?_⟩
    rw [hctx]
    exact ⟨_, _, _, _, he', hr', rfl, hm', hp, rfl⟩

theorem Ctx.enterFallback_step (ctx : Ctx ℕ) {calls : FallbackCalls ℕ} (hf : calls.From n) :
    ChannelStep n ctx (ctx.enterFallback calls).1 (ctx.enterFallback calls).2 := by
  unfold enterFallback
  split_ifs with hfb
  · exact .kept (.refl ctx) sends_nil
  have hfb : ctx.fallback = false := by simpa using hfb
  obtain ⟨hs, hfb', hres⟩ := (ctx.renewEfds calls).createShm_cases hf.2.2.1
  have hfront := (sends_closeChannel ctx).append_quiet hs
  dsimp only
  generalize (ctx.renewEfds calls).createShm calls.shm = shm at hfront hfb' hres ⊢
  split_ifs with hret
  · exact .lost hfb hfb' (hfront.append_quiet (sends_callFallbackCb _))
  · have hctx := hres.resolve_left hret
    have hhello := shm.ctx.sendHelloFds_holds hf (by rw [hctx]; rfl)
      (by rw [hctx]; rfl) (by rw [hctx]) (by rw [hctx])
    generalize shm.ctx.sendHelloFds calls.hello = hello at hhello ⊢
    obtain ⟨hfb'', ⟨-, hs'⟩ | ⟨-, hs', hold⟩⟩ := hhello
    · exact .lost hfb (hfb''.trans hfb')
        ((hfront.append_quiet hs').append_quiet (sends_callFallbackCb _))
    · exact .renewed hfb (hfb''.trans hfb')
        ((hfront.append hs').append_quiet (sends_callFallbackCb _)) hold

theorem Ctx.failWith_step (ctx : Ctx ℕ) {calls : FallbackCalls ℕ} (hf : calls.From n) :
    ChannelStep n ctx (ctx.failWith [] calls).ctx (ctx.failWith [] calls).effs :=
  ctx.enterFallback_step hf

theorem Ctx.pushDmabufsInternal_step (ctx : Ctx ℕ) {calls : PushCalls ℕ}
    (hf : calls.fallback.From n) :
    ChannelStep n ctx (ctx.pushDmabufsInternal calls).ctx
      (ctx.pushDmabufsInternal calls).effs := by
  have hfail := ctx.failWith_step hf
  unfold pushDmabufsInternal
  split
  · exact .kept (.refl ctx) sends_nil
  split
  · exact hfail
  split
  · exact hfail
  split
  · exact hfail
  · exact .kept (.refl ctx) ⟨rfl, by simp [NoNullWrite]⟩

theorem Ctx.pushDmabufs_step (ctx : Ctx ℕ) (bufs : List (ℕ × BufInfo)) {calls : PushCalls ℕ}
    (hf : calls.fallback.From n) :
    ChannelStep n ctx (ctx.pushDmabufs bufs calls).ctx (ctx.pushDmabufs bufs calls).effs := by
  unfold pushDmabufs
  split
  · exact .kept (.refl ctx) sends_nil
  dsimp only
  split
  · exact .kept ⟨rfl, rfl, rfl, rfl, rfl, rfl⟩ sends_nil
  · have hstep := ({ ctx with stored := bufs } : Ctx ℕ).pushDmabufsInternal_step hf
    exact hstep.of_same ⟨rfl, rfl, rfl, rfl, rfl, rfl⟩

theorem Ctx.handOver_same (ctx : Ctx ℕ) (idx : Int) (hp : ctx.shmPtr.isSome) :
    SameChannel ctx (ctx.handOver idx).ctx ∧ Sends (ctx.handOver idx).effs [] := by
  obtain ⟨shm, hshm⟩ := Option.isSome_iff_exists.mp hp
  unfold handOver
  split
  · exact ⟨.refl ctx, sends_nil⟩
  · have hwrite : Sends [.shmWrite ctx.shmPtr (UInt32.ofNat idx.toNat)] [] :=
      ⟨rfl, by simp [NoNullWrite, hshm]⟩
    exact ⟨⟨rfl, rfl, rfl, rfl, rfl, rfl⟩, hwrite.append (sends_eventfdWrite ctx.bufReadyEfd)⟩

theorem Ctx.refreshDone_step (ctx : Ctx ℕ) {polls : List RefreshPoll} {readOk : Bool}
    {calls : FallbackCalls ℕ} (hf : calls.From n) {out : Out ℕ}
    (h : ctx.refreshDone polls readOk calls = some out) :
    ChannelStep n ctx out.ctx out.effs := by
  unfold refreshDone at h
  split at h
  · cases h
    exact .kept (.refl ctx) sends_nil
  · obtain ⟨readable, -, rfl⟩ := Option.map_eq_some_iff.mp h
    split
    · exact .kept ⟨rfl, rfl, rfl, rfl, rfl, rfl⟩ sends_nil
    · exact ctx.failWith_step hf

theorem Ctx.pushInputEvent_step (ctx : Ctx ℕ) (event : Bytes) (sendOk : Bool)
    {calls : FallbackCalls ℕ} (hf : calls.From n) :
    ChannelStep n ctx (ctx.pushInputEvent event sendOk calls).ctx
      (ctx.pushInputEvent event sendOk calls).effs := by
  unfold pushInputEvent
  split
  · exact .kept (.refl ctx) sends_nil
  split
  · exact ctx.failWith_step hf
  split
  · exact .kept (.refl ctx) ⟨rfl, by simp [NoNullWrite]⟩
  · exact ctx.failWith_step hf

theorem Ctx.pushWindowCommand_step (ctx : Ctx ℕ) (command : Bytes) (sendOk : Bool)
    {calls : FallbackCalls ℕ} (hf : calls.From n) :
    ChannelStep n ctx (ctx.pushWindowCommand command sendOk calls).ctx
      (ctx.pushWindowCommand command sendOk calls).effs := by
  unfold pushWindowCommand
  split
  · exact .kept (.refl ctx) sends_nil
  split
  · exact ctx.failWith_step hf
  split
  · exact .kept (.refl ctx) ⟨rfl, by simp [NoNullWrite]⟩
  · exact ctx.failWith_step hf

theorem Ctx.pollWindowEvent_step (ctx : Ctx ℕ) (poll : WindowPoll) {calls : FallbackCalls ℕ}
    (hf : calls.From n) :
    ChannelStep n ctx (ctx.pollWindowEvent poll calls).1.ctx
      (ctx.pollWindowEvent poll calls).1.effs := by
  have hfail := ctx.failWith_step hf
  have hkept : ChannelStep n ctx ctx [] := .kept (.refl ctx) sends_nil
  unfold pollWindowEvent
  split
  · exact hkept
  split
  · exact hkept
  · exact hkept
  · exact hfail
  split
  · exact hkept
  split
  · exact hfail
  split
  · exact hfail
  · exact hkept

/-- Without a message to read, a call takes one step. -/
theorem Op.run_step {op : Op ℕ} {msg : Option CtrlType} {out : Out ℕ}
    (hf : ∀ calls, op.fallbackCalls = some calls → calls.From n)
    (hopen : ctx.fallback = false → ctx.Open) (hread : op.reads ctx = false)
    (h : op.run msg ctx = some out) : ChannelStep n ctx out.ctx out.effs := by
  cases op with
  | setScreenInfo si sendOk =>
    cases h
    unfold Ctx.setScreenInfo
    dsimp only
    split
    · exact .kept ⟨rfl, rfl, rfl, rfl, rfl, rfl⟩ ⟨rfl, by simp [NoNullWrite]⟩
    · exact .kept ⟨rfl, rfl, rfl, rfl, rfl, rfl⟩ sends_nil
  | pushDmabufs bufs calls =>
    cases h
    exact ctx.pushDmabufs_step bufs (hf _ rfl)
  | selectDmabuf idx polled calls =>
    cases h
    unfold Ctx.selectDmabuf
    split
    · rename_i hfb
      have hp : polled = false := by simpa [Op.reads, hfb] using hread
      simp only [hp, Ctx.tryExitFallback, hfb, Bool.false_eq_true, if_false, reduceCtorEq, if_true]
      exact .kept (.refl ctx) sends_nil
    · rename_i hfb
      obtain ⟨hsame, hs⟩ := ctx.handOver_same idx (hopen (by simpa using hfb)).shmPtr
      exact .kept hsame hs
  | refreshDone polls readOk calls => exact ctx.refreshDone_step (hf _ rfl) h
  | pushInputEvent event sendOk calls =>
    cases h
    exact ctx.pushInputEvent_step event sendOk (hf _ rfl)
  | pollWindowEvent poll calls =>
    cases h
    exact ctx.pollWindowEvent_step poll (hf _ rfl)
  | pushWindowCommand command sendOk calls =>
    cases h
    exact ctx.pushWindowCommand_step command sendOk (hf _ rfl)
  | wakeDisplayConsumer =>
    cases h
    exact .kept (.refl ctx) ((sends_eventfdWrite _).append_quiet (sends_eventfdWrite _))
  | setFallbackCallback present =>
    cases h
    exact .kept ⟨rfl, rfl, rfl, rfl, rfl, rfl⟩ sends_nil

/-- Reading an `FDS_READY` ends the fallback; pushing the buffers may start the next. -/
theorem Op.run_step_of_reads {op : Op ℕ} {out : Out ℕ}
    (hf : ∀ calls, op.fallbackCalls = some calls → calls.From n) (hopen : ctx.Open)
    (hread : op.reads ctx = true) (h : op.run (some .fdsReady) ctx = some out) :
    ChannelStep n { ctx with fallback := false } out.ctx out.effs := by
  cases op with
  | selectDmabuf idx polled calls =>
    cases h
    obtain ⟨hfb, hp⟩ : ctx.fallback = true ∧ polled = true := by simpa [Op.reads] using hread
    have hpush := ({ ctx with fallback := false } : Ctx ℕ).pushDmabufsInternal_step (hf _ rfl)
    simp only [Ctx.selectDmabuf, Ctx.tryExitFallback, hfb, hp, if_true]
    generalize Ctx.pushDmabufsInternal _ calls = push at hpush ⊢
    split
    · exact hpush
    · rename_i hfb'
      obtain ⟨hsame, hs⟩ := hpush.same_of_fallback (by simpa using hfb')
      obtain ⟨hsame', hs'⟩ := push.ctx.handOver_same idx
        (hsame.isOpen ⟨hopen.shmPtr, hopen.dataFd, hopen.bufReadyEfd, hopen.refreshDoneEfd⟩).shmPtr
      exact .kept (hsame.trans hsame') (hs.append_quiet hs')
  | _ => simp [Op.reads] at hread

/-- A connection attempt fails without a hello, or the new context holds what it
deposits. -/
theorem connectToDeamon_cases (ctrlFd : Option ℕ) {calls : FallbackCalls ℕ}
    (hf : calls.From n) :
    (connectToDeamon ctrlFd calls).1 = none ∧ hellos (connectToDeamon ctrlFd calls).2 = [] ∨
      ∃ ctx, (connectToDeamon ctrlFd calls).1 = some ctx ∧ ctx.fallback = true ∧
        ctx.Holds (depositFrom n) ∧
        hellos (connectToDeamon ctrlFd calls).2 = [depositFrom n] := by
  unfold connectToDeamon
  split
  · exact .inl ⟨rfl, rfl⟩
  rename_i fd
  dsimp only
  split
  · exact .inl ⟨rfl, (sends_release _).hellos⟩
  obtain ⟨hs, hfb, hres⟩ := (Ctx.withEfds fd calls).createShm_cases hf.2.2.1
  generalize (Ctx.withEfds fd calls).createShm calls.shm = shm at hs hfb hres ⊢
  split
  · exact .inl ⟨rfl, (hs.append_quiet (sends_release _)).hellos⟩
  rename_i hret
  have hctx := hres.resolve_left hret
  have hhello := shm.ctx.sendHelloFds_holds hf (by rw [hctx]; rfl)
    (by rw [hctx]; rfl) (by rw [hctx]) (by rw [hctx])
  generalize shm.ctx.sendHelloFds calls.hello = hello at hhello ⊢
  obtain ⟨hfb', ⟨hneg, hs'⟩ | ⟨hneg, hs', hold⟩⟩ := hhello
  · rw [if_pos hneg]
    exact .inl ⟨rfl, ((hs.append_quiet hs').append_quiet (sends_release _)).hellos⟩
  · rw [if_neg hneg]
    exact .inr ⟨hello.ctx, rfl, hfb'.trans hfb, hold, (hs.append hs').hellos⟩

end Library

end Consumer
end ACGlass
