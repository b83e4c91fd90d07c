import ACGlass.Custody
import ACGlass.Protocol
import Mathlib.Data.List.ReduceOption

/-!
# The dma-bufs of the Android consumer

`collect_dmabufs` and `cleanup_dmabufs` on the arrays of `g_state`. The arrays start out
zeroed, and the descriptor zero is not the value that marks a slot as empty.
-/

namespace ACGlass
namespace Android

open Transition Custody

/-- `MAX_COLLECT_BUFS` -/
def maxCollectBufs : ℕ := 8

/-- `PIXEL_FORMAT_RGBA_8888` -/
def pixelFormatRgba8888 : UInt32 := 1

/-- The arrays of `struct consumer_state`; a slot of `dmabufFds` that is `-1` is `none`. -/
structure Dmabufs where
  bufCount : ℕ
  dmabufFds : List (Option ℕ)
  dmabufInfos : List BufInfo
  bufBits : List UInt64
  deriving DecidableEq, Repr

/-- One attempt: the `bits` and `stride` of the locked buffer, the descriptor that
`fd_from_maps` finds for it, and its duplicate. -/
structure LockCalls where
  lock : Option (UInt64 × UInt32)
  fdFromMaps : Option ℕ
  dup : Option ℕ
  deriving DecidableEq, Repr

namespace Dmabufs

variable (s : Dmabufs)

/-- The zero-initialised `g_state`. -/
def zeroed : Dmabufs where
  bufCount := 0
  dmabufFds := List.replicate maxCollectBufs (some 0)
  dmabufInfos := List.replicate maxCollectBufs ⟨0, 0, 0, 0⟩
  bufBits := List.replicate maxCollectBufs 0

/-- The descriptors in the first `n` slots. -/
def fdsBelow (n : ℕ) : List ℕ := (s.dmabufFds.take n).reduceOption

/-- `if (s->dmabuf_fds[i] >= 0) { close(s->dmabuf_fds[i]); s->dmabuf_fds[i] = -1; }` for
every `i < n`. -/
def closeBelow (n : ℕ) : Dmabufs × List (Move ℕ) :=
  ({ s with dmabufFds := List.replicate (min n s.dmabufFds.length) none ++ s.dmabufFds.drop n },
    (s.fdsBelow n).map .giveBack)

def cleanupDmabufs : Dmabufs × List (Move ℕ) :=
  let (s, moves) := s.closeBelow s.bufCount
  ({ s with bufCount := 0 }, moves)

/-- Fill the slot `found`. -/
def store (found : ℕ) (bits : UInt64) (stride : UInt32) (fd : ℕ) : Dmabufs :=
  { s with
    bufBits := s.bufBits.set found bits
    dmabufFds := s.dmabufFds.set found (some fd)
    dmabufInfos := s.dmabufInfos.set found ⟨stride * 4, pixelFormatRgba8888, 0, 0⟩ }

/-- The loop of `collect_dmabufs` with `n` attempts left; the calls of every attempt are
looked up by its number. -/
def collectLoop (calls : ℕ → LockCalls) (target : ℕ) :
    ℕ → ℕ → ℕ → Dmabufs → Dmabufs × ℕ × List (Move ℕ)
  | 0, _, found, s => (s, found, [])
  | n + 1, attempt, found, s =>
    if target ≤ found then (s, found, [])
    else
      match (calls attempt).lock with
      | none => (s, found, [])
      | some (bits, stride) =>
        match (calls attempt).fdFromMaps, (calls attempt).dup with
        | some _, some dupFd =>
          if bits ∈ s.bufBits.take found then collectLoop calls target n (attempt + 1) found s
          else
            let (t, total, moves) := collectLoop calls target n (attempt + 1) (found + 1)
              (s.store found bits stride dupFd)
            (t, total, .take dupFd :: moves)
        -- without a descriptor, or without a duplicate of it, nothing is stored
        | _, _ => collectLoop calls target n (attempt + 1) found s

/-- `collect_dmabufs` with `buf_count` as its target; the last component is its success. -/
def collectDmabufs (calls : ℕ → LockCalls) : Dmabufs × List (Move ℕ) × Bool :=
  let (t, found, moves) := collectLoop calls s.bufCount (s.bufCount * 4) 0 0 s
  if found < s.bufCount then
    -- the slots below `found` have just been filled
    let (t, closed) := t.closeBelow found
    (t, moves ++ closed, false)
  else ({ t with bufCount := found }, moves, true)

/-- The number of buffers that `do_connect` asks for; none for a negative one. -/
def totalBufs (minUndequeued : ℤ) : ℕ := (min (minUndequeued + 2) maxCollectBufs).toNat

/-- `do_connect` up to the collection. -/
def prepare (minUndequeued : ℤ) : Dmabufs × List (Move ℕ) :=
  let (s, moves) := s.cleanupDmabufs
  ({ s with bufCount := totalBufs minUndequeued }, moves)

/-- The part of `do_connect` that concerns the buffers. -/
def recollect (minUndequeued : ℤ) (calls : ℕ → LockCalls) : Dmabufs × List (Move ℕ) × Bool :=
  let (s, cleaned) := s.prepare minUndequeued
  let (s, moves, ok) := s.collectDmabufs calls
  (s, cleaned ++ moves, ok)

/-- `pre` and the duplicates collected after it are stored in this order over `fds`. -/
structure Collected (fds : List (Option ℕ)) (target : ℕ) (s : Dmabufs) (pre : List ℕ)
    (out : Dmabufs × ℕ × List (Move ℕ)) (dups : List ℕ) : Prop where
  bufCount : out.1.bufCount = s.bufCount
  total : out.2.1 = (pre ++ dups).length
  total_le : out.2.1 ≤ target
  fds : out.1.dmabufFds = (pre ++ dups).map some ++ fds.drop (pre ++ dups).length
  moves : ∀ own, exec hand own out.2.2 = some ((dups : Multiset ℕ) + own)

theorem store_fds {fds : List (Option ℕ)} {pre : List ℕ} (hlen : pre.length < fds.length)
    (hs : s.dmabufFds = pre.map some ++ fds.drop pre.length) (bits : UInt64) (stride : UInt32)
    (fd : ℕ) :
    (s.store pre.length bits stride fd).dmabufFds =
      (pre ++ [fd]).map some ++ fds.drop (pre ++ [fd]).length := by
  unfold store
  dsimp only
  rw [hs, List.set_append_right _ _ (by simp), List.length_map, Nat.sub_self,
    List.drop_eq_getElem_cons hlen, List.set_cons_zero]
  simp

theorem collected_stop {fds : List (Option ℕ)} {target : ℕ} {pre : List ℕ}
    (hpre : pre.length ≤ target) (hs : s.dmabufFds = pre.map some ++ fds.drop pre.length) :
    Collected fds target s pre (s, pre.length, []) [] :=
  ⟨rfl, by simp, hpre, by simpa using hs, by simp⟩

theorem collectLoop_collected (calls : ℕ → LockCalls) {fds : List (Option ℕ)} {target : ℕ}
    (htarget : target ≤ fds.length) (n attempt : ℕ) (pre : List ℕ) (s : Dmabufs)
    (hpre : pre.length ≤ target) (hs : s.dmabufFds = pre.map some ++ fds.drop pre.length) :
    ∃ dups, Collected fds target s pre (collectLoop calls target n attempt pre.length s) dups := by
  induction n generalizing attempt pre s with
  | zero => exact ⟨[], s.collected_stop hpre hs⟩
  | succ n ih =>
    unfold collectLoop
    split
    · exact ⟨[], s.collected_stop hpre hs⟩
    rename_i hfound
    split
    · exact ⟨[], s.collected_stop hpre hs⟩
    rename_i bits stride hlock
    split
    · rename_i fd dupFd hfd hdup
      split
      · exact ih (attempt + 1) pre s hpre hs
      · have hlen : pre.length < fds.length := by omega
        have hstore := s.store_fds hlen hs bits stride dupFd
        have hnext : (pre ++ [dupFd]).length = pre.length + 1 := by simp
        obtain ⟨dups, h⟩ := ih (attempt + 1) (pre ++ [dupFd]) _ (by omega) hstore
        rw [hnext] at h
        have happ : pre ++ [dupFd] ++ dups = pre ++ dupFd :: dups := by simp
        refine ⟨dupFd :: dups, h.bufCount, happ ▸ h.total, h.total_le, happ ▸ h.fds, ?_⟩
        intro own
        dsimp only
        rw [exec_cons, hand, Option.bind_some, h.moves, ← Multiset.cons_coe, Multiset.cons_add,
          Multiset.add_cons]
    · exact ih (attempt + 1) pre s hpre hs

/-- How many duplicates `collect_dmabufs` stores before it looks whether they are enough. -/
def found (calls : ℕ → LockCalls) : ℕ := (collectLoop calls s.bufCount (s.bufCount * 4) 0 0 s).2.1

/-- Either every slot up to the count is filled with a duplicate, or all are closed again. -/
inductive Collection (r : Dmabufs × List (Move ℕ) × Bool) (dups : List ℕ) : Prop
  | complete (bufCount : r.1.bufCount = dups.length)
      (fds : r.1.dmabufFds = dups.map some ++ s.dmabufFds.drop dups.length)
      (moves : exec hand 0 r.2.1 = some ↑dups) (ok : r.2.2 = true)
  | cutShort (bufCount : r.1.bufCount = s.bufCount)
      (fds : r.1.dmabufFds = List.replicate dups.length none ++ s.dmabufFds.drop dups.length)
      (moves : exec hand 0 r.2.1 = some 0) (failed : r.2.2 = false)

theorem reduceOption_map_some (own : List ℕ) : (own.map some).reduceOption = own := by
  simp [List.reduceOption, List.filterMap_map]

theorem closeBelow_prefix {own : List ℕ} {rest : List (Option ℕ)}
    (hs : s.dmabufFds = own.map some ++ rest) :
    (s.closeBelow own.length).1.dmabufFds = List.replicate own.length none ++ rest ∧
      (s.closeBelow own.length).2 = own.map .giveBack := by
  unfold closeBelow fdsBelow
  rw [hs]
  constructor
  · simp
  · rw [List.take_left' (List.length_map _), reduceOption_map_some]

theorem collectDmabufs_collection (calls : ℕ → LockCalls)
    (hcount : s.bufCount ≤ s.dmabufFds.length) :
    ∃ dups : List ℕ, s.found calls = dups.length ∧ dups.length ≤ s.bufCount ∧
      s.Collection (s.collectDmabufs calls) dups := by
  obtain ⟨dups, h⟩ := collectLoop_collected calls hcount (s.bufCount * 4) 0 [] s (Nat.zero_le _)
    (by simp)
  unfold collectDmabufs found
  rw [List.length_nil] at h
  obtain ⟨hcnt, htotal, hle, hfds, hmoves⟩ := h
  generalize collectLoop calls s.bufCount (s.bufCount * 4) 0 0 s = out at *
  obtain ⟨t, found, moves⟩ := out
  dsimp only [List.nil_append] at hcnt htotal hle hfds hmoves ⊢
  subst htotal
  refine ⟨dups, rfl, hle, ?_⟩
  have hown := hmoves 0
  rw [add_zero] at hown
  split
  · obtain ⟨hclosed, hgiven⟩ := t.closeBelow_prefix hfds
    refine .cutShort hcnt hclosed ?_ rfl
    dsimp only
    rw [hgiven, exec_append, hown, Option.bind_some]
    simpa using exec_giveBack dups 0
  · exact .complete rfl hfds hown rfl

end Dmabufs

/-- What happens to the buffers: an attempt to connect, whether or not the connection itself
then fails, and the end of a call to `nativeStart` or `nativeStop`. -/
inductive BufferOp
  | doConnect (minUndequeued : ℤ) (calls : ℕ → LockCalls)
  | teardown

/-- A run of the consumer. `filled` is how many slots have ever been written to. -/
structure BufferRun where
  dmabufs : Dmabufs
  filled : ℕ
  log : List (Move ℕ)

namespace BufferRun

variable (s : BufferRun)

def initial : BufferRun := ⟨.zeroed, 0, []⟩

def step : BufferOp → Option BufferRun
  | .doConnect minUndequeued calls =>
    let (t, moves, _) := s.dmabufs.recollect minUndequeued calls
    some ⟨t, max (max s.filled s.dmabufs.bufCount) ((s.dmabufs.prepare minUndequeued).1.found calls),
      s.log ++ moves⟩
  | .teardown =>
    let (t, moves) := s.dmabufs.cleanupDmabufs
    some ⟨t, max s.filled s.dmabufs.bufCount, s.log ++ moves⟩

/-- Only duplicates in custody have been closed, and the others are in slots that the next
cleanup closes. -/
def InCustody : Prop :=
  ∃ own ∈ after s.log, own ≤ ↑(s.dmabufs.fdsBelow s.dmabufs.bufCount)

instance : Decidable s.InCustody :=
  inferInstanceAs (Decidable (∃ own ∈ after s.log, own ≤ ↑(s.dmabufs.fdsBelow s.dmabufs.bufCount)))

/-- Every slot that a cleanup would look at has been written to. -/
def Written : Prop := s.dmabufs.bufCount ≤ s.filled

/-- The duplicates in custody fill the slots from the first on, or there is none. -/
structure Layout (own : List ℕ) (empty : ℕ) : Prop where
  fds : s.dmabufs.dmabufFds = own.map some ++ (List.replicate empty none ++
    List.replicate (maxCollectBufs - (own.length + empty)) (some 0))
  filled : s.filled = own.length + empty
  filled_le : own.length + empty ≤ maxCollectBufs
  count_le : s.dmabufs.bufCount ≤ maxCollectBufs
  count : own = [] ∨ own.length = s.dmabufs.bufCount
  custody : after s.log = some ↑own

theorem layout_initial : initial.Layout [] 0 :=
  ⟨rfl, rfl, Nat.zero_le _, Nat.zero_le _, .inl rfl, rfl⟩

variable {s : BufferRun} {own : List ℕ} {empty : ℕ}

theorem Layout.length (h : s.Layout own empty) : s.dmabufs.dmabufFds.length = maxCollectBufs := by
  have hle := h.filled_le
  rw [h.fds]
  simp
  omega

/-- A cleanup that looks at nothing else empties the slots of the duplicates. -/
theorem Layout.cleanup (h : s.Layout own empty) (hw : s.Written) :
    s.dmabufs.cleanupDmabufs.1.dmabufFds =
        List.replicate s.filled none ++ List.replicate (maxCollectBufs - s.filled) (some 0) ∧
      exec hand ↑own s.dmabufs.cleanupDmabufs.2 = some 0 := by
  unfold Dmabufs.cleanupDmabufs
  dsimp only
  rcases h.count with rfl | hcount
  · have hle : s.dmabufs.bufCount ≤ empty := by
      have hfilled := h.filled
      rw [Written] at hw
      simpa [hfilled] using hw
    have hmin : min s.dmabufs.bufCount maxCollectBufs = s.dmabufs.bufCount :=
      Nat.min_eq_left h.count_le
    have hsum : s.dmabufs.bufCount + (empty - s.dmabufs.bufCount) = empty := by omega
    unfold Dmabufs.closeBelow Dmabufs.fdsBelow
    rw [h.length, hmin, h.filled, h.fds]
    simp only [List.map_nil, List.nil_append, List.length_nil, Nat.zero_add, List.take_append,
      List.drop_append, List.length_replicate, List.take_replicate, List.drop_replicate,
      Nat.sub_eq_zero_of_le hle, Nat.min_eq_left hle, ← List.append_assoc,
      List.replicate_append_replicate, hsum]
    constructor
    · simp
    · simp [List.reduceOption]
  · obtain ⟨hfds, hmoves⟩ := s.dmabufs.closeBelow_prefix h.fds
    rw [hcount] at hfds hmoves
    rw [hfds, hmoves, h.filled, ← hcount]
    constructor
    · rw [List.replicate_add, List.append_assoc]
    · simpa using exec_giveBack own 0

/-- A slot that was never written to holds the descriptor zero, which nobody duplicated. -/
theorem Layout.cleanup_unwritten (h : s.Layout own empty) (hw : ¬ s.Written)
    (moves : List (Move ℕ)) : after (s.log ++ (s.dmabufs.cleanupDmabufs.2 ++ moves)) = none := by
  rw [after_append h.custody]
  have hlt : own.length + empty < s.dmabufs.bufCount := by
    rw [← h.filled]
    exact Nat.lt_of_not_le hw
  have hown : own = [] := by
    rcases h.count with hown | hcount
    · exact hown
    · omega
  subst hown
  apply exec_giveBack_empty
  have hcount := h.count_le
  have hmem : some 0 ∈ s.dmabufs.dmabufFds.take s.dmabufs.bufCount := by
    rw [h.fds, List.map_nil, List.nil_append, List.take_append]
    simp at hlt ⊢
    omega
  intro hnil
  have hzero : 0 ∈ s.dmabufs.fdsBelow s.dmabufs.bufCount := List.reduceOption_mem_iff.mpr hmem
  rw [hnil] at hzero
  cases hzero

theorem Layout.teardown (h : s.Layout own empty) (hw : s.Written) {s' : BufferRun}
    (hs : s.step .teardown = some s') : s'.Layout [] s.filled := by
  obtain ⟨hfds, hmoves⟩ := h.cleanup hw
  obtain rfl := Option.some.inj hs
  have hle := h.filled_le
  have hfilled := h.filled
  constructor
  · rw [List.map_nil, List.nil_append, List.length_nil, Nat.zero_add]
    exact hfds
  · exact (Nat.max_eq_left hw).trans (Nat.zero_add _).symm
  · rw [List.length_nil]
    omega
  · exact Nat.zero_le _
  · exact .inl rfl
  · rw [after_append h.custody]
    exact hmoves

theorem totalBufs_le (minUndequeued : ℤ) : Dmabufs.totalBufs minUndequeued ≤ maxCollectBufs := by
  unfold Dmabufs.totalBufs
  omega

theorem Layout.doConnect (h : s.Layout own empty) (hw : s.Written) {s' : BufferRun}
    {minUndequeued : ℤ} {calls : ℕ → LockCalls}
    (hs : s.step (.doConnect minUndequeued calls) = some s') :
    ∃ own' empty', s'.Layout own' empty' := by
  obtain ⟨hfds, hmoves⟩ := h.cleanup hw
  obtain rfl := Option.some.inj hs
  have htotal := totalBufs_le minUndequeued
  have hle : s.filled ≤ maxCollectBufs := h.filled ▸ h.filled_le
  have hprep : (s.dmabufs.prepare minUndequeued).1.dmabufFds = _ := hfds
  have hcount : (s.dmabufs.prepare minUndequeued).1.bufCount =
    Dmabufs.totalBufs minUndequeued := rfl
  obtain ⟨dups, hfound, hdups, hcoll⟩ := (s.dmabufs.prepare minUndequeued).1.collectDmabufs_collection calls
    (by rw [hprep, hcount]; simp; omega)
  have hfilled : ∀ n, max (max s.filled s.dmabufs.bufCount) n = n + (s.filled - n) := by
    rw [Written] at hw
    omega
  have hrest : (s.dmabufs.prepare minUndequeued).1.dmabufFds.drop dups.length =
      List.replicate (s.filled - dups.length) none ++
        List.replicate (maxCollectBufs - (dups.length + (s.filled - dups.length))) (some 0) := by
    rw [hprep]
    simp [List.drop_append]
    omega
  have hlog : ∀ own moves, exec hand 0 moves = some own →
      after (s.log ++ ((s.dmabufs.prepare minUndequeued).2 ++ moves)) = some own := by
    intro own moves hown
    have hprep : exec hand _ (s.dmabufs.prepare minUndequeued).2 = some 0 := hmoves
    rw [after_append h.custody, exec_append, hprep]
    exact hown
  cases hcoll with
  | complete bufCount fds moves ok =>
    refine ⟨dups, s.filled - dups.length, ?_⟩
    constructor
    · exact fds.trans (congrArg _ hrest)
    · exact (congrArg _ hfound).trans (hfilled _)
    · omega
    · exact bufCount.trans_le (by omega)
    · exact .inr bufCount.symm
    · exact hlog _ _ moves
  | cutShort bufCount fds moves failed =>
    refine ⟨[], dups.length + (s.filled - dups.length), ?_⟩
    constructor
    · rw [hrest, ← List.append_assoc, List.replicate_append_replicate] at fds
      rw [List.map_nil, List.nil_append, List.length_nil, Nat.zero_add]
      exact fds
    · rw [List.length_nil, Nat.zero_add]
      exact (congrArg _ hfound).trans (hfilled _)
    · rw [List.length_nil]
      omega
    · exact bufCount.trans_le (by omega)
    · exact .inl rfl
    · exact hlog _ _ moves

/-- What every run keeps while its cleanups look at written slots only. -/
def Ordered (s : BufferRun) : Prop := ∃ own empty, s.Layout own empty

theorem Ordered.inCustody (h : s.Ordered) : s.InCustody := by
  obtain ⟨own, empty, h⟩ := h
  refine ⟨own, h.custody, ?_⟩
  rcases h.count with rfl | hcount
  · simp
  · rw [Dmabufs.fdsBelow, h.fds, ← hcount, List.take_left' (List.length_map _),
      Dmabufs.reduceOption_map_some]

theorem Ordered.step (h : s.Ordered) (hw : s.Written) {op : BufferOp} {s' : BufferRun}
    (hs : s.step op = some s') : s'.Ordered := by
  obtain ⟨own, empty, h⟩ := h
  cases op with
  | doConnect minUndequeued calls => exact h.doConnect hw hs
  | teardown => exact ⟨[], s.filled, h.teardown hw hs⟩

theorem Ordered.inCustody_iff (h : s.Ordered) {op : BufferOp} {s' : BufferRun}
    (hs : s.step op = some s') : s'.InCustody ↔ s.Written := by
  constructor
  · rintro ⟨own', hafter, -⟩
    by_contra hw
    obtain ⟨own, empty, h⟩ := h
    have hnone := h.cleanup_unwritten hw
    cases op with
    | doConnect minUndequeued calls =>
      obtain rfl := Option.some.inj hs
      have hlog := hnone ((s.dmabufs.prepare minUndequeued).1.collectDmabufs calls).2.1
      exact absurd (hlog.symm.trans hafter) (by simp)
    | teardown =>
      obtain rfl := Option.some.inj hs
      have hlog := hnone []
      rw [List.append_nil] at hlog
      exact absurd (hlog.symm.trans hafter) (by simp)
  · intro hw
    exact (h.step hw hs).inCustody

end BufferRun

/-- Only duplicates that are still open are closed, and none is lost, if and only if no
cleanup looks at a slot that was never written to. -/
theorem inCustody_iff_written (ops : List BufferOp) :
    Along BufferRun.step (fun _ _ s => s.InCustody) .initial ops ↔
      Along BufferRun.step (fun s _ _ => s.Written) .initial ops :=
  along_iff_of_invariant (I := BufferRun.Ordered) (fun _ _ _ h hs => h.inCustody_iff hs)
    (fun _ _ _ h hs hw => h.step hw hs) ⟨[], 0, BufferRun.layout_initial⟩ ops

/-- The window cannot be locked. -/
def lockFails : ℕ → LockCalls := fun _ => ⟨none, none, none⟩

/-- A first attempt finds no buffer, and the second begins with a cleanup. -/
def retry : List BufferOp := [.doConnect 1 lockFails, .doConnect 1 lockFails]

/-- The cleanup closes the descriptor zero three times. -/
theorem retry_not_inCustody :
    ¬ Along BufferRun.step (fun _ _ s => s.InCustody) .initial retry := by
  decide

end Android
end ACGlass
