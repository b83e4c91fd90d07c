import ACGlass.Anland.Backend
import ACGlass.Transition

/-!
# What becomes of renderbuffers

An import asks the Vulkan renderer for renderbuffers, which it keeps in a list of the output.
The backend forgets some of them, and `anland_output_disable_renderer` destroys first those that
the backend knows and then those that are left in the list.
-/

namespace ACGlass
namespace Anland

open Transition

variable {φ ρ : Type*}

namespace Output

/-- The renderbuffers that the loop of the import stores, with their indices. -/
def storedFrom (i : ℕ) : List (φ × BufInfo) → List (Option ρ) → List (ℕ × ρ)
  | _ :: bufs, some rb :: created => (i, rb) :: storedFrom (i + 1) bufs created
  | _, _ => []

end Output

section Output

/-- The import up to its end or to its failure. -/
theorem importFrom_eq (o : Output ρ) (i : ℕ) (bufs : List (φ × BufInfo))
    (created : List (Option ρ)) :
    (o.importFrom i bufs created).1.bufCount = o.bufCount ∧
      (o.importFrom i bufs created).1.region = o.region ∧
      (o.importFrom i bufs created).2.2 = decide
        ((Output.storedFrom i bufs created).length = bufs.length) := by
  induction bufs generalizing o i created with
  | nil => exact ⟨rfl, rfl, rfl⟩
  | cons buf bufs ih =>
    cases created with
    | nil => exact ⟨rfl, rfl, by simp [Output.importFrom, Output.storedFrom]⟩
    | cons result created =>
      cases result with
      | none => exact ⟨rfl, rfl, by simp [Output.importFrom, Output.storedFrom]⟩
      | some rb =>
        obtain ⟨hcount, hregion, hok⟩ := ih
          { o with
            renderbuffers := Function.update o.renderbuffers i (some rb)
            accumDamage := Function.update o.accumDamage i o.region } (i + 1) created
        exact ⟨hcount, hregion, hok.trans (by simp [Output.storedFrom])⟩

end Output

namespace Backend

variable (b : Backend φ ρ)

theorem returned_output (out : Producer.Out φ) : (b.returned out).1.output = b.output := by
  unfold returned
  dsimp only
  split_ifs <;> rfl

theorem tryReconnect_output (calls : Producer.ReconnectCalls φ) :
    (b.tryReconnect calls).1.output = b.output := by
  unfold tryReconnect
  dsimp only
  split_ifs <;> exact returned_output b _

theorem reconnectTimerHandler_output (calls : Producer.ReconnectCalls φ) :
    (b.reconnectTimerHandler calls).1.output =
      if b.inFallback then b.dropRenderbuffers.output else b.output := by
  unfold reconnectTimerHandler
  cases b.inFallback with
  | true => exact tryReconnect_output b.dropRenderbuffers calls
  | false => rfl

theorem returned_effs {out : Producer.Out φ} {idx : ℕ} {damage : Region} {rb : ρ} :
    .repaintOutput idx damage rb ∉ (b.returned out).2 := by
  unfold returned fallbackCb
  dsimp only
  split_ifs <;> simp

theorem outputRepaint_none {shm : UInt32} (ht : b.target shm = none) (damage : Region) :
    b.outputRepaint damage shm = (b, [.armFrameTimer]) := by
  rw [outputRepaint, ht]

/-- A repaint that gets past its guards changes nothing of the output but what the buffers are
owed. -/
theorem outputRepaint_some {shm : UInt32} {idx : ℕ} {rb : ρ} (ht : b.target shm = some (idx, rb))
    (damage : Region) :
    (b.outputRepaint damage shm).1.output =
        (b.output.accumulate (damage ∪ b.output.region)).settle idx ∧
      ∃ effs, (b.outputRepaint damage shm).2 = .repaintOutput idx
        ((b.output.accumulate (damage ∪ b.output.region)).accumDamage idx) rb :: effs ∧
        ∀ i debt rb', .repaintOutput i debt rb' ∉ effs := by
  rw [outputRepaint, ht]
  dsimp only
  have hnext : ∀ i debt (rb' : ρ), (.repaintOutput i debt rb' : Effect φ ρ) ∉
      [if b.refresh = 0 then Effect.addIdle else .armFrameTimer] := by
    intro i debt rb'
    split_ifs <;> simp
  generalize (if b.refresh = 0 then Effect.addIdle else .armFrameTimer : Effect φ ρ) = next
    at hnext ⊢
  cases b.consumerReady with
  | true =>
    refine ⟨returned_output _ _, _, rfl, fun i debt rb' hmem => ?_⟩
    rcases List.mem_append.mp hmem with hmem | hmem
    · exact returned_effs _ hmem
    · exact hnext i debt rb' hmem
  | false => exact ⟨rfl, _, rfl, hnext⟩

theorem outputRepaint_renderbuffers (damage : Region) (shm : UInt32) :
    (b.outputRepaint damage shm).1.output.renderbuffers = b.output.renderbuffers ∧
      (b.outputRepaint damage shm).1.output.bufCount = b.output.bufCount := by
  cases ht : b.target shm with
  | none =>
    rw [outputRepaint_none b ht]
    exact ⟨rfl, rfl⟩
  | some found =>
    rw [(outputRepaint_some b ht damage).1]
    exact ⟨rfl, rfl⟩

/-- What is passed to `repaint_output` is the target, with all it is owed. -/
theorem mem_outputRepaint {damage debt : Region} {shm : UInt32} {idx : ℕ} {rb : ρ}
    (h : .repaintOutput idx debt rb ∈ (b.outputRepaint damage shm).2) :
    b.target shm = some (idx, rb) ∧
      debt = (b.output.accumulate (damage ∪ b.output.region)).accumDamage idx := by
  cases ht : b.target shm with
  | none =>
    rw [outputRepaint_none b ht] at h
    simp at h
  | some found =>
    obtain ⟨idx', rb'⟩ := found
    obtain ⟨-, effs, heffs, hnone⟩ := outputRepaint_some b ht damage
    rw [heffs] at h
    rcases List.mem_cons.mp h with heq | hmem
    · obtain ⟨rfl, rfl, rfl⟩ := Effect.repaintOutput.inj heq
      exact ⟨rfl, rfl⟩
    · exact absurd hmem (hnone _ _ _)

theorem target_eq_some {shm : UInt32} {idx : ℕ} {rb : ρ} (ht : b.target shm = some (idx, rb)) :
    idx < b.output.bufCount ∧ b.output.renderbuffers idx = some rb := by
  unfold target at ht
  dsimp only at ht
  split_ifs at ht with hzero hle
  obtain ⟨rb', hrb, heq⟩ := Option.map_eq_some_iff.mp ht
  obtain ⟨rfl, rfl⟩ := Prod.mk.inj heq
  exact ⟨by omega, hrb⟩

end Backend

section Renderer

/-- The `destroy` of a `struct linux_dmabuf_memory`. -/
inductive MemoryDestroy
  | null
  | callable
  deriving DecidableEq, Repr

/-- A `struct vulkan_renderbuffer` with the `destroy` of the memory that its `dmabuf` points
to. -/
structure Renderbuffer (ρ : Type*) where
  pointer : ρ
  memory : MemoryDestroy
  deriving DecidableEq, Repr

/-- What `anland_output_import_dmabufs` writes to `dmabuf_mem_arr[i].destroy`, whatever `i`. -/
def importedMemory : MemoryDestroy := .null

variable [DecidableEq ρ]

/-- `vulkan_renderer_destroy_renderbuffer` on the `renderbuffer_list` of the output. It calls the
`destroy` of the memory and does not return if there is none, nor if the pointer is stale. -/
def destroyRenderbuffer (rbs : List (Renderbuffer ρ)) (pointer : ρ) :
    Option (List (Renderbuffer ρ)) :=
  match rbs.find? fun rb => rb.pointer = pointer with
  | some rb =>
    if rb.memory = .null then none else some (rbs.eraseP fun rb => rb.pointer = pointer)
  | none => none

/-- A loop over `destroy_renderbuffer`: what is passed to it, and the list behind the loop. -/
def destroyEach (rbs : List (Renderbuffer ρ)) : List ρ → List ρ × Option (List (Renderbuffer ρ))
  | [] => ([], some rbs)
  | pointer :: pointers =>
    match destroyRenderbuffer rbs pointer with
    | some rbs =>
      let (passed, rest) := destroyEach rbs pointers
      (pointer :: passed, rest)
    | none => ([pointer], none)

/-- `vulkan_renderer_discard_renderbuffers` as `vulkan_renderer_output_destroy` calls it. -/
def discardRenderbuffers (rbs : List (Renderbuffer ρ)) : List ρ :=
  (destroyEach rbs (rbs.map Renderbuffer.pointer)).1

/-- What `anland_output_disable_renderer` passes to `destroy_renderbuffer`, in order: the counted
entries of the array, then what is left in the list of the renderer. -/
def Output.disableRenderer (o : Output ρ) (rbs : List (Renderbuffer ρ)) : List ρ :=
  let (passed, rest) := destroyEach rbs ((List.range o.bufCount).filterMap o.renderbuffers)
  match rest with
  | some rest => passed ++ discardRenderbuffers rest
  | none => passed

/-- No memory has a function to call. -/
def AllNull (rbs : List (Renderbuffer ρ)) : Prop := ∀ rb ∈ rbs, rb.memory = .null

variable {rbs : List (Renderbuffer ρ)}

theorem destroyRenderbuffer_null (h : AllNull rbs) (pointer : ρ) :
    destroyRenderbuffer rbs pointer = none := by
  unfold destroyRenderbuffer
  cases hfind : rbs.find? fun rb => rb.pointer = pointer with
  | none => rfl
  | some rb => exact if_pos (h rb (List.mem_of_find?_eq_some hfind))

/-- The first call does not return. -/
theorem destroyEach_null (h : AllNull rbs) (pointers : List ρ) :
    destroyEach rbs pointers =
      (pointers.take 1, if pointers = [] then some rbs else none) := by
  cases pointers with
  | nil => rfl
  | cons pointer pointers =>
    rw [destroyEach, destroyRenderbuffer_null h]
    rfl

theorem disableRenderer_null (h : AllNull rbs) (o : Output ρ) :
    o.disableRenderer rbs =
      ((List.range o.bufCount).filterMap o.renderbuffers ++ rbs.map Renderbuffer.pointer).take 1 := by
  rw [Output.disableRenderer, destroyEach_null h]
  cases hentries : (List.range o.bufCount).filterMap o.renderbuffers with
  | nil =>
    exact congrArg Prod.fst (destroyEach_null h (rbs.map Renderbuffer.pointer))
  | cons pointer pointers =>
    rw [if_neg (List.cons_ne_nil _ _)]
    rfl

end Renderer

/-- The backend, and the `renderbuffer_list` that the renderer has for its output. -/
structure Rendering (φ ρ : Type*) where
  backend : Backend φ ρ
  renderbufferList : List (Renderbuffer ρ)

/-- `bufs` is what the library knows at an import, and `created` what the renderer returns. -/
inductive Deed (φ ρ : Type*)
  | imports (bufs : List (φ × BufInfo)) (created : List (Option ρ))
  | fallback
  | tick (calls : Producer.ReconnectCalls φ)
  | repaint (damage : Region) (shm : UInt32)

/-- The renderbuffers that `create_renderbuffer_dmabuf` returns, in order. -/
def Deed.returned : Deed φ ρ → List ρ
  | .imports bufs created => (Output.storedFrom 0 bufs created).map Prod.snd
  | .fallback | .tick _ | .repaint _ _ => []

namespace Rendering

variable (s : Rendering φ ρ)

/-- The output is new; nothing else of the backend matters. -/
def start (b : Backend φ ρ) (width height : ℕ) (region : Region) : Rendering φ ρ :=
  ⟨{ b with output := .fresh width height region }, []⟩

/-- A renderbuffer that the renderer returns has been put in front of its list. -/
def create (d : Deed φ ρ) : List (Renderbuffer ρ) :=
  (d.returned.map fun pointer => ⟨pointer, importedMemory⟩).reverse ++ s.renderbufferList

def step (d : Deed φ ρ) : Option (Rendering φ ρ) :=
  match d with
  | .imports bufs created =>
    if bufs.length ≤ maxBufs then
      some ⟨{ s.backend with output := (s.backend.output.importDmabufs bufs created).1 },
        s.create d⟩
    else none
  | .fallback => some ⟨s.backend.fallbackCb.1, s.create d⟩
  | .tick calls => some ⟨(s.backend.reconnectTimerHandler calls).1, s.create d⟩
  | .repaint damage shm => some ⟨(s.backend.outputRepaint damage shm).1, s.create d⟩

/-- What is passed to `repaint_output` is in the list of the renderer. -/
def PaintsLive : Deed φ ρ → Prop
  | .repaint damage shm => ∀ idx debt rb,
      .repaintOutput idx debt rb ∈ (s.backend.outputRepaint damage shm).2 →
        rb ∈ s.renderbufferList.map Renderbuffer.pointer
  | _ => True

/-- What the backend knows, the renderer has in its list, with nothing to destroy its memory. -/
structure Listed : Prop where
  known : ∀ i rb, s.backend.output.renderbuffers i = some rb →
    rb ∈ s.renderbufferList.map Renderbuffer.pointer
  null : AllNull s.renderbufferList

variable {s} {d : Deed φ ρ} {s' : Rendering φ ρ}

theorem listed_start (b : Backend φ ρ) (width height : ℕ) (region : Region) :
    (start b width height region).Listed where
  known := by
    intro i rb hrb
    cases hrb
  null := by
    intro rb hrb
    cases hrb

theorem pointers_create (s : Rendering φ ρ) (d : Deed φ ρ) :
    (s.create d).map Renderbuffer.pointer =
      d.returned.reverse ++ s.renderbufferList.map Renderbuffer.pointer := by
  simp [create, Function.comp_def]

theorem allNull_create (h : AllNull s.renderbufferList) (d : Deed φ ρ) : AllNull (s.create d) := by
  intro rb hrb
  rcases List.mem_append.mp hrb with hnew | hold
  · obtain ⟨pointer, -, rfl⟩ := List.mem_map.mp (List.mem_reverse.mp hnew)
    rfl
  · exact h rb hold

theorem of_update_none {entries : ℕ → Option ρ} {i j : ℕ} {rb : ρ}
    (h : Function.update entries i none j = some rb) : entries j = some rb := by
  by_cases hj : j = i
  · subst hj
    rw [Function.update_self] at h
    cases h
  · rwa [Function.update_of_ne hj] at h

/-- The import stores what the renderer returns. -/
theorem mem_importFrom (o : Output ρ) (i : ℕ) {bufs : List (φ × BufInfo)}
    {created : List (Option ρ)} {j : ℕ} {rb : ρ}
    (h : (o.importFrom i bufs created).1.renderbuffers j = some rb) :
    o.renderbuffers j = some rb ∨ rb ∈ (Output.storedFrom i bufs created).map Prod.snd := by
  induction bufs generalizing o i created with
  | nil => exact .inl h
  | cons buf bufs ih =>
    cases created with
    | nil => exact .inl (of_update_none h)
    | cons result created =>
      cases result with
      | none => exact .inl (of_update_none h)
      | some new =>
        rw [Output.storedFrom, List.map_cons]
        rcases ih _ (i + 1) h with hold | hnew
        · by_cases hj : j = i
          · subst hj
            dsimp only at hold
            rw [Function.update_self] at hold
            exact .inr (Option.some.inj hold ▸ List.mem_cons_self)
          · dsimp only at hold
            rw [Function.update_of_ne hj] at hold
            exact .inl hold
        · exact .inr (List.mem_cons_of_mem _ hnew)

theorem mem_importDmabufs (o : Output ρ) {bufs : List (φ × BufInfo)} {created : List (Option ρ)}
    {j : ℕ} {rb : ρ} (h : (o.importDmabufs bufs created).1.renderbuffers j = some rb) :
    o.renderbuffers j = some rb ∨ rb ∈ (Output.storedFrom 0 bufs created).map Prod.snd := by
  rw [Output.importDmabufs] at h
  split_ifs at h with hzero
  · exact .inl h
  · dsimp only at h
    split_ifs at h
    · exact mem_importFrom o 0 h
    · exact mem_importFrom o 0 h

/-- Whatever the step is, the backend knows nothing but what it knew and what has just been
returned. -/
theorem known_step (hs : s.step d = some s') {i : ℕ} {rb : ρ}
    (h : s'.backend.output.renderbuffers i = some rb) :
    s.backend.output.renderbuffers i = some rb ∨ rb ∈ d.returned := by
  cases d with
  | imports bufs created =>
    rw [step] at hs
    split_ifs at hs
    obtain rfl := Option.some.inj hs
    exact mem_importDmabufs _ h
  | fallback =>
    obtain rfl := Option.some.inj hs
    exact .inl h
  | tick calls =>
    obtain rfl := Option.some.inj hs
    dsimp only at h
    rw [Backend.reconnectTimerHandler_output] at h
    split_ifs at h
    · cases h
    · exact .inl h
  | repaint damage shm =>
    obtain rfl := Option.some.inj hs
    dsimp only at h
    rw [(s.backend.outputRepaint_renderbuffers damage shm).1] at h
    exact .inl h

theorem renderbufferList_step (hs : s.step d = some s') : s'.renderbufferList = s.create d := by
  cases d with
  | imports bufs created =>
    rw [step] at hs
    split_ifs at hs
    obtain rfl := Option.some.inj hs
    rfl
  | _ =>
    obtain rfl := Option.some.inj hs
    rfl

theorem Listed.step (h : s.Listed) (hs : s.step d = some s') : s'.Listed where
  known := by
    intro i rb hrb
    rw [renderbufferList_step hs, pointers_create, List.mem_append, List.mem_reverse]
    rcases known_step hs hrb with hold | hnew
    · exact .inr (h.known i rb hold)
    · exact .inl hnew
  null := renderbufferList_step hs ▸ allNull_create h.null d

theorem Listed.paintsLive (h : s.Listed) : s.PaintsLive d := by
  cases d with
  | repaint damage shm =>
    intro idx debt rb hmem
    exact h.known idx rb (Backend.target_eq_some _ (Backend.mem_outputRepaint _ hmem).1).2
  | _ => trivial

/-- In a run the list of the renderer collects what is returned. -/
theorem pointers_exec {ds : List (Deed φ ρ)} (hexec : exec step s ds = some s') :
    s'.renderbufferList.map Renderbuffer.pointer =
      (ds.flatMap Deed.returned).reverse ++ s.renderbufferList.map Renderbuffer.pointer := by
  induction ds generalizing s with
  | nil =>
    obtain rfl := Option.some.inj hexec
    rfl
  | cons d ds ih =>
    obtain ⟨t, ht, hrest⟩ := exec_cons_eq_some.mp hexec
    rw [ih hrest, renderbufferList_step ht, pointers_create, List.flatMap_cons,
      List.reverse_append, List.append_assoc]

/-- A disable passes the first renderbuffer to `destroy_renderbuffer`, and no other. -/
theorem Listed.disable_iff [DecidableEq ρ] (h : s.Listed) :
    (↑(s.backend.output.disableRenderer s.renderbufferList) : Multiset ρ) =
        ↑(s.renderbufferList.map Renderbuffer.pointer) ↔ s.renderbufferList.length ≤ 1 := by
  rw [disableRenderer_null h.null]
  generalize hentries : (List.range s.backend.output.bufCount).filterMap
    s.backend.output.renderbuffers = entries
  have hknown : ∀ rb ∈ entries, rb ∈ s.renderbufferList.map Renderbuffer.pointer := by
    subst hentries
    intro rb hrb
    obtain ⟨i, -, hi⟩ := List.mem_filterMap.mp hrb
    exact h.known i rb hi
  constructor
  · intro heq
    have hcard := congrArg Multiset.card heq
    rw [Multiset.coe_card, Multiset.coe_card, List.length_map] at hcard
    rw [← hcard]
    exact List.length_take_le 1 _
  · intro hle
    rw [← List.length_map Renderbuffer.pointer] at hle
    generalize s.renderbufferList.map Renderbuffer.pointer = pointers at hknown hle
    match pointers, entries with
    | [], [] => rfl
    | [], rb :: _ => cases hknown rb List.mem_cons_self
    | [pointer], [] => rfl
    | [pointer], rb :: _ =>
      obtain rfl := List.mem_singleton.mp (hknown rb List.mem_cons_self)
      rfl
    | _ :: _ :: _, _ => simp at hle

end Rendering

/-- When the output is disabled at the end of a run, each renderbuffer that the renderer has
returned is passed to `destroy_renderbuffer` once if and only if it has returned one at most; in
no run is one painted that the renderer does not have. -/
theorem destroyed_iff_single [DecidableEq ρ] (b : Backend φ ρ) (width height : ℕ)
    (region : Region) {ds : List (Deed φ ρ)} {s : Rendering φ ρ}
    (h : exec Rendering.step (.start b width height region) ds = some s) :
    ((↑(s.backend.output.disableRenderer s.renderbufferList) : Multiset ρ) =
        ↑(ds.flatMap Deed.returned) ↔ (ds.flatMap Deed.returned).length ≤ 1) ∧
      Along Rendering.step (fun s d _ => s.PaintsLive d) (.start b width height region) ds := by
  have hstart := Rendering.listed_start b width height region
  have hlisted : s.Listed :=
    exec_invariant (fun _ _ _ hs ht => Rendering.Listed.step hs ht) hstart h
  have hpointers : s.renderbufferList.map Renderbuffer.pointer =
      (ds.flatMap Deed.returned).reverse := by
    rw [Rendering.pointers_exec h]
    exact List.append_nil _
  have hlength : s.renderbufferList.length = (ds.flatMap Deed.returned).length := by
    rw [← List.length_map Renderbuffer.pointer, hpointers, List.length_reverse]
  constructor
  · rw [← hlength, ← hlisted.disable_iff, hpointers, Multiset.coe_reverse]
  · exact along_of_invariant (fun _ _ _ hs ht => hs.step ht) (fun _ _ _ hs _ => hs.paintsLive)
      hstart ds

/-- A backend that is connected. -/
def connectedBackend : Backend ℕ ℕ where
  display := Producer.Ctx.fresh 6
  refresh := 60000
  reconnectTimer := true
  bufReadySource := some 0
  inputFdSource := none
  consumerReady := false
  dmabufReceived := false
  inFallback := false
  output := .fresh 1080 2400 ∅

/-- Two buffers are imported. -/
def importTwo : List (Deed ℕ ℕ) :=
  [.imports [(10, ⟨4320, 1, 0, 0⟩), (11, ⟨4320, 1, 0, 0⟩)] [some 20, some 21]]

/-- One buffer is imported, the consumer goes, and the reconnect timer ticks. -/
def importAndTick : List (Deed ℕ ℕ) :=
  [.imports [(10, ⟨4320, 1, 0, 0⟩)] [some 20], .fallback, .tick ⟨false, false, ⟨none, false⟩⟩]

/-- The renderbuffer that the backend has dropped is still in the list of the renderer. -/
theorem destroyed_importAndTick :
    ∃ s, exec Rendering.step (.start connectedBackend 1080 2400 ∅) importAndTick = some s ∧
      (↑(s.backend.output.disableRenderer s.renderbufferList) : Multiset ℕ) = {20} := by
  have hrun : ∃ s, exec Rendering.step (.start connectedBackend 1080 2400 ∅) importAndTick =
      some s := ⟨_, rfl⟩
  obtain ⟨s, hs⟩ := hrun
  have hsingle : (importAndTick.flatMap Deed.returned).length ≤ 1 := by decide
  exact ⟨s, hs, (destroyed_iff_single connectedBackend 1080 2400 ∅ hs).1.mpr hsingle⟩

/-- The first destroy does not return, and the second renderbuffer is not destroyed. -/
theorem importTwo_not_destroyed :
    ¬ ∀ s, exec Rendering.step (.start connectedBackend 1080 2400 ∅) importTwo = some s →
      (↑(s.backend.output.disableRenderer s.renderbufferList) : Multiset ℕ) =
        ↑(importTwo.flatMap Deed.returned) := by
  intro h
  have hlost := h _ rfl
  revert hlost
  decide

end Anland
end ACGlass
