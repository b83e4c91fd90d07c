import ACGlass.Android.Dmabufs

/-!
# The render thread of the Android consumer

`nativeStart` and `nativeStop` give up the lock to join the render thread, and take it again
to tear down what the thread used. Calls from any number of worker threads interleave with
the render threads.
-/

namespace ACGlass
namespace Android

open Transition

inductive Native
  | start
  | stop
  deriving DecidableEq, Repr

/-- A call between its entry and its return: after the unlock, in `pthread_join`, and before
it has the lock again. -/
inductive Caller
  | unlocked (native : Native)
  | joining (native : Native) (thread : Option ℕ)
  | joined (native : Native)
  | returned
  deriving DecidableEq, Repr

def Caller.isBetween : Caller → Bool
  | .returned => false
  | _ => true

/-- Where a render thread is in its loop; `collecting` and `connecting` are inside of
`do_connect`. -/
inductive Thread
  | test
  | body
  | collecting
  | connecting
  | frame
  | exited
  deriving DecidableEq, Repr

/-- `g_state`, of whose window and connection only the presence is kept, with all threads and
calls so far. -/
structure ConsumerState where
  window : Bool
  ctx : Bool
  renderThread : Option ℕ
  running : Bool
  needReconnect : Bool
  dmabufs : Dmabufs
  threads : List Thread
  callers : List Caller

/-- What `ANativeWindow_fromSurface` and `pthread_create` return. -/
structure StartCalls where
  fromSurface : Bool
  created : Bool
  deriving DecidableEq, Repr

/-- A step of a render thread with the outcome of its calls; `presented` is a frame that gets
to the last look at `running`. -/
inductive RenderAct
  | test
  | body
  | collect (minUndequeued : ℤ) (calls : ℕ → LockCalls)
  | connect (ok : Bool)
  | frame (presented : Bool)

/-- `enter` is the first section of a call under the lock and `relock` the second one. -/
inductive NativeStep
  | enter (native : Native) (calls : StartCalls)
  | readThread (i : ℕ)
  | join (i : ℕ)
  | relock (i : ℕ) (calls : StartCalls)
  | render (t : ℕ) (a : RenderAct)
  | requestReconnect

namespace ConsumerState

variable (s : ConsumerState)

def initial : ConsumerState := ⟨false, false, none, false, false, .zeroed, [], []⟩

/-- `disconnect`, `cleanup_dmabufs` and `ANativeWindow_release`. -/
def teardown : ConsumerState :=
  { s with ctx := false, dmabufs := s.dmabufs.cleanupDmabufs.1, window := false }

/-- The end of `nativeStart`. -/
def launch (created : Bool) : ConsumerState :=
  { s with
    window := true
    running := true
    needReconnect := true
    threads := if created then s.threads ++ [.test] else s.threads
    renderThread := if created then some s.threads.length else s.renderThread }

/-- Either function past the join. -/
def finish (native : Native) (calls : StartCalls) : ConsumerState :=
  match native with
  | .stop => s.teardown
  | .start => if calls.fromSurface then s.teardown.launch calls.created else s.teardown

def setThread (t : ℕ) (pc : Thread) : ConsumerState := { s with threads := s.threads.set t pc }

def setCaller (i : ℕ) (c : Caller) : ConsumerState := { s with callers := s.callers.set i c }

def renderStep (t : ℕ) : RenderAct → Option ConsumerState
  | .test =>
    if s.threads[t]? = some .test then
      some (s.setThread t (if s.running then .body else .exited))
    else none
  | .body =>
    if s.threads[t]? = some .body then
      if s.needReconnect then
        some ({ s with ctx := false, dmabufs := s.dmabufs.cleanupDmabufs.1 }.setThread t .collecting)
      else some (s.setThread t .frame)
    else none
  | .collect minUndequeued calls =>
    if s.threads[t]? = some .collecting then
      let r := { s.dmabufs with
        bufCount := Dmabufs.totalBufs minUndequeued }.collectDmabufs calls
      some ({ s with dmabufs := r.1 }.setThread t (if r.2.2 then .connecting else .test))
    else none
  | .connect ok =>
    if s.threads[t]? = some .connecting then
      if ok then some ({ s with ctx := true, needReconnect := false }.setThread t .frame)
      else some (s.setThread t .test)
    else none
  | .frame presented =>
    if s.threads[t]? = some .frame then
      -- without a connection, or when a call on the window or on it fails, the loop goes on
      if s.ctx && presented && !s.running then some (s.setThread t .exited)
      else some (s.setThread t .test)
    else none

/-- The thread has been created and has not returned. -/
def Alive (t : ℕ) : Prop := ∃ pc ∈ s.threads[t]?, pc ≠ .exited

instance (t : ℕ) : Decidable (s.Alive t) :=
  inferInstanceAs (Decidable (∃ pc ∈ s.threads[t]?, pc ≠ .exited))

def step : NativeStep → Option ConsumerState
  | .enter native calls =>
    if s.running then
      some { s with running := false, callers := s.callers ++ [.unlocked native] }
    else some { s.finish native calls with callers := s.callers ++ [.returned] }
  | .readThread i =>
    match s.callers[i]? with
    | some (.unlocked native) => some (s.setCaller i (.joining native s.renderThread))
    | _ => none
  | .join i =>
    match s.callers[i]? with
    | some (.joining native thread) =>
      if ∃ t ∈ thread, s.Alive t then none else some (s.setCaller i (.joined native))
    | _ => none
  | .relock i calls =>
    match s.callers[i]? with
    | some (.joined native) => some ((s.finish native calls).setCaller i .returned)
    | _ => none
  | .render t a => s.renderStep t a
  | .requestReconnect => some { s with needReconnect := true }

/-- The step is a section that disconnects or releases the window. -/
def TearsDown : NativeStep → Prop
  | .enter _ _ => s.running = false ∧ (s.ctx = true ∨ s.window = true)
  | .relock _ _ => s.ctx = true ∨ s.window = true
  | _ => False

/-- Nothing is torn down under a render thread, and there is at most one. -/
def Exclusive (e : NativeStep) (s' : ConsumerState) : Prop :=
  (s.TearsDown e → ∀ t, ¬ s.Alive t) ∧ ∀ t u, s'.Alive t → s'.Alive u → t = u

/-- The call is between its two sections. -/
def Between (i : ℕ) : Prop := ∃ c ∈ s.callers[i]?, c.isBetween = true

/-- A call that enters while another one is between its sections finds the render thread
gone, and does not start a new one. -/
def Patient : NativeStep → Prop
  | .enter native calls =>
    (∃ i, s.Between i) →
      (∀ t, ¬ s.Alive t) ∧ ¬ (native = .start ∧ calls.fromSurface = true)
  | _ => True

instance : Decidable (∃ i, s.Between i) :=
  decidable_of_iff (∃ c ∈ s.callers, c.isBetween = true)
    ⟨fun ⟨c, hc, hb⟩ => (List.getElem?_of_mem hc).imp fun _ hi => ⟨c, hi, hb⟩,
      fun ⟨_, c, hi, hb⟩ => ⟨c, List.mem_of_getElem? hi, hb⟩⟩

instance : Decidable (∀ t, ¬ s.Alive t) :=
  decidable_of_iff (∀ pc ∈ s.threads, pc = .exited)
    ⟨fun h _ ⟨pc, ht, hne⟩ => hne (h pc (List.mem_of_getElem? ht)), fun h pc hpc =>
      Decidable.not_not.mp fun hne => (List.getElem?_of_mem hpc).elim fun t ht => h t ⟨pc, ht, hne⟩⟩

instance : ∀ e, Decidable (s.Patient e)
  | .enter native calls => inferInstanceAs (Decidable ((∃ i, s.Between i) →
      (∀ t, ¬ s.Alive t) ∧ ¬ (native = .start ∧ calls.fromSurface = true)))
  | .readThread _ | .join _ | .relock _ _ | .render _ _ | .requestReconnect => isTrue trivial

/-- The only render thread is the current one, and it is gone when nobody waits for it and
nothing runs. -/
structure OneThread : Prop where
  current : ∀ t, s.Alive t → s.renderThread = some t
  between : ∀ i, s.Between i → s.running = false
  joining : ∀ (i : ℕ) native thread, s.callers[i]? = some (.joining native thread) →
    thread = s.renderThread
  joined : ∀ (i : ℕ) native, s.callers[i]? = some (.joined native) → ∀ t, ¬ s.Alive t
  unique : ∀ i j, s.Between i → s.Between j → i = j
  stopped : s.running = false → (∀ i, ¬ s.Between i) → ∀ t, ¬ s.Alive t

variable {s s' : ConsumerState}

theorem oneThread_initial : initial.OneThread where
  current := by simp [Alive, initial]
  between := by simp [Between, initial]
  joining := by simp [initial]
  joined := by simp [initial]
  unique := by simp [Between, initial]
  stopped := by simp [Alive, initial]

theorem alive_setThread {t u : ℕ} {pc : Thread} (h : (s.setThread t pc).Alive u) :
    s.Alive u ∨ u = t := by
  obtain ⟨qc, hq, hne⟩ := h
  by_cases htu : t = u
  · exact .inr htu.symm
  · rw [setThread, List.getElem?_set_ne htu] at hq
    exact .inl ⟨qc, hq, hne⟩

/-- A step of a thread that is in its loop brings no thread to life. -/
theorem OneThread.setThread (h : s.OneThread) {t : ℕ} (ht : s.Alive t) (pc : Thread)
    (hthreads : s'.threads = s.threads.set t pc) (hcallers : s'.callers = s.callers)
    (hrunning : s'.running = s.running) (hrender : s'.renderThread = s.renderThread) :
    s'.OneThread := by
  have halive : ∀ u, s'.Alive u → s.Alive u := by
    intro u hu
    have hu : (s.setThread t pc).Alive u := by
      rw [Alive, hthreads] at hu
      exact hu
    rcases alive_setThread hu with hu | rfl
    · exact hu
    · exact ht
  have hbetween : ∀ i, s'.Between i ↔ s.Between i := by
    intro i
    rw [Between, hcallers]
    rfl
  constructor
  · intro u hu
    rw [hrender]
    exact h.current u (halive u hu)
  · intro i hi
    rw [hrunning]
    exact h.between i ((hbetween i).mp hi)
  · rw [hcallers, hrender]
    exact h.joining
  · rw [hcallers]
    exact fun i native hi u hu => h.joined i native hi u (halive u hu)
  · exact fun i j hi hj => h.unique i j ((hbetween i).mp hi) ((hbetween j).mp hj)
  · intro hstop hnone u hu
    rw [hrunning] at hstop
    exact h.stopped hstop (fun i hi => hnone i ((hbetween i).mpr hi)) u (halive u hu)

/-- A render thread moves itself only. -/
theorem renderStep_fields {t : ℕ} {a : RenderAct} (hs : s.renderStep t a = some s') :
    s.Alive t ∧ (∃ pc, s'.threads = s.threads.set t pc) ∧ s'.callers = s.callers ∧
      s'.running = s.running ∧ s'.renderThread = s.renderThread := by
  have halive : ∀ {pc : Thread}, s.threads[t]? = some pc → pc ≠ .exited → s.Alive t :=
    fun hpc hne => ⟨_, hpc, hne⟩
  cases a with
  | test =>
    simp only [renderStep, Option.ite_none_right_eq_some] at hs
    obtain ⟨hpc, hs⟩ := hs
    obtain rfl := Option.some.inj hs
    exact ⟨halive hpc (by simp), ⟨_, rfl⟩, rfl, rfl, rfl⟩
  | body =>
    simp only [renderStep, Option.ite_none_right_eq_some] at hs
    obtain ⟨hpc, hs⟩ := hs
    split at hs
    all_goals
      obtain rfl := Option.some.inj hs
      exact ⟨halive hpc (by simp), ⟨_, rfl⟩, rfl, rfl, rfl⟩
  | collect minUndequeued calls =>
    simp only [renderStep, Option.ite_none_right_eq_some] at hs
    obtain ⟨hpc, hs⟩ := hs
    obtain rfl := Option.some.inj hs
    exact ⟨halive hpc (by simp), ⟨_, rfl⟩, rfl, rfl, rfl⟩
  | connect ok =>
    simp only [renderStep, Option.ite_none_right_eq_some] at hs
    obtain ⟨hpc, hs⟩ := hs
    split at hs
    all_goals
      obtain rfl := Option.some.inj hs
      exact ⟨halive hpc (by simp), ⟨_, rfl⟩, rfl, rfl, rfl⟩
  | frame presented =>
    simp only [renderStep, Option.ite_none_right_eq_some] at hs
    obtain ⟨hpc, hs⟩ := hs
    split at hs
    all_goals
      obtain rfl := Option.some.inj hs
      exact ⟨halive hpc (by simp), ⟨_, rfl⟩, rfl, rfl, rfl⟩

/-- What `finish` makes of the threads, when there is none left. -/
theorem finish_threads (native : Native) (calls : StartCalls) (hdead : ∀ t, ¬ s.Alive t) :
    (∀ t, (s.finish native calls).Alive t →
        (s.finish native calls).renderThread = some t ∧ (s.finish native calls).running = true) ∧
      (s.finish native calls).callers = s.callers := by
  have hteardown : ∀ t, ¬ s.teardown.Alive t := hdead
  cases native with
  | stop => exact ⟨fun t ht => absurd ht (hdead t), rfl⟩
  | start =>
    unfold finish
    dsimp only
    split
    · refine ⟨fun t ht => ?_, rfl⟩
      cases hcreated : calls.created with
      | false =>
        rw [hcreated] at ht
        exact absurd ht (hdead t)
      | true =>
        rw [hcreated] at ht
        refine ⟨?_, rfl⟩
        obtain ⟨pc, hpc, hne⟩ := ht
        simp only [launch, teardown, if_true] at hpc ⊢
        rcases Nat.lt_trichotomy t s.threads.length with hlt | rfl | hgt
        · rw [List.getElem?_append_left hlt] at hpc
          exact absurd ⟨pc, hpc, hne⟩ (hdead t)
        · rfl
        · rw [List.getElem?_eq_none (by simp; omega)] at hpc
          cases hpc
    · exact ⟨fun t ht => absurd ht (hdead t), rfl⟩

theorem between_setCaller {i j : ℕ} {c : Caller} (h : (s.setCaller i c).Between j) :
    s.Between j ∧ j ≠ i ∨ j = i ∧ c.isBetween = true := by
  obtain ⟨d, hd, hb⟩ := h
  by_cases hij : i = j
  · subst hij
    rw [setCaller] at hd
    have hlt : i < s.callers.length := by
      have := (List.getElem?_eq_some_iff.mp hd).1
      simpa using this
    rw [List.getElem?_set_self hlt] at hd
    obtain rfl := Option.some.inj hd
    exact .inr ⟨rfl, hb⟩
  · rw [setCaller, List.getElem?_set_ne hij] at hd
    exact .inl ⟨⟨d, hd, hb⟩, Ne.symm hij⟩

theorem between_append {j : ℕ} {c : Caller}
    (h : Between { s with callers := s.callers ++ [c] } j) :
    s.Between j ∨ j = s.callers.length ∧ c.isBetween = true := by
  obtain ⟨d, hd, hb⟩ := h
  rcases Nat.lt_or_ge j s.callers.length with hlt | hge
  · rw [List.getElem?_append_left hlt] at hd
    exact .inl ⟨d, hd, hb⟩
  · rw [List.getElem?_append_right hge] at hd
    obtain ⟨hlen, hd⟩ := List.getElem?_eq_some_iff.mp hd
    have hj : j - s.callers.length = 0 := by
      simpa using hlen
    refine .inr ⟨by omega, ?_⟩
    simp only [hj, List.getElem_cons_zero] at hd
    rw [hd]
    exact hb

/-- A state without calls in between, whose render thread is the current one. -/
theorem oneThread_of_none (hnone : ∀ i, ¬ s.Between i)
    (halive : ∀ t, s.Alive t → s.renderThread = some t ∧ s.running = true) : s.OneThread where
  current := fun t ht => (halive t ht).1
  between := fun i hi => absurd hi (hnone i)
  joining := fun i native thread hi => absurd ⟨_, hi, rfl⟩ (hnone i)
  joined := fun i native hi => absurd ⟨_, hi, rfl⟩ (hnone i)
  unique := fun i j hi => absurd hi (hnone i)
  stopped := by
    intro hstop _ t ht
    rw [(halive t ht).2] at hstop
    cases hstop

/-- Whoever enters and does not wait finds the render thread gone. -/
theorem OneThread.dead_of_enter (h : s.OneThread) {native : Native} {calls : StartCalls}
    (hp : s.Patient (.enter native calls)) (hrun : s.running = false) : ∀ t, ¬ s.Alive t := by
  by_cases hbetween : ∃ i, s.Between i
  · exact (hp hbetween).1
  · exact h.stopped hrun fun i hi => hbetween ⟨i, hi⟩

/-- The call that clears `running` is the only one between its sections. -/
theorem OneThread.enter_running (h : s.OneThread) (hrun : s.running = true) (native : Native) :
    OneThread { s with running := false, callers := s.callers ++ [.unlocked native] } := by
  have hnone : ∀ i, ¬ s.Between i := by
    intro i hi
    rw [h.between i hi] at hrun
    cases hrun
  have hnew : ∀ i, Between { s with
      running := false, callers := s.callers ++ [.unlocked native] } i → i = s.callers.length :=
    fun i hi => ((between_append hi).resolve_left (hnone i)).1
  have hold : ∀ (i : ℕ) c, (s.callers ++ [.unlocked native])[i]? = some c → c.isBetween = true →
      c = .unlocked native := by
    intro i c hc hb
    obtain rfl := hnew i ⟨c, hc, hb⟩
    simpa using hc.symm
  constructor
  · exact h.current
  · exact fun _ _ => rfl
  · intro i native' thread hi
    cases hold i _ hi rfl
  · intro i native' hi
    cases hold i _ hi rfl
  · intro i j hi hj
    rw [hnew i hi, hnew j hj]
  · intro _ hnone'
    apply absurd _ (hnone' s.callers.length)
    exact ⟨.unlocked native, by simp, rfl⟩

/-- A call that does not wait is over at once. -/
theorem OneThread.enter_past (h : s.OneThread) (hstop : s.running = false) {native : Native}
    {calls : StartCalls} (hp : s.Patient (.enter native calls)) :
    OneThread { s.finish native calls with callers := s.callers ++ [.returned] } := by
  have hdead := h.dead_of_enter hp hstop
  have hbetween : ∀ i, Between { s.finish native calls with
      callers := s.callers ++ [.returned] } i → s.Between i := by
    intro i hi
    rcases between_append (s := { s.finish native calls with callers := s.callers }) hi with
      hi | ⟨-, hfalse⟩
    · exact hi
    · cases hfalse
  by_cases hwaits : ∃ i, s.Between i
  · have hquiet : s.finish native calls = s.teardown := by
      have hno := (hp hwaits).2
      cases native with
      | stop => rfl
      | start =>
        unfold finish
        dsimp only
        rw [if_neg (by simpa using hno)]
    rw [hquiet] at hbetween ⊢
    have hreturned : ∀ (i : ℕ) c, (s.callers ++ [.returned])[i]? = some c → c.isBetween = true →
        s.callers[i]? = some c := by
      intro i c hc hb
      rcases Nat.lt_or_ge i s.callers.length with hlt | hge
      · rwa [List.getElem?_append_left hlt] at hc
      · rw [List.getElem?_append_right hge] at hc
        obtain rfl := List.mem_singleton.mp (List.mem_of_getElem? hc)
        cases hb
    constructor
    · exact fun t ht => absurd ht (hdead t)
    · exact fun _ _ => hstop
    · exact fun i native' thread hi => h.joining i native' thread (hreturned i _ hi rfl)
    · exact fun i native' hi t ht => hdead t ht
    · exact fun i j hi hj => h.unique i j (hbetween i hi) (hbetween j hj)
    · exact fun _ _ t ht => hdead t ht
  · have halive := (finish_threads native calls hdead).1
    exact oneThread_of_none (fun i hi => hwaits ⟨i, hbetween i hi⟩) halive

/-- A caller that moves on between its sections. -/
theorem OneThread.setCaller (h : s.OneThread) {i : ℕ} {b c : Caller} (hi : s.callers[i]? = some b)
    (hb : b.isBetween = true) (hjoining : ∀ native thread, c = .joining native thread →
      thread = s.renderThread)
    (hjoined : ∀ native, c = .joined native → ∀ t, ¬ s.Alive t)
    (hc : c.isBetween = true) : (s.setCaller i c).OneThread := by
  have hbetween : ∀ j, (s.setCaller i c).Between j → s.Between j := by
    intro j hj
    rcases between_setCaller hj with ⟨hj, -⟩ | ⟨rfl, -⟩
    · exact hj
    · exact ⟨b, hi, hb⟩
  have hget : ∀ {j : ℕ} {d : Caller}, (s.setCaller i c).callers[j]? = some d →
      s.callers[j]? = some d ∨ d = c := by
    intro j d hd
    rcases List.mem_or_eq_of_mem_set (List.mem_of_getElem? hd) with - | rfl
    · by_cases hij : i = j
      · subst hij
        rw [ConsumerState.setCaller, List.getElem?_set_self (List.getElem?_eq_some_iff.mp hi).1] at hd
        exact .inr (Option.some.inj hd).symm
      · rw [ConsumerState.setCaller, List.getElem?_set_ne hij] at hd
        exact .inl hd
    · exact .inr rfl
  constructor
  · exact h.current
  · exact fun j hj => h.between j (hbetween j hj)
  · intro j native thread hj
    rcases hget hj with hj | heq
    · exact h.joining j native thread hj
    · exact hjoining native thread heq.symm
  · intro j native hj
    rcases hget hj with hj | heq
    · exact h.joined j native hj
    · exact hjoined native heq.symm
  · exact fun j k hj hk => h.unique j k (hbetween j hj) (hbetween k hk)
  · intro _ hnone
    apply absurd _ (hnone i)
    refine ⟨c, ?_, hc⟩
    rw [ConsumerState.setCaller, Option.mem_def,
      List.getElem?_set_self (List.getElem?_eq_some_iff.mp hi).1]

/-- The last section of the only call that is between its sections. -/
theorem OneThread.relock (h : s.OneThread) {i : ℕ} {native : Native} {calls : StartCalls}
    (hi : s.callers[i]? = some (.joined native)) :
    ((s.finish native calls).setCaller i .returned).OneThread := by
  obtain ⟨halive, hcallers⟩ := finish_threads native calls (h.joined i native hi)
  refine oneThread_of_none ?_ halive
  intro j hj
  rcases between_setCaller hj with ⟨hj, hne⟩ | ⟨-, hfalse⟩
  · rw [Between, hcallers] at hj
    exact hne (h.unique j i hj ⟨_, hi, rfl⟩)
  · cases hfalse

theorem OneThread.step {e : NativeStep} (h : s.OneThread) (hp : s.Patient e)
    (hs : s.step e = some s') : s'.OneThread := by
  cases e with
  | enter native calls =>
    simp only [ConsumerState.step] at hs
    split at hs
    · rename_i hrun
      obtain rfl := Option.some.inj hs
      exact h.enter_running hrun native
    · rename_i hrun
      obtain rfl := Option.some.inj hs
      exact h.enter_past (by simpa using hrun) hp
  | readThread i =>
    simp only [ConsumerState.step] at hs
    split at hs
    · rename_i native hi
      obtain rfl := Option.some.inj hs
      apply h.setCaller hi rfl ?_ ?_ rfl
      · rintro _ _ ⟨⟩
        rfl
      · rintro _ ⟨⟩
    · cases hs
  | join i =>
    simp only [ConsumerState.step] at hs
    split at hs
    · rename_i native thread hi
      split at hs
      · cases hs
      · rename_i hexited
        obtain rfl := Option.some.inj hs
        have hdead : ∀ t, ¬ s.Alive t := by
          intro t ht
          apply hexited
          rw [h.joining i native thread hi]
          exact ⟨t, h.current t ht, ht⟩
        apply h.setCaller hi rfl ?_ ?_ rfl
        · rintro _ _ ⟨⟩
        · exact fun _ _ => hdead
    · cases hs
  | relock i calls =>
    simp only [ConsumerState.step] at hs
    split at hs
    · rename_i native hi
      obtain rfl := Option.some.inj hs
      exact h.relock hi
    · cases hs
  | render t a =>
    obtain ⟨halive, ⟨pc, hthreads⟩, hcallers, hrunning, hrender⟩ := renderStep_fields hs
    exact h.setThread halive pc hthreads hcallers hrunning hrender
  | requestReconnect =>
    obtain rfl := Option.some.inj hs
    exact ⟨h.current, h.between, h.joining, h.joined, h.unique, h.stopped⟩

theorem OneThread.exclusive {e : NativeStep} (h : s.OneThread) (hp : s.Patient e)
    (hs : s.step e = some s') : s.Exclusive e s' := by
  constructor
  · cases e with
    | enter native calls => exact fun htears => h.dead_of_enter hp htears.1
    | relock i calls =>
      intro _
      simp only [ConsumerState.step] at hs
      split at hs
      · rename_i native hi
        exact h.joined i native hi
      · cases hs
    | readThread i => exact False.elim
    | join i => exact False.elim
    | render t a => exact False.elim
    | requestReconnect => exact False.elim
  · intro t u ht hu
    have h' := h.step hp hs
    exact Option.some.inj ((h'.current t ht).symm.trans (h'.current u hu))

/-- Render threads exclude each other, and every teardown, as long as no call goes past
another one. -/
theorem exclusive_of_patient (steps : List NativeStep)
    (h : Along ConsumerState.step (fun s e _ => s.Patient e) initial steps) :
    Along ConsumerState.step Exclusive initial steps :=
  along_of_guard (I := OneThread) (G := fun s e _ => s.Patient e) (P := Exclusive)
    (fun _ _ _ hinv hs hp => ⟨hinv.step hp hs, hinv.exclusive hp hs⟩) oneThread_initial h

/-- A call of `nativeStop` passes another one that waits for the lock after its join. -/
def stopTwice : List NativeStep :=
  [.enter .start ⟨true, true⟩, .render 0 .test, .enter .stop ⟨true, true⟩, .readThread 1,
    .render 0 .body, .render 0 (.collect 1 fun _ => ⟨none, none, none⟩), .render 0 .test, .join 1,
    .enter .stop ⟨true, true⟩, .relock 1 ⟨true, true⟩]

theorem exclusive_stopTwice : Along ConsumerState.step Exclusive initial stopTwice :=
  exclusive_of_patient stopTwice (by decide +kernel)

/-- The second call clears `running` and has not joined yet when the third one comes. -/
def startThrice : List NativeStep := List.replicate 3 (.enter .start ⟨true, true⟩)

/-- The third call tears down under the first render thread and starts another one. -/
theorem startThrice_not_exclusive :
    ¬ Along ConsumerState.step Exclusive initial startThrice := by
  intro h
  obtain ⟨-, honly⟩ := Along.at (startThrice.take 2) h rfl rfl
  exact absurd (honly 0 1 (by decide) (by decide)) (by decide)

end ConsumerState

end Android
end ACGlass
