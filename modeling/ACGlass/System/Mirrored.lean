import ACGlass.System.Counting

/-!
# What the seat holds down

Through any number of lost connections, no more touch points are down on the seat than fingers
on the display once the channel is empty. While the first connection lasts, touch points,
buttons and keys are those of the display, but for the back key of the overlay, which never
comes up again.
-/

namespace ACGlass
namespace InputPath

open Android Anland Transition

variable {φ : Type*}

/-- The touch points that the fingers account for. -/
def expected (setup : Setup) (s : State) : ℕ :=
  if setup.touchDevice && setup.output then fingers s.stream else 0

/-- The seat holds down what the display does. -/
structure Mirrors (setup : Setup) (s : State) (seat : Seat) : Prop where
  touches : seat.numTp.toNat = expected setup s
  buttons : seat.buttonCount = .ofNat (pressedButtons s.savedBS)
  keys : MirrorsKeys setup s seat.keys

structure Inv (setup : Setup) (s : State) : Prop where
  out_lt : ∀ c, s.out = some c → c < s.next
  inn_lt : ∀ c, s.inn = some c → c < s.picked
  picked_pos : 0 < s.picked
  picked_le : s.picked ≤ s.next
  empty : ∀ c, s.next ≤ c → s.sockets c = []
  bounded : fingers s.stream ≤ maxPointers
  untouched : setup.touchDevice = false → s.seat.numTp = 0
  lost : s.inn = none → s.seat.numTp = 0
  same : ∀ c, s.out = some c → s.inn = some c → ((s.sockets c).foldl
    (touchPoints setup.touchDevice setup.output) s.seat.numTp).toNat ≤ expected setup s
  ahead : ∀ c, s.out = some c → s.picked ≤ c → ((s.sockets c).foldl
    (touchPoints setup.touchDevice setup.output) 0).toNat ≤ expected setup s
  first : s.out = some 0 → s.inn = some 0 →
    Mirrors setup s (play setup.touchDevice setup.output s.seat (s.sockets 0))

/-- The display changes, and what is sent says so. -/
structure Advances (setup : Setup) (s s' : State) (sent : List (Sent φ)) : Prop where
  links : s'.out = s.out ∧ s'.inn = s.inn ∧ s'.next = s.next ∧ s'.picked = s.picked ∧
    s'.sockets = s.sockets ∧ s'.seat = s.seat
  bounded : fingers s'.stream ≤ maxPointers
  within : ∀ n, n.toNat ≤ expected setup s → ((sent.map Sent.event).foldl
    (touchPoints setup.touchDevice setup.output) n).toNat ≤ expected setup s'
  exact : ∀ n, n.toNat = expected setup s → ((sent.map Sent.event).foldl
    (touchPoints setup.touchDevice setup.output) n).toNat = expected setup s'
  buttons : (sent.map Sent.event).foldl buttonsDown (.ofNat (pressedButtons s.savedBS)) =
    .ofNat (pressedButtons s'.savedBS)
  keys : ∀ keys, MirrorsKeys setup s keys →
    MirrorsKeys setup s' ((sent.map Sent.event).foldl keysDown keys)

variable {setup : Setup} {s s' : State}

theorem inv_initial (setup : Setup) : Inv setup .initial where
  out_lt := by simp [State.initial]
  inn_lt := by simp [State.initial]
  picked_pos := by simp [State.initial]
  picked_le := le_rfl
  empty _ _ := rfl
  bounded := Nat.zero_le _
  untouched _ := rfl
  lost _ := rfl
  same _ _ _ := Nat.zero_le _
  ahead _ _ _ := Nat.zero_le _
  first _ _ := by
    refine ⟨?_, rfl, ⟨List.nodup_nil, by simp [State.initial, play], by simp [State.initial, play]⟩⟩
    simp [expected, State.initial, fingers, play]

/-- The events of the display go behind those that are on their way. -/
theorem Inv.push (h : Inv setup s) {sent : List (Sent φ)} (ha : Advances setup s s' sent) :
    Inv setup (s'.push sent) := by
  obtain ⟨⟨hout, hinn, hnext, hpicked, hsockets, hseat⟩, hbounded, hwithin, hexact, hbuttons,
    hkeys⟩ := ha
  obtain ⟨savedBS, stream, held, backs, out, inn, next, picked, sockets, seat⟩ := s'
  dsimp only at hout hinn hnext hpicked hsockets hseat
  subst hout hinn hnext hpicked hsockets hseat
  cases hout : s.out with
  | none =>
    exact
      { out_lt := by simp [State.push]
        inn_lt := h.inn_lt
        picked_pos := h.picked_pos
        picked_le := h.picked_le
        empty := h.empty
        bounded := hbounded
        untouched := h.untouched
        lost := h.lost
        same := by simp [State.push]
        ahead := by simp [State.push]
        first := by simp [State.push] }
  | some c =>
    have hc := h.out_lt c hout
    exact
      { out_lt := by
          intro c' hc'
          obtain rfl := Option.some.inj hc'
          exact hc
        inn_lt := h.inn_lt
        picked_pos := h.picked_pos
        picked_le := h.picked_le
        empty := by
          intro c' hc'
          have hne : c' ≠ c := Nat.ne_of_gt (hc.trans_le hc')
          exact (Function.update_of_ne hne _ _).trans (h.empty c' hc')
        bounded := hbounded
        untouched := h.untouched
        lost := h.lost
        same := by
          intro c' hc' hinn
          obtain rfl := Option.some.inj hc'
          simp only [State.push, Function.update_self, List.foldl_append]
          exact hwithin _ (h.same c hout hinn)
        ahead := by
          intro c' hc' hpicked
          obtain rfl := Option.some.inj hc'
          simp only [State.push, Function.update_self, List.foldl_append]
          exact hwithin _ (h.ahead c hout hpicked)
        first := by
          intro hc' hinn
          obtain rfl := Option.some.inj hc'
          have hfirst := h.first hout hinn
          rw [play_eq] at hfirst
          simp only [State.push, Function.update_self]
          rw [play_eq]
          simp only [List.foldl_append]
          obtain ⟨hnodup, hheld, hback⟩ := hkeys _ hfirst.keys
          refine ⟨hexact _ hfirst.touches, ?_, ⟨hnodup, hheld, hback⟩⟩
          have hcount := hfirst.buttons
          dsimp only at hcount ⊢
          rw [hcount]
          exact hbuttons }

theorem advances_touch [Zero φ] [Sub φ] [Neg φ] [DecidableEq φ] (h : Inv setup s)
    {e : PointerEvent φ} {stream : Option Touching} (hfollow : follow s.stream e = some stream) :
    Advances setup s { s with savedBS := (handleDisplayTouchEvent s.savedBS e).1, stream }
      (handleDisplayTouchEvent s.savedBS e).2.1 := by
  cases he : touches e with
  | false =>
    obtain ⟨hkind, hbuttons⟩ := handleDisplayTouchEvent_carries s.savedBS he
    obtain ⟨hbefore, hafter⟩ := follow_untouched hfollow he
    have hexpected : expected setup { s with
        savedBS := (handleDisplayTouchEvent s.savedBS e).1, stream } = expected setup s := by
      simp [expected, hbefore, hafter]
    have hstill := touchPoints_still setup.touchDevice setup.output (by decide) hkind
    refine ⟨⟨rfl, rfl, rfl, rfl, rfl, rfl⟩, ?_, ?_, ?_, hbuttons, ?_⟩
    · exact hafter.trans_le (Nat.zero_le _)
    · intro n hn
      rw [hstill, hexpected]
      exact hn
    · intro n hn
      rw [hstill, hexpected]
      exact hn
    · intro keys hkeys
      rw [keysDown_still (by decide) hkind]
      exact ⟨hkeys.nodup, hkeys.held, hkeys.back⟩
  | true =>
    have hgoes := follow_goes hfollow he
    rw [handleDisplayTouchEvent_touches he]
    have hkind := kind_handleTouchEvent s.savedBS e
    have hsaved : (handleTouchEvent s.savedBS e).1 = s.savedBS := by
      unfold handleTouchEvent
      split <;> rfl
    have hbounded := hgoes.bounded h.bounded
    have hbuttons : ((handleTouchEvent s.savedBS e).2.1.map Sent.event).foldl buttonsDown
        (.ofNat (pressedButtons s.savedBS)) =
          .ofNat (pressedButtons (handleTouchEvent s.savedBS e).1) := by
      rw [buttonsDown_still (by decide) hkind, hsaved]
    have hkeys : ∀ keys, MirrorsKeys setup s keys → MirrorsKeys setup
        { s with savedBS := (handleTouchEvent s.savedBS e).1, stream }
        (((handleTouchEvent s.savedBS e).2.1.map Sent.event).foldl keysDown keys) := by
      intro keys hkeys
      rw [keysDown_still (by decide) hkind]
      exact ⟨hkeys.nodup, hkeys.held, hkeys.back⟩
    cases hon : setup.touchDevice && setup.output with
    | false =>
      refine ⟨⟨rfl, rfl, rfl, rfl, rfl, rfl⟩, hbounded, ?_, ?_, hbuttons, hkeys⟩
      · intro n hn
        rw [touchPoints_off _ _ hon]
        simpa [expected, hon] using hn
      · intro n hn
        rw [touchPoints_off _ _ hon]
        simpa [expected, hon] using hn
    | true =>
      obtain ⟨hdevice, houtput⟩ := Bool.and_eq_true_iff.mp hon
      refine ⟨⟨rfl, rfl, rfl, rfl, rfl, rfl⟩, hbounded, ?_, ?_, hbuttons, hkeys⟩
      · intro n hn
        rw [expected, hon, if_pos rfl] at hn ⊢
        rw [hdevice, houtput]
        exact (handleTouchEvent_fingers hgoes rfl).1 hn
      · intro n hn
        rw [expected, hon, if_pos rfl] at hn ⊢
        rw [hdevice, houtput]
        exact (handleTouchEvent_fingers hgoes rfl).2 hn h.bounded

theorem advances_key (h : Inv setup s) {e : KeyEvent}
    (he : e.scanCode = 0 ∨ (e.keyCode = keycodeBack ↔ setup.isBack e.scanCode = true)) :
    Advances setup s (s.followKey setup e) (setup.view.handleKey φ e) := by
  have hkind := kind_handleKey (φ := φ) setup.view e
  have hrest : (s.followKey setup e).stream = s.stream ∧
      (s.followKey setup e).savedBS = s.savedBS ∧ (s.followKey setup e).out = s.out ∧
      (s.followKey setup e).inn = s.inn ∧ (s.followKey setup e).next = s.next ∧
      (s.followKey setup e).picked = s.picked ∧ (s.followKey setup e).sockets = s.sockets ∧
      (s.followKey setup e).seat = s.seat := by
    unfold State.followKey
    split
    · split <;> exact ⟨rfl, rfl, rfl, rfl, rfl, rfl, rfl, rfl⟩
    · exact ⟨rfl, rfl, rfl, rfl, rfl, rfl, rfl, rfl⟩
    · exact ⟨rfl, rfl, rfl, rfl, rfl, rfl, rfl, rfl⟩
  obtain ⟨hstream, hsaved, hlinks⟩ := hrest
  have hexpected : expected setup (s.followKey setup e) = expected setup s := by
    rw [expected, expected, hstream]
  refine ⟨hlinks, hstream ▸ h.bounded, ?_, ?_, ?_, fun keys hkeys => hkeys.key he⟩
  · intro n hn
    rw [touchPoints_still _ _ (by decide) hkind, hexpected]
    exact hn
  · intro n hn
    rw [touchPoints_still _ _ (by decide) hkind, hexpected]
    exact hn
  · rw [buttonsDown_still (by decide) hkind, hsaved]

theorem advances_generic {r : Handled φ} (h : Inv setup s)
    (hr : Carries s.savedBS r) : Advances setup s { s with savedBS := r.1 } r.2.1 := by
  obtain ⟨hkind, hbuttons⟩ := hr
  refine ⟨⟨rfl, rfl, rfl, rfl, rfl, rfl⟩, h.bounded, ?_, ?_, hbuttons, ?_⟩
  · intro n hn
    rw [touchPoints_still _ _ (by decide) hkind]
    exact hn
  · intro n hn
    rw [touchPoints_still _ _ (by decide) hkind]
    exact hn
  · intro keys hkeys
    rw [keysDown_still (by decide) hkind]
    exact ⟨hkeys.nodup, hkeys.held, hkeys.back⟩

theorem fallbackCb_numTp (h : setup.touchDevice = false → s.seat.numTp = 0) :
    (s.seat.fallbackCb setup.touchDevice).numTp = 0 := by
  unfold Seat.fallbackCb Seat.clearPointerFocus
  split_ifs with htouch
  · rfl
  · cases hdevice : setup.touchDevice with
    | false => exact h hdevice
    | true =>
      have hzero : ¬ s.seat.numTp > 0 := fun hpos => htouch ⟨hdevice, hpos⟩
      rwa [gt_iff_lt, UInt32.pos_iff_ne_zero, not_not] at hzero

/-- The next event of the channel has been on its way before. -/
theorem Inv.deliver (h : Inv setup s) {c : ℕ} {event : InputEvent} {events : List InputEvent}
    (hinn : s.inn = some c) (hsocket : s.sockets c = event :: events) :
    Inv setup { s with
      sockets := Function.update s.sockets c events
      seat := s.seat.processInputEvent setup.touchDevice setup.output event } := by
  have hc := h.inn_lt c hinn
  have hnext := h.picked_le
  have hnumTp : (s.seat.processInputEvent setup.touchDevice setup.output event).numTp =
      touchPoints setup.touchDevice setup.output s.seat.numTp event := by
    rw [processInputEvent_eq]
  exact
    { out_lt := h.out_lt
      inn_lt := h.inn_lt
      picked_pos := h.picked_pos
      picked_le := h.picked_le
      empty := by
        intro c' hc'
        have hne : c' ≠ c := by
          dsimp only at hc'
          omega
        exact (Function.update_of_ne hne _ _).trans (h.empty c' hc')
      bounded := h.bounded
      untouched := by
        intro hdevice
        have hoff := touchPoints_off setup.touchDevice setup.output (by simp [hdevice]) [event]
          s.seat.numTp
        exact hnumTp.trans (hoff.trans (h.untouched hdevice))
      lost := by simp [hinn]
      same := by
        intro c' hout hinn'
        obtain rfl : c = c' := Option.some.inj (hinn.symm.trans hinn')
        have hsame := h.same c hout hinn
        rw [hsocket, List.foldl_cons, ← hnumTp] at hsame
        simp only [Function.update_self]
        exact hsame
      ahead := by
        intro c' hout hpicked
        have hne : c' ≠ c := by
          dsimp only at hpicked
          omega
        simp only [Function.update_of_ne hne]
        exact h.ahead c' hout hpicked
      first := by
        intro hout hinn'
        obtain rfl : c = 0 := Option.some.inj (hinn.symm.trans hinn')
        have hfirst := h.first hout hinn
        rw [hsocket, play, List.foldl_cons, ← play] at hfirst
        obtain ⟨htouches, hbuttons, hnodup, hheld, hback⟩ := hfirst
        simp only [Function.update_self]
        exact ⟨htouches, hbuttons, hnodup, hheld, hback⟩ }

theorem Inv.connect (h : Inv setup s) :
    Inv setup { s with out := some s.next, next := s.next + 1 } := by
  have hpos := h.picked_pos
  have hle := h.picked_le
  exact
    { out_lt := by
        intro c hc
        obtain rfl := Option.some.inj hc
        exact Nat.lt_succ_self _
      inn_lt := h.inn_lt
      picked_pos := h.picked_pos
      picked_le := hle.trans (Nat.le_succ _)
      empty := fun c hc => h.empty c (Nat.le_of_succ_le hc)
      bounded := h.bounded
      untouched := h.untouched
      lost := h.lost
      same := by
        intro c hc hinn
        obtain rfl := Option.some.inj hc
        have := h.inn_lt s.next hinn
        omega
      ahead := by
        intro c hc _
        obtain rfl := Option.some.inj hc
        simp only [h.empty s.next le_rfl, List.foldl_nil]
        exact Nat.zero_le _
      first := by
        intro hc _
        have := Option.some.inj hc
        omega }

theorem Inv.pickup (h : Inv setup s) {c : ℕ} (hinn : s.inn = none) (hpicked : s.picked ≤ c)
    (hnext : c < s.next) : Inv setup { s with inn := some c, picked := c + 1 } := by
  have hpos := h.picked_pos
  exact
    { out_lt := h.out_lt
      inn_lt := by
        intro c' hc'
        obtain rfl := Option.some.inj hc'
        exact Nat.lt_succ_self _
      picked_pos := Nat.succ_pos _
      picked_le := hnext
      empty := h.empty
      bounded := h.bounded
      untouched := h.untouched
      lost := by simp
      same := by
        intro c' hout hc'
        obtain rfl := Option.some.inj hc'
        have hahead := h.ahead c hout hpicked
        rw [← h.lost hinn] at hahead
        exact hahead
      ahead := by
        intro c' hout hle
        exact h.ahead c' hout (hpicked.trans (Nat.le_of_succ_le hle))
      first := by
        intro _ hc'
        have := Option.some.inj hc'
        omega }

variable [Zero φ] [Sub φ] [Neg φ] [Mul φ] [OfNat φ 10] [DecidableEq φ]
variable [LT φ] [LE φ] [DecidableLT φ] [DecidableLE φ]

theorem Inv.step (h : Inv setup s) {l : Label φ} (hstep : s.step setup l = some s') :
    Inv setup s' := by
  cases l with
  | touch e =>
    obtain ⟨stream, hfollow, rfl⟩ := Option.map_eq_some_iff.mp hstep
    exact h.push (advances_touch h hfollow)
  | surfaceGeneric e surface =>
    obtain rfl := Option.some.inj hstep
    exact h.push (advances_generic h (handleDisplayGenericMotionEvent_carries surface _ _))
  | rootGeneric e surface =>
    obtain rfl := Option.some.inj hstep
    exact h.push (advances_generic h (handleRootGenericMotionEvent_carries surface))
  | key e =>
    obtain ⟨he, heq⟩ := Option.ite_none_right_eq_some.mp hstep
    obtain rfl := Option.some.inj heq
    exact h.push (advances_key (φ := φ) h he)
  | connect =>
    obtain ⟨-, heq⟩ := Option.ite_none_right_eq_some.mp hstep
    obtain rfl := Option.some.inj heq
    exact h.connect
  | consumerLost =>
    obtain rfl := Option.some.inj hstep
    exact { h with
      out_lt := by simp
      same := by simp
      ahead := by simp
      first := by simp }
  | reopen =>
    obtain ⟨hout, heq⟩ := Option.ite_none_right_eq_some.mp hstep
    obtain rfl := Option.some.inj heq
    exact { h with
      bounded := Nat.zero_le _
      same := by simp [hout]
      ahead := by simp [hout]
      first := by simp [hout] }
  | pickup c =>
    obtain ⟨⟨hinn, hpicked, hnext⟩, heq⟩ := Option.ite_none_right_eq_some.mp hstep
    obtain rfl := Option.some.inj heq
    exact h.pickup hinn hpicked hnext
  | deliver =>
    obtain ⟨c, hinn, hstep⟩ := Option.bind_eq_some_iff.mp hstep
    cases hsocket : s.sockets c with
    | nil => simp [hsocket] at hstep
    | cons event events =>
      simp only [hsocket] at hstep
      obtain rfl := Option.some.inj hstep
      exact h.deliver hinn hsocket
  | fallback =>
    obtain ⟨-, heq⟩ := Option.ite_none_right_eq_some.mp hstep
    obtain rfl := Option.some.inj heq
    have hnone := fallbackCb_numTp h.untouched
    exact { h with
      inn_lt := by simp
      untouched := fun _ => hnone
      lost := fun _ => hnone
      same := by simp
      first := by simp }

/-- However often the connection is lost, no more touch points are down than fingers once
nothing is left on the common channel. -/
theorem touchPoints_le_of_run (setup : Setup) (ls : List (Label φ)) :
    Always (State.step setup) (fun s : State => ∀ c, s.out = some c → s.inn = some c →
      s.sockets c = [] → s.seat.numTp.toNat ≤ fingers s.stream) .initial ls := by
  apply always_of_invariant (fun s l t h hstep => Inv.step h hstep) ?_ (inv_initial setup)
  intro s h c hout hinn hempty
  have hsame := h.same c hout hinn
  rw [hempty] at hsame
  refine hsame.trans ?_
  unfold expected
  split_ifs
  · exact le_rfl
  · exact Nat.zero_le _

/-- While the first connection lasts, the seat holds down what the display does once the
channel is empty. -/
theorem mirrors_of_run (setup : Setup) (ls : List (Label φ)) :
    Always (State.step setup) (fun s : State => s.out = some 0 → s.inn = some 0 → s.sockets 0 = [] →
      Mirrors setup s s.seat) .initial ls := by
  apply always_of_invariant (fun s l t h hstep => Inv.step h hstep) ?_ (inv_initial setup)
  intro s h hout hinn hempty
  have hfirst := h.first hout hinn
  rwa [hempty] at hfirst

end InputPath
end ACGlass
