import Mathlib.Data.List.Basic
import Mathlib.Tactic

/-!
# Histories

A history is a list of observations in the order in which they were made.
`lastOf` looks up the most recent observation of a kind, `EachAt` judges every observation
by the history before it, and `Since` judges those after some observation.
-/

namespace ACGlass
namespace Trace

variable {ε α β : Type*}

/-- The most recent value that `f` finds in the history. -/
def lastOf (f : ε → Option α) (h : List ε) : Option α := (h.filterMap f).getLast?

@[simp] theorem lastOf_nil (f : ε → Option α) : lastOf f [] = none := rfl

theorem lastOf_append (f : ε → Option α) (h k : List ε) :
    lastOf f (h ++ k) = (lastOf f k).or (lastOf f h) := by
  simp [lastOf, List.filterMap_append, List.getLast?_append]

theorem lastOf_eq_none {f : ε → Option α} {h : List ε} (hf : ∀ x ∈ h, f x = none) :
    lastOf f h = none := by
  simpa [lastOf, List.filterMap_eq_nil_iff] using hf

theorem lastOf_append_of_none {f : ε → Option α} {k : List ε} (hf : ∀ x ∈ k, f x = none)
    (h : List ε) : lastOf f (h ++ k) = lastOf f h := by
  rw [lastOf_append, lastOf_eq_none hf, Option.none_or]

/-- An observation stays the last of its kind while only others follow it. -/
theorem lastOf_append_cons {f : ε → Option α} {x : ε} {a : α} (hx : f x = some a)
    {k : List ε} (hf : ∀ y ∈ k, f y = none) (h : List ε) :
    lastOf f (h ++ x :: k) = some a := by
  rw [List.append_cons, lastOf_append_of_none hf, lastOf_append]
  simp [lastOf, hx]

/-- The last observation of a kind is the last of every finer kind that it belongs to. -/
theorem lastOf_bind {f : ε → Option α} {g : α → Option β} {h : List ε} {a : α} {b : β}
    (hf : lastOf f h = some a) (hg : g a = some b) :
    lastOf (fun x => (f x).bind g) h = some b := by
  obtain ⟨front, hfront⟩ := List.getLast?_eq_some_iff.mp hf
  have hsplit : h.filterMap (fun x => (f x).bind g) = (h.filterMap f).filterMap g :=
    List.filterMap_filterMap.symm
  rw [lastOf, hsplit, hfront]
  simp [hg]

/-- Every observation satisfies the predicate relative to the history before it. -/
def EachAt (Q : List ε → ε → Prop) (h : List ε) : Prop :=
  ∀ pre x post, h = pre ++ x :: post → Q pre x

theorem eachAt_nil (Q : List ε → ε → Prop) : EachAt Q [] := by
  intro pre x post h
  simp at h

theorem eachAt_append {Q : List ε → ε → Prop} {h k : List ε} :
    EachAt Q (h ++ k) ↔ EachAt Q h ∧ EachAt (fun pre x => Q (h ++ pre) x) k := by
  constructor
  · intro ha
    refine ⟨?_, ?_⟩
    · rintro pre x post rfl
      exact ha pre x (post ++ k) (by simp)
    · rintro pre x post rfl
      exact ha (h ++ pre) x post (by simp)
  · rintro ⟨hh, hk⟩ pre x post heq
    rcases List.append_eq_append_iff.mp heq with ⟨a, rfl, hka⟩ | ⟨a, rfl, hka⟩
    · exact hk a x post hka
    · cases a with
      | nil => simpa using hk [] x post (by simpa using hka.symm)
      | cons y a =>
        obtain ⟨rfl, -⟩ := List.cons.inj hka
        exact hh pre x a rfl

theorem eachAt_cons {Q : List ε → ε → Prop} {x : ε} {k : List ε} :
    EachAt Q (x :: k) ↔ Q [] x ∧ EachAt (fun pre y => Q (x :: pre) y) k := by
  have hx : EachAt Q [x] ↔ Q [] x := by
    constructor
    · intro h
      exact h [] x [] rfl
    · intro h pre y post heq
      have hlen := congrArg List.length heq
      obtain rfl : pre = [] := List.eq_nil_of_length_eq_zero (by simp at hlen; omega)
      obtain ⟨rfl, -⟩ := List.cons.inj heq
      exact h
  rw [← hx, ← List.singleton_append, eachAt_append]
  rfl

/-- Observations that satisfy the predicate after every history need no bookkeeping. -/
theorem eachAt_of_forall {Q : List ε → ε → Prop} {h : List ε}
    (hQ : ∀ x ∈ h, ∀ pre, Q pre x) : EachAt Q h := by
  rintro pre x post rfl
  exact hQ x (by simp) pre

/-- Some observation satisfies `A`, and every later one `B` relative to the history before
it. -/
def Since (A : ε → Prop) (B : List ε → ε → Prop) (h : List ε) : Prop :=
  ∃ pre x post, h = pre ++ x :: post ∧ A x ∧ EachAt (fun mid y => B (pre ++ x :: mid) y) post

theorem not_since_nil {A : ε → Prop} {B : List ε → ε → Prop} : ¬ Since A B [] := by
  rintro ⟨pre, x, post, h, -⟩
  simp at h

theorem since_append_singleton {A : ε → Prop} {B : List ε → ε → Prop} {h : List ε} {x : ε} :
    Since A B (h ++ [x]) ↔ A x ∨ Since A B h ∧ B h x := by
  constructor
  · rintro ⟨pre, e, post, heq, ha, heach⟩
    rcases List.eq_nil_or_concat post with rfl | ⟨mid, y, rfl⟩
    · obtain ⟨-, hxe⟩ := List.append_inj' heq rfl
      obtain rfl := List.singleton_inj.mp hxe
      exact .inl ha
    · rw [List.concat_eq_append] at heq heach
      have heq : h ++ [x] = pre ++ e :: mid ++ [y] := by simpa using heq
      obtain ⟨rfl, hxy⟩ := List.append_inj' heq rfl
      obtain rfl := List.singleton_inj.mp hxy
      obtain ⟨hmid, hlast⟩ := eachAt_append.mp heach
      refine .inr ⟨⟨pre, e, mid, rfl, ha, hmid⟩, ?_⟩
      simpa using hlast [] x [] rfl
  · rintro (ha | ⟨⟨pre, e, mid, rfl, ha, hmid⟩, hb⟩)
    · exact ⟨h, x, [], rfl, ha, eachAt_nil _⟩
    · refine ⟨pre, e, mid ++ [x], by simp, ha, eachAt_append.mpr ⟨hmid, ?_⟩⟩
      rw [eachAt_cons]
      exact ⟨by simpa using hb, eachAt_nil _⟩

theorem Since.exists {A : ε → Prop} {B : List ε → ε → Prop} {h : List ε} (hs : Since A B h) :
    ∃ x ∈ h, A x := by
  obtain ⟨pre, x, post, rfl, ha, -⟩ := hs
  exact ⟨x, by simp, ha⟩

end Trace
end ACGlass
