import ACGlass.WlList

/-!
# Rings of intrusive lists

Where the pointers agree in both directions, the nodes of a `wl_list` are a list, and the
operations on its pointers are those on lists.
-/

namespace ACGlass
namespace WlList

open Function

variable {α : Type}

section Paths

variable {f f' : α → Option α} {a b c x : α} {ns ms : List α}

/-- From `a` the pointers lead through the nodes to `b`. -/
def Path (f : α → Option α) (a : α) : List α → α → Prop
  | [], b => f a = some b
  | n :: ns, b => f a = some n ∧ Path f n ns b

instance decidablePath [DecidableEq α] (f : α → Option α) (b : α) : ∀ a ns, Decidable (Path f a ns b)
  | a, [] => inferInstanceAs (Decidable (f a = some b))
  | a, n :: ns =>
    have := decidablePath f b n ns
    inferInstanceAs (Decidable (f a = some n ∧ Path f n ns b))

theorem Path.start_eq (h : Path f a ns b) : f a = (ns ++ [b]).head? := by
  cases ns with
  | nil => exact h
  | cons n ns => exact h.1

/-- Another node is made to point to where the path starts. -/
theorem Path.restart (h : Path f a ns b) (hstart : f' c = f a) (hrest : ∀ n ∈ ns, f' n = f n) :
    Path f' c ns b := by
  induction ns generalizing a c with
  | nil => exact hstart.trans h
  | cons n ns ih =>
    rw [List.forall_mem_cons] at hrest
    exact ⟨hstart.trans h.1, ih h.2 hrest.1 hrest.2⟩

theorem Path.congr (h : Path f a ns b) (hf : ∀ n ∈ a :: ns, f' n = f n) : Path f' a ns b := by
  rw [List.forall_mem_cons] at hf
  exact h.restart hf.1 hf.2

theorem path_append : Path f a (ns ++ x :: ms) b ↔ Path f a ns x ∧ Path f x ms b := by
  induction ns generalizing a with
  | nil => exact Iff.rfl
  | cons n ns ih => rw [List.cons_append, Path, Path, ih, and_assoc]

/-- Every node of a path has a pointer. -/
theorem Path.defined (h : Path f a ns b) :
    ∀ n ∈ a :: ns, ∃ m ∈ ns ++ [b], f n = some m := by
  induction ns generalizing a with
  | nil =>
    intro n hn
    rw [List.mem_singleton.mp hn]
    exact ⟨b, by simp, h⟩
  | cons c ns ih =>
    intro n hn
    rcases List.mem_cons.mp hn with rfl | hn
    · exact ⟨c, by simp, h.1⟩
    · obtain ⟨m, hm, heq⟩ := ih h.2 n hn
      exact ⟨m, List.mem_cons_of_mem c hm, heq⟩

variable [DecidableEq α]

/-- The last node is made to point elsewhere. -/
theorem Path.update_last (h : Path f a ns b) (hnodup : (a :: ns).Nodup) {last : α}
    (hlast : (a :: ns).getLast? = some last) (c : α) : Path (update f last (some c)) a ns c := by
  induction ns generalizing a with
  | nil =>
    obtain rfl : a = last := by simpa using hlast
    exact update_self _ _ _
  | cons n ns ih =>
    rw [List.nodup_cons] at hnodup
    rw [List.getLast?_cons_cons] at hlast
    have hne : a ≠ last := by
      rintro rfl
      exact hnodup.1 (List.mem_of_getLast? hlast)
    exact ⟨(update_of_ne hne _ _).trans h.1, ih h.2 hnodup.2 hlast⟩

/-- A node is taken out of a path. -/
theorem Path.skip (hfront : Path f a ns x) (hback : Path f x ms b)
    (hnodup : (a :: (ns ++ x :: ms)).Nodup) {last : α}
    (hlast : (a :: ns).getLast? = some last) (hx : f x = some c) :
    Path (update (update f last (some c)) x none) a (ns ++ ms) b := by
  rw [← List.cons_append] at hnodup
  obtain ⟨hnodup_front, hnodup_back, hdisjoint⟩ := List.nodup_append.mp hnodup
  rw [List.nodup_cons] at hnodup_back
  have hfront' : Path (update (update f last (some c)) x none) a ns c := by
    refine (hfront.update_last hnodup_front hlast c).congr fun n hn => update_of_ne ?_ _ _
    exact hdisjoint n hn x List.mem_cons_self
  cases ms with
  | nil =>
    obtain rfl : c = b := Option.some.inj (hx.symm.trans hback)
    rwa [List.append_nil]
  | cons m ms =>
    obtain rfl : c = m := Option.some.inj (hx.symm.trans hback.1)
    refine path_append.mpr ⟨hfront', hback.2.congr fun n hn => ?_⟩
    have hne : n ≠ x := fun h => hnodup_back.1 (h ▸ hn)
    have hne_last : n ≠ last := fun h =>
      hdisjoint last (List.mem_of_getLast? hlast) n (List.mem_cons_of_mem _ hn) h.symm
    rw [update_of_ne hne, update_of_ne hne_last]

end Paths

section Pointers

variable [DecidableEq α] {l l' : Links α} {a b p n elm list : α}

def prev (l : Links α) (a : α) : Option α := (l a).map Prod.fst

def next (l : Links α) (a : α) : Option α := (l a).map Prod.snd

theorem prev_update (l : Links α) (a : α) (v : Option (α × α)) :
    prev (update l a v) = update (prev l) a (v.map Prod.fst) :=
  comp_update (Option.map Prod.fst : Option (α × α) → Option α) l a v

theorem next_update (l : Links α) (a : α) (v : Option (α × α)) :
    next (update l a v) = update (next l) a (v.map Prod.snd) :=
  comp_update (Option.map Prod.snd : Option (α × α) → Option α) l a v

theorem setPrev_eq (h : setPrev l a p = some l') :
    prev l' = update (prev l) a (some p) ∧ next l' = next l ∧ ∀ b ≠ a, l' b = l b := by
  obtain ⟨v, hv, rfl⟩ := Option.map_eq_some_iff.mp h
  refine ⟨prev_update _ _ _, ?_, fun b hb => update_of_ne hb _ _⟩
  rw [next_update]
  refine update_eq_self_iff.mpr ?_
  simp [next, hv]

theorem setNext_eq (h : setNext l a n = some l') :
    prev l' = prev l ∧ next l' = update (next l) a (some n) ∧ ∀ b ≠ a, l' b = l b := by
  obtain ⟨v, hv, rfl⟩ := Option.map_eq_some_iff.mp h
  refine ⟨?_, next_update _ _ _, fun b hb => update_of_ne hb _ _⟩
  rw [prev_update]
  refine update_eq_self_iff.mpr ?_
  simp [prev, hv]

theorem remove_eq (h : remove l elm = some l') (hp : prev l elm = some p)
    (hn : next l elm = some n) :
    prev l' = update (update (prev l) n (some p)) elm none ∧
      next l' = update (update (next l) p (some n)) elm none ∧
      ∀ a, a ≠ elm → a ≠ p → a ≠ n → l' a = l a := by
  obtain ⟨⟨p', n'⟩, hv, h⟩ := Option.bind_eq_some_iff.mp h
  obtain rfl : p' = p := by simpa [prev, hv] using hp
  obtain rfl : n' = n := by simpa [next, hv] using hn
  obtain ⟨l₁, hl₁, h⟩ := Option.bind_eq_some_iff.mp h
  obtain ⟨l₂, hl₂, h⟩ := Option.bind_eq_some_iff.mp h
  obtain rfl := Option.some.inj h
  obtain ⟨hprev₁, hnext₁, hrest₁⟩ := setNext_eq hl₁
  obtain ⟨hprev₂, hnext₂, hrest₂⟩ := setPrev_eq hl₂
  refine ⟨?_, ?_, fun a ha hap han => ?_⟩
  · rw [prev_update, hprev₂, hprev₁, Option.map_none]
  · rw [next_update, hnext₂, hnext₁, Option.map_none]
  · rw [update_of_ne ha, hrest₂ a han, hrest₁ a hap]

theorem insert_eq (h : insert l list elm = some l') (hn : next l list = some n) :
    prev l' = update (update (prev l) elm (some list)) n (some elm) ∧
      next l' = update (update (next l) elm (some n)) list (some elm) ∧
      ∀ a, a ≠ elm → a ≠ list → a ≠ n → l' a = l a := by
  obtain ⟨⟨p, n'⟩, hv, h⟩ := Option.bind_eq_some_iff.mp h
  obtain rfl : n' = n := by simpa [next, hv] using hn
  obtain ⟨l₁, hl₁, h⟩ := Option.bind_eq_some_iff.mp h
  obtain ⟨hprev₁, hnext₁, hrest₁⟩ := setNext_eq hl₁
  obtain ⟨hprev₂, hnext₂, hrest₂⟩ := setPrev_eq h
  refine ⟨?_, ?_, fun a ha halist han => ?_⟩
  · rw [hprev₂, hprev₁, prev_update, Option.map_some]
  · rw [hnext₂, hnext₁, next_update, Option.map_some]
  · rw [hrest₂ a han, hrest₁ a halist, update_of_ne ha]

end Pointers

section Domain

variable {l l' : Links α} {a p n elm list : α}

/-- No node gets pointers that has none. -/
def Within (l l' : Links α) : Prop := ∀ a, l' a ≠ none → l a ≠ none

theorem Within.trans {l₁ l₂ l₃ : Links α} (h : Within l₁ l₂) (h' : Within l₂ l₃) : Within l₁ l₃ :=
  fun a ha => h a (h' a ha)

variable [DecidableEq α]

theorem within_update {v : Option (α × α)} (h : l a ≠ none) : Within l (update l a v) := by
  intro b hb
  by_cases hba : b = a
  · rwa [hba]
  · rwa [update_of_ne hba] at hb

theorem setPrev_within (h : setPrev l a p = some l') : Within l l' := by
  obtain ⟨v, hv, rfl⟩ := Option.map_eq_some_iff.mp h
  exact within_update (by simp [hv])

theorem setNext_within (h : setNext l a n = some l') : Within l l' := by
  obtain ⟨v, hv, rfl⟩ := Option.map_eq_some_iff.mp h
  exact within_update (by simp [hv])

theorem remove_within (h : remove l elm = some l') : Within l l' ∧ l elm ≠ none := by
  obtain ⟨⟨p, n⟩, hv, h⟩ := Option.bind_eq_some_iff.mp h
  obtain ⟨l₁, hl₁, h⟩ := Option.bind_eq_some_iff.mp h
  obtain ⟨l₂, hl₂, h⟩ := Option.bind_eq_some_iff.mp h
  obtain rfl := Option.some.inj h
  have hwithin : Within l l₂ := (setNext_within hl₁).trans (setPrev_within hl₂)
  refine ⟨fun a ha => hwithin a fun hnone => ha ?_, by simp [hv]⟩
  rw [update_apply]
  split_ifs
  · rfl
  · exact hnone

theorem insert_within (h : insert l list elm = some l') : ∀ a ≠ elm, l' a ≠ none → l a ≠ none := by
  obtain ⟨⟨p, n⟩, hv, h⟩ := Option.bind_eq_some_iff.mp h
  obtain ⟨l₁, hl₁, h⟩ := Option.bind_eq_some_iff.mp h
  intro a ha hl
  have hupdate := setNext_within hl₁ a (setPrev_within h a hl)
  rwa [update_of_ne ha] at hupdate

theorem moveToTop_within (h : moveToTop l list elm = some l') : Within l l' := by
  obtain ⟨l₁, hremove, hinsert⟩ := Option.bind_eq_some_iff.mp h
  obtain ⟨hwithin, helm⟩ := remove_within hremove
  intro a ha
  by_cases heq : a = elm
  · rwa [heq]
  · exact hwithin a (insert_within hinsert a heq ha)

theorem moveFrom_within {select : α → Option Bool} {dst head pos : α} {fuel : ℕ} {moved : List α}
    (h : moveFrom select dst head fuel l pos = some (l', moved)) : Within l l' := by
  induction fuel generalizing l pos moved with
  | zero => cases h
  | succ fuel ih =>
    rw [moveFrom] at h
    split_ifs at h
    · obtain ⟨rfl, -⟩ := Prod.mk.inj (Option.some.inj h)
      exact fun _ ha => ha
    obtain ⟨⟨tmp, n⟩, -, h⟩ := Option.bind_eq_some_iff.mp h
    obtain ⟨selected, -, h⟩ := Option.bind_eq_some_iff.mp h
    cases selected with
    | true =>
      obtain ⟨l₁, hl₁, h⟩ := Option.bind_eq_some_iff.mp h
      obtain ⟨⟨l₂, moved₂⟩, hl₂, h⟩ := Option.bind_eq_some_iff.mp h
      obtain ⟨rfl, -⟩ := Prod.mk.inj (Option.some.inj h)
      exact (moveToTop_within hl₁).trans (ih hl₂)
    | false => exact ih h

theorem moveAll_within {select : α → Option Bool} {dst head : α} {fuel : ℕ} {moved : List α}
    (h : moveAll select fuel l dst head = some (l', moved)) : Within l l' := by
  obtain ⟨⟨pos, n⟩, -, h⟩ := Option.bind_eq_some_iff.mp h
  exact moveFrom_within h

end Domain

section Rings

variable {l l' : Links α} {head dst x : α} {ns ms front back : List α}

/-- The nodes of a list in the order of `wl_list_for_each_reverse`; its pointers agree. -/
structure Ring (l : Links α) (head : α) (ns : List α) : Prop where
  prev : Path (prev l) head ns head
  next : Path (next l) head ns.reverse head
  nodup : (head :: ns).Nodup

instance [DecidableEq α] (l : Links α) (head : α) (ns : List α) : Decidable (Ring l head ns) :=
  decidable_of_iff (Path (WlList.prev l) head ns head ∧ Path (WlList.next l) head ns.reverse head ∧
    (head :: ns).Nodup) ⟨fun h => ⟨h.1, h.2.1, h.2.2⟩, fun h => ⟨h.prev, h.next, h.nodup⟩⟩

theorem Ring.congr (h : Ring l head ns) (heq : ∀ a ∈ head :: ns, l' a = l a) :
    Ring l' head ns where
  prev := h.prev.congr fun a ha => by rw [WlList.prev, WlList.prev, heq a ha]
  next := h.next.congr fun a ha => by
    have hmem : a ∈ head :: ns := by simpa using ha
    rw [WlList.next, WlList.next, heq a hmem]
  nodup := h.nodup

theorem mem_with {a : α} (x : α) (h : a ∈ head :: (front ++ back)) :
    a ∈ head :: (front ++ x :: back) := by
  simp only [List.mem_cons, List.mem_append] at h ⊢
  tauto

theorem Ring.ne_of_mem (h : Ring l head (front ++ x :: back)) {a : α}
    (ha : a ∈ head :: (front ++ back)) : a ≠ x := by
  rintro rfl
  have hnodup := h.nodup
  rw [← List.cons_append, List.nodup_middle] at hnodup
  exact (List.nodup_cons.mp hnodup).1 ha

theorem Ring.defined {a : α} (h : Ring l head ns) (ha : a ∈ head :: ns) : l a ≠ none := by
  obtain ⟨m, -, heq⟩ := h.prev.defined a ha
  intro hnone
  simp [WlList.prev, hnone] at heq

/-- The pointers of a ring stay in it. -/
theorem Ring.exists_links {a : α} (h : Ring l head ns) (ha : a ∈ head :: ns) :
    ∃ p n, l a = some (p, n) ∧ l p ≠ none ∧ l n ≠ none := by
  have ha' : a ∈ head :: ns.reverse := by simpa using ha
  obtain ⟨p, hp, hprev⟩ := h.prev.defined a ha
  obtain ⟨n, hn, hnext⟩ := h.next.defined a ha'
  obtain ⟨⟨p', n'⟩, heq⟩ := Option.ne_none_iff_exists'.mp (h.defined ha)
  obtain rfl : p' = p := by simpa [WlList.prev, heq] using hprev
  obtain rfl : n' = n := by simpa [WlList.next, heq] using hnext
  refine ⟨p', n', heq, h.defined ?_, h.defined ?_⟩
  · simpa [or_comm] using hp
  · simpa [or_comm] using hn

variable [DecidableEq α]

theorem ring_init (l : Links α) (head : α) : Ring (init l head) head [] where
  prev := by simp [Path, WlList.prev, init]
  next := by simp [Path, WlList.next, init]
  nodup := List.nodup_singleton _

theorem Ring.remove (h : Ring l head (front ++ x :: back)) (hremove : remove l x = some l') :
    Ring l' head (front ++ back) ∧ ∀ a ∉ head :: (front ++ x :: back), l' a = l a := by
  obtain ⟨hprev, hnext, hnodup⟩ := h
  rw [List.reverse_append, List.reverse_cons, List.append_assoc, List.singleton_append] at hnext
  obtain ⟨hprev_front, hprev_back⟩ := path_append.mp hprev
  obtain ⟨hnext_back, hnext_front⟩ := path_append.mp hnext
  obtain ⟨b, hb⟩ : ∃ b, (back ++ [head]).head? = some b := ⟨_, List.head?_eq_some_head (by simp)⟩
  obtain ⟨a, ha⟩ : ∃ a, (front.reverse ++ [head]).head? = some a :=
    ⟨_, List.head?_eq_some_head (by simp)⟩
  have hx_prev := hprev_back.start_eq.trans hb
  have hx_next := hnext_front.start_eq.trans ha
  have hlast_front : (head :: front).getLast? = some a := by
    rw [← ha, ← List.reverse_cons, List.head?_reverse]
  have hlast_back : (head :: back.reverse).getLast? = some b := by
    rw [← hb, List.getLast?_eq_head?_reverse, List.reverse_cons, List.reverse_reverse]
  have hnodup' : (head :: (back.reverse ++ x :: front.reverse)).Nodup := by
    have hperm : (front ++ x :: back).reverse = back.reverse ++ x :: front.reverse := by simp
    rw [← hperm, List.nodup_cons, List.mem_reverse, List.nodup_reverse]
    exact List.nodup_cons.mp hnodup
  obtain ⟨hprev', hnext', hrest⟩ := remove_eq hremove hx_prev hx_next
  refine ⟨⟨?_, ?_, ?_⟩, fun c hc => ?_⟩
  · rw [hprev']
    exact hprev_front.skip hprev_back hnodup hlast_front hx_prev
  · rw [hnext', List.reverse_append]
    exact hnext_back.skip hnext_front hnodup' hlast_back hx_next
  · refine hnodup.sublist ?_
    exact (((List.sublist_cons_self x back).append_left front).cons_cons head)
  · have hmem_a : a ∈ head :: front := List.mem_of_getLast? hlast_front
    have hmem_b : b ∈ head :: back.reverse := List.mem_of_getLast? hlast_back
    refine hrest c ?_ ?_ ?_ <;> rintro rfl <;> refine hc ?_
    · simp
    · simp only [List.mem_cons, List.mem_reverse] at hmem_b
      simp only [List.mem_cons, List.mem_append]
      tauto
    · simp only [List.mem_cons] at hmem_a
      simp only [List.mem_cons, List.mem_append]
      tauto

theorem Ring.insert (h : Ring l dst ns) (hx : x ∉ dst :: ns) (hinsert : insert l dst x = some l') :
    Ring l' dst (ns ++ [x]) ∧ ∀ a ∉ x :: dst :: ns, l' a = l a := by
  obtain ⟨hprev, hnext, hnodup⟩ := h
  obtain ⟨n, hn⟩ : ∃ n, (ns.reverse ++ [dst]).head? = some n := ⟨_, List.head?_eq_some_head (by simp)⟩
  have hdst_next := hnext.start_eq.trans hn
  have hlast : (dst :: ns).getLast? = some n := by
    rw [← hn, ← List.reverse_cons, List.head?_reverse]
  have hmem_n : n ∈ dst :: ns := List.mem_of_getLast? hlast
  obtain ⟨hprev', hnext', hrest⟩ := insert_eq hinsert hdst_next
  have hne : ∀ a ∈ dst :: ns, a ≠ x := fun a ha heq => hx (heq ▸ ha)
  refine ⟨⟨?_, ?_, ?_⟩, fun c hc => ?_⟩
  · rw [hprev']
    refine path_append.mpr ⟨?_, ?_⟩
    · have hpath : Path (update (WlList.prev l) x (some dst)) dst ns dst :=
        hprev.congr fun a ha => update_of_ne (hne a ha) _ _
      exact hpath.update_last hnodup hlast x
    · rw [Path, update_of_ne (hne n hmem_n).symm, update_self]
  · rw [hnext', List.reverse_append, List.reverse_singleton, List.singleton_append]
    refine ⟨update_self _ _ _, hnext.restart ?_ fun a ha => ?_⟩
    · rw [update_of_ne (hne dst List.mem_cons_self).symm, update_self, hdst_next]
    · have hmem : a ∈ ns := List.mem_reverse.mp ha
      have hne_dst : a ≠ dst := fun heq => (List.nodup_cons.mp hnodup).1 (heq ▸ hmem)
      rw [update_of_ne hne_dst, update_of_ne (hne a (List.mem_cons_of_mem _ hmem))]
  · rw [← List.cons_append, List.nodup_append]
    refine ⟨hnodup, List.nodup_singleton x, fun a ha b hb => ?_⟩
    rw [List.mem_singleton.mp hb]
    exact hne a ha
  · rw [List.mem_cons, not_or] at hc
    refine hrest c hc.1 (fun heq => hc.2 (heq ▸ List.mem_cons_self)) fun heq => hc.2 ?_
    rw [heq]
    exact hmem_n

variable {select : α → Option Bool} {fuel : ℕ} {pos : α} {kept rest moved : List α}

/-- A node of one ring is moved to another ring. -/
theorem Ring.moveToTop (hhead : Ring l head (front ++ x :: back)) (hdst : Ring l dst ns)
    (hdisjoint : ∀ a ∈ head :: (front ++ x :: back), a ∉ dst :: ns)
    (h : moveToTop l dst x = some l') :
    Ring l' head (front ++ back) ∧ Ring l' dst (ns ++ [x]) ∧
      ∀ a, a ∉ head :: (front ++ x :: back) → a ∉ dst :: ns → l' a = l a := by
  obtain ⟨l₁, hremove, hinsert⟩ := Option.bind_eq_some_iff.mp h
  obtain ⟨hhead₁, hrest₁⟩ := hhead.remove hremove
  have hdst₁ : Ring l₁ dst ns := hdst.congr fun a ha => hrest₁ a fun hmem => hdisjoint a hmem ha
  have hx : x ∉ dst :: ns := hdisjoint x (by simp)
  obtain ⟨hdst₂, hrest₂⟩ := hdst₁.insert hx hinsert
  refine ⟨hhead₁.congr fun a ha => hrest₂ a ?_, hdst₂, fun a ha ha' => ?_⟩
  · rw [List.mem_cons, not_or]
    exact ⟨hhead.ne_of_mem ha, hdisjoint a (mem_with x ha)⟩
  · rw [hrest₂ a, hrest₁ a ha]
    rw [List.mem_cons, not_or]
    refine ⟨fun heq => ha ?_, ha'⟩
    simp [heq]

/-- The walk that moves nodes: it has kept some, and the rest is ahead of it. -/
theorem Ring.moveFrom (hhead : Ring l head (kept ++ rest)) (hdst : Ring l dst ns)
    (hdisjoint : ∀ a ∈ head :: (kept ++ rest), a ∉ dst :: ns)
    (hpos : (rest ++ [head]).head? = some pos)
    (h : moveFrom select dst head fuel l pos = some (l', moved)) :
    moved = rest.filter (select · = some true) ∧
      Ring l' head (kept ++ rest.filter (select · ≠ some true)) ∧ Ring l' dst (ns ++ moved) ∧
      (∀ a, a ∉ head :: (kept ++ rest) → a ∉ dst :: ns → l' a = l a) ∧
      ∀ a ∈ rest, select a ≠ none := by
  induction fuel generalizing l pos kept rest ns moved with
  | zero => cases h
  | succ fuel ih =>
    rw [WlList.moveFrom] at h
    cases rest with
    | nil =>
      obtain rfl : head = pos := by simpa using hpos
      rw [if_pos rfl] at h
      obtain ⟨rfl, rfl⟩ := Prod.mk.inj (Option.some.inj h)
      refine ⟨rfl, hhead, ?_, fun _ _ _ => rfl, by simp⟩
      rwa [List.append_nil]
    | cons x rest =>
      obtain rfl : x = pos := by simpa using hpos
      have hne : x ≠ head := by
        rintro rfl
        exact (List.nodup_cons.mp hhead.nodup).1 (by simp)
      rw [if_neg hne] at h
      obtain ⟨⟨tmp, n⟩, hx, h⟩ := Option.bind_eq_some_iff.mp h
      obtain ⟨selected, hselected, h⟩ := Option.bind_eq_some_iff.mp h
      have htmp : (rest ++ [head]).head? = some tmp := by
        rw [← (path_append.mp hhead.prev).2.start_eq]
        simp [WlList.prev, hx]
      cases selected with
      | true =>
        obtain ⟨l₁, hl₁, h⟩ := Option.bind_eq_some_iff.mp h
        obtain ⟨⟨l₂, moved₂⟩, hl₂, h⟩ := Option.bind_eq_some_iff.mp h
        obtain ⟨rfl, rfl⟩ := Prod.mk.inj (Option.some.inj h)
        obtain ⟨hhead₁, hdst₁, hrest₁⟩ := hhead.moveToTop hdst hdisjoint hl₁
        have hdisjoint₁ : ∀ a ∈ head :: (kept ++ rest), a ∉ dst :: (ns ++ [x]) := by
          intro a ha
          rw [← List.cons_append, List.mem_append, List.mem_singleton, not_or]
          exact ⟨hdisjoint a (mem_with x ha), hhead.ne_of_mem ha⟩
        obtain ⟨rfl, hhead₂, hdst₂, hrest₂, hends⟩ := ih hhead₁ hdst₁ hdisjoint₁ htmp hl₂
        refine ⟨by simp [hselected], by simpa [hselected] using hhead₂, by simpa using hdst₂,
          fun a ha ha' => ?_, by simpa [hselected] using hends⟩
        rw [hrest₂ a, hrest₁ a ha ha']
        · exact fun hmem => ha (mem_with x hmem)
        · simp only [List.mem_cons, List.mem_append, List.not_mem_nil, or_false] at ha ha' ⊢
          tauto
      | false =>
        have happ : kept ++ x :: rest = kept ++ [x] ++ rest := by simp
        rw [happ] at hhead hdisjoint
        obtain ⟨rfl, hhead₂, hdst₂, hrest₂, hends⟩ := ih hhead hdst hdisjoint htmp h
        refine ⟨by simp [hselected], by simpa [hselected] using hhead₂, hdst₂, ?_,
          by simpa [hselected] using hends⟩
        rwa [happ]

/-- Moving nodes of a ring to the end of another one. -/
theorem Ring.moveAll (hhead : Ring l head ms) (hdst : Ring l dst ns)
    (hdisjoint : ∀ a ∈ head :: ms, a ∉ dst :: ns)
    (h : moveAll select fuel l dst head = some (l', moved)) :
    moved = ms.filter (select · = some true) ∧
      Ring l' head (ms.filter (select · ≠ some true)) ∧ Ring l' dst (ns ++ moved) ∧
      ∀ a ∈ ms, select a ≠ none := by
  obtain ⟨⟨pos, n⟩, hpos, h⟩ := Option.bind_eq_some_iff.mp h
  have hstart : (ms ++ [head]).head? = some pos := by
    rw [← hhead.prev.start_eq]
    simp [WlList.prev, hpos]
  have hkept : Ring l head ([] ++ ms) := hhead
  obtain ⟨hmoved, hhead', hdst', -, hends⟩ := hkept.moveFrom hdst hdisjoint hstart h
  exact ⟨hmoved, hhead', hdst', hends⟩

theorem backFrom_eq {a : α} (h : Path (WlList.prev l) a ns head) (hhead : head ∉ ns)
    (hpos : WlList.prev l a = some pos) (hback : backFrom l head fuel pos = some ms) : ms = ns := by
  induction fuel generalizing a ns pos ms with
  | zero => cases hback
  | succ fuel ih =>
    rw [backFrom] at hback
    cases ns with
    | nil =>
      obtain rfl : head = pos := Option.some.inj (h.symm.trans hpos)
      rw [if_pos rfl] at hback
      exact (Option.some.inj hback).symm
    | cons n ns =>
      obtain rfl : n = pos := Option.some.inj (h.1.symm.trans hpos)
      rw [List.mem_cons, not_or] at hhead
      rw [if_neg (Ne.symm hhead.1)] at hback
      obtain ⟨⟨prev, next⟩, hn, hback⟩ := Option.bind_eq_some_iff.mp hback
      obtain ⟨rest, hrest, hback⟩ := Option.bind_eq_some_iff.mp hback
      have hprev : WlList.prev l n = some prev := by simp [WlList.prev, hn]
      rw [← Option.some.inj hback, ih h.2 hhead.2 hprev hrest]

/-- A walk over a ring finds its nodes. -/
theorem Ring.backward_eq (h : Ring l head ns) (hback : backward l fuel head = some ms) :
    ms = ns := by
  obtain ⟨⟨pos, next⟩, hhead, hback⟩ := Option.bind_eq_some_iff.mp hback
  have hpos : WlList.prev l head = some pos := by simp [WlList.prev, hhead]
  exact backFrom_eq h.prev (List.nodup_cons.mp h.nodup).1 hpos hback

section Totality

theorem update_ne_none {l : Links α} {a b : α} {v : α × α} (h : l b ≠ none) :
    update l a (some v) b ≠ none := by
  rw [update_apply]
  split_ifs
  · simp
  · exact h

theorem exists_setPrev {a b : α} (h : l a ≠ none) : ∃ l', setPrev l a b = some l' := by
  obtain ⟨v, hv⟩ := Option.ne_none_iff_exists'.mp h
  exact ⟨_, by rw [setPrev, hv]; rfl⟩

theorem exists_setNext {a b : α} (h : l a ≠ none) :
    ∃ l', setNext l a b = some l' ∧ ∀ c, l c ≠ none → l' c ≠ none := by
  obtain ⟨v, hv⟩ := Option.ne_none_iff_exists'.mp h
  exact ⟨_, by rw [setNext, hv]; rfl, fun c => update_ne_none⟩

theorem Ring.exists_remove (h : Ring l head ns) (hx : x ∈ head :: ns) :
    ∃ l', WlList.remove l x = some l' := by
  obtain ⟨p, n, hlinks, hp, hn⟩ := h.exists_links hx
  obtain ⟨l₁, hl₁, hkeep⟩ := exists_setNext (b := n) hp
  obtain ⟨l₂, hl₂⟩ := exists_setPrev (b := p) (hkeep n hn)
  exact ⟨update l₂ x none, by simp [WlList.remove, hlinks, hl₁, hl₂]⟩

theorem Ring.exists_insert (h : Ring l dst ns) (x : α) : ∃ l', WlList.insert l dst x = some l' := by
  obtain ⟨p, n, hlinks, hp, hn⟩ := h.exists_links (a := dst) (by simp)
  have hdst : l dst ≠ none := h.defined (by simp)
  obtain ⟨l₁, hl₁, hkeep⟩ := exists_setNext (l := update l x (some (dst, n))) (b := x)
    (update_ne_none hdst)
  obtain ⟨l₂, hl₂⟩ := exists_setPrev (b := x) (hkeep n (update_ne_none hn))
  exact ⟨l₂, by simp [WlList.insert, hlinks, hl₁, hl₂]⟩

theorem Ring.exists_moveToTop (hhead : Ring l head (front ++ x :: back)) (hdst : Ring l dst ns)
    (hdisjoint : ∀ a ∈ head :: (front ++ x :: back), a ∉ dst :: ns) :
    ∃ l', WlList.moveToTop l dst x = some l' := by
  obtain ⟨l₁, hl₁⟩ := hhead.exists_remove (x := x) (by simp)
  have hdst₁ : Ring l₁ dst ns :=
    hdst.congr fun a ha => (hhead.remove hl₁).2 a fun hmem => hdisjoint a hmem ha
  obtain ⟨l₂, hl₂⟩ := hdst₁.exists_insert x
  exact ⟨l₂, by simp [WlList.moveToTop, hl₁, hl₂]⟩

/-- The walk that moves nodes ends if the selection does. -/
theorem Ring.exists_moveFrom (hhead : Ring l head (kept ++ rest)) (hdst : Ring l dst ns)
    (hdisjoint : ∀ a ∈ head :: (kept ++ rest), a ∉ dst :: ns)
    (hpos : (rest ++ [head]).head? = some pos) (hfuel : rest.length < fuel)
    (hselect : ∀ a ∈ rest, select a ≠ none) :
    ∃ r, WlList.moveFrom select dst head fuel l pos = some r := by
  induction fuel generalizing l pos kept rest ns with
  | zero => omega
  | succ fuel ih =>
    rw [WlList.moveFrom]
    cases rest with
    | nil =>
      obtain rfl : head = pos := by simpa using hpos
      exact ⟨_, if_pos rfl⟩
    | cons x rest =>
      obtain rfl : x = pos := by simpa using hpos
      rw [List.forall_mem_cons] at hselect
      have hne : x ≠ head := by
        rintro rfl
        exact (List.nodup_cons.mp hhead.nodup).1 (by simp)
      obtain ⟨tmp, n, hx, -, -⟩ := hhead.exists_links (a := x) (by simp)
      have htmp : (rest ++ [head]).head? = some tmp := by
        rw [← (path_append.mp hhead.prev).2.start_eq]
        simp [WlList.prev, hx]
      have hshort : rest.length < fuel := by simpa using hfuel
      obtain ⟨selected, hselected⟩ := Option.ne_none_iff_exists'.mp hselect.1
      rw [if_neg hne]
      cases selected with
      | true =>
        obtain ⟨l₁, hl₁⟩ := hhead.exists_moveToTop hdst hdisjoint
        obtain ⟨hhead₁, hdst₁, -⟩ := hhead.moveToTop hdst hdisjoint hl₁
        have hdisjoint₁ : ∀ a ∈ head :: (kept ++ rest), a ∉ dst :: (ns ++ [x]) := by
          intro a ha
          rw [← List.cons_append, List.mem_append, List.mem_singleton, not_or]
          exact ⟨hdisjoint a (mem_with x ha), hhead.ne_of_mem ha⟩
        obtain ⟨r, hr⟩ := ih hhead₁ hdst₁ hdisjoint₁ htmp hshort hselect.2
        exact ⟨(r.1, x :: r.2), by simp [hx, hselected, hl₁, hr]⟩
      | false =>
        have happ : kept ++ x :: rest = kept ++ [x] ++ rest := by simp
        rw [happ] at hhead hdisjoint
        obtain ⟨r, hr⟩ := ih hhead hdst hdisjoint htmp hshort hselect.2
        exact ⟨r, by simp [hx, hselected, hr]⟩

theorem Ring.exists_moveAll (hhead : Ring l head ms) (hdst : Ring l dst ns)
    (hdisjoint : ∀ a ∈ head :: ms, a ∉ dst :: ns) (hfuel : ms.length < fuel)
    (hselect : ∀ a ∈ ms, select a ≠ none) :
    ∃ r, WlList.moveAll select fuel l dst head = some r := by
  obtain ⟨pos, n, hlinks, -, -⟩ := hhead.exists_links (a := head) (by simp)
  have hstart : (ms ++ [head]).head? = some pos := by
    rw [← hhead.prev.start_eq]
    simp [WlList.prev, hlinks]
  have hkept : Ring l head ([] ++ ms) := hhead
  obtain ⟨r, hr⟩ := hkept.exists_moveFrom hdst hdisjoint hstart hfuel hselect
  exact ⟨r, by simp [WlList.moveAll, hlinks, hr]⟩

theorem exists_backFrom {a : α} (h : Path (WlList.prev l) a ns head)
    (hpos : WlList.prev l a = some pos) (hfuel : ns.length < fuel) :
    ∃ ms, backFrom l head fuel pos = some ms := by
  induction fuel generalizing a ns pos with
  | zero => omega
  | succ fuel ih =>
    rw [backFrom]
    by_cases hhead : pos = head
    · exact ⟨[], if_pos hhead⟩
    · rw [if_neg hhead]
      cases ns with
      | nil => exact absurd (Option.some.inj (hpos.symm.trans h)) hhead
      | cons n ns =>
        obtain rfl : n = pos := Option.some.inj (h.1.symm.trans hpos)
        obtain ⟨m, -, hm⟩ := h.2.defined n (by simp)
        obtain ⟨⟨p, q⟩, hlinks, rfl⟩ := Option.map_eq_some_iff.mp hm
        obtain ⟨ms, hms⟩ := ih h.2 hm (by simpa using hfuel)
        exact ⟨n :: ms, by simp [hlinks, hms]⟩

/-- A walk over a ring ends. -/
theorem Ring.backward_eq_some (h : Ring l head ns) (hfuel : ns.length < fuel) :
    backward l fuel head = some ns := by
  obtain ⟨pos, n, hlinks, -, -⟩ := h.exists_links (a := head) (by simp)
  have hpos : WlList.prev l head = some pos := by simp [WlList.prev, hlinks]
  obtain ⟨ms, hms⟩ := exists_backFrom h.prev hpos hfuel
  have hback : backward l fuel head = some ms := by simp [backward, hlinks, hms]
  rw [hback, h.backward_eq hback]

end Totality

end Rings

end WlList
end ACGlass
