import Mathlib.Algebra.BigOperators.Group.List.Basic
import Mathlib.Algebra.Order.Group.Int
import Mathlib.Algebra.Ring.Nat
import Mathlib.Data.List.Flatten
import UckSmp.Futex.Waiters

/-!
# Wakes and the waits they end

What `uck_futex_wake_local` returns is the number of waiters that it marked. A marked waiter stays in the table until it
has run, so that the next wake marks it again; and one that found another value returns `-EAGAIN`, marked or not. Beside
the table, all wakes and all returns are recorded.

* `deficit`: the waiters counted and neither returned nor still in the table with their flag set; `step_deficit`: no
  step lowers it, and it grows in the steps that are not `Clean`.
* `wakes_conserved_iff`: on an address whose waits have all returned, the counts add up to the waits that returned zero
  exactly if every step was clean.
-/

namespace UckSmp.Futex

open Lib.Transition

/-! ## Statement -/

/-- A call of `uck_futex_wake_local`. -/
structure Wake where
  addr : FutexAddr
  nr : UInt32
  /-- How many waiters were there that no wake had marked. -/
  waiting : Nat
  marked : List Waiter
  deriving DecidableEq, Repr

/-- The return of a wait. -/
structure Return where
  id : Nat
  addr : FutexAddr
  result : Result
  deriving DecidableEq, Repr

structure History where
  wakes : List Wake := []
  returns : List Return := []
  deriving DecidableEq, Repr

namespace History

/-- The wakes of an address. -/
def wakesOf (h : History) (a : FutexAddr) : List Wake := h.wakes.filter (·.addr = a)

/-- The sum of the counts that they returned. -/
def counted (h : History) (a : FutexAddr) : Nat := ((h.wakesOf a).map (·.marked.length)).sum

/-- The waits that returned zero. -/
def zeros (h : History) (a : FutexAddr) : Nat := h.returns.countP fun x => x.addr = a ∧ x.result = .zero

/-- The waits that were marked. -/
def marks (h : History) (a : FutexAddr) : List Nat := (h.wakesOf a).flatMap fun k => k.marked.map (·.id)

/-- The history after one more step. -/
def record (s : Node) (ev : Event) (_ : Node) (h : History) : History :=
  match ev with
  | .wake a nr =>
    { h with wakes := ⟨a, nr, s.table.countP fun w => w.addr = a ∧ w.woken = false, s.marked a nr⟩ :: h.wakes }
  | .leave i => { h with returns := ((s.waiter i).map fun w => ⟨i, w.addr, .eagain⟩).toList ++ h.returns }
  | .resume i _ => { h with returns := ((s.waiter i).map fun w => ⟨i, w.addr, w.result⟩).toList ++ h.returns }
  | .enqueue _ _ => h
  | .compare _ _ => h

/-- The wakes of an address are conserved. -/
structure Conserved (a : FutexAddr) (h : History) : Prop where
  /-- The counts add up to the successful waits. -/
  total : h.counted a = h.zeros a
  /-- A waiter that was counted returns from a successful wait. -/
  success : ∀ i ∈ h.marks a, ⟨i, a, .zero⟩ ∈ h.returns
  /-- Any `k` wakes of one that found somebody asleep marked `k` different waiters. -/
  different : ∀ ks : List Wake, ks.Sublist (h.wakesOf a) → (∀ k ∈ ks, k.nr = 1 ∧ 0 < k.waiting) →
    (ks.flatMap fun k => k.marked.map (·.id)).Nodup ∧ (ks.flatMap fun k => k.marked.map (·.id)).length = ks.length

end History

/-- A wake of the address marks nobody who is marked, and nobody who is marked leaves without having slept. -/
def Clean (a : FutexAddr) (s : Node) : Event → Prop
  | .wake b nr => b = a → ∀ w ∈ s.marked b nr, w.woken = false
  | .leave i => ∀ w ∈ s.waiter i, w.addr = a → w.woken = false
  | .enqueue _ _ => True
  | .compare _ _ => True
  | .resume _ _ => True

instance (a : FutexAddr) (s : Node) : DecidablePred (Clean a s)
  | .wake b nr => inferInstanceAs (Decidable (b = a → ∀ w ∈ s.marked b nr, w.woken = false))
  | .leave i => inferInstanceAs (Decidable (∀ w ∈ s.waiter i, w.addr = a → w.woken = false))
  | .enqueue _ _ => .isTrue trivial
  | .compare _ _ => .isTrue trivial
  | .resume _ _ => .isTrue trivial

variable {a b : FutexAddr} {s t : Node} {h : History} {nr : UInt32} {w : Waiter} {i : Nat}

/-! ## The deficit -/

/-- The waiters of the address that are in the table with their flag set. -/
def pending (s : Node) (a : FutexAddr) : Nat := s.table.countP fun w => w.addr = a ∧ w.woken = true

/-- The waiters that were counted and neither returned zero nor will. -/
def deficit (a : FutexAddr) (p : Node × History) : Int := p.2.counted a - p.2.zeros a - pending p.1 a

theorem pending_setPhase (s : Node) (i : Nat) (p : Phase) (a : FutexAddr) :
    pending (s.setPhase i p) a = pending s a := by
  rw [pending, Node.setPhase, List.countP_map]
  refine List.countP_congr fun w _ => ?_
  simp only [Function.comp_apply]
  split <;> rfl

/-- One entry less. -/
theorem countP_remove {l : List Waiter} (hn : (l.map (·.id)).Nodup) (hw : w ∈ l) (p : Waiter → Bool) :
    (l.filter (·.id ≠ w.id)).countP p + (p w).toNat = l.countP p := by
  induction l with
  | nil => cases hw
  | cons v l ih =>
    obtain ⟨hv, hn⟩ := List.nodup_cons.1 hn
    obtain rfl | hw := List.mem_cons.1 hw
    · have hkeep : l.filter (·.id ≠ w.id) = l :=
        List.filter_eq_self.2 fun u hu => by
          simp only [ne_eq, decide_not, Bool.not_eq_true', decide_eq_false_iff_not]
          exact fun hid => hv (List.mem_map.2 ⟨u, hu, hid⟩)
      rw [List.filter_cons_of_neg (by simp), hkeep, List.countP_cons]
      cases p w <;> rfl
    · have hne : v.id ≠ w.id := fun hid => hv (List.mem_map.2 ⟨w, hw, hid.symm⟩)
      rw [List.filter_cons_of_pos (by simpa using hne), List.countP_cons, List.countP_cons, ← ih hn hw]
      omega

theorem pending_remove (hn : Numbered s) (hw : s.waiter i = some w) (a : FutexAddr) :
    pending (s.remove i) a + (decide (w.addr = a ∧ w.woken = true)).toNat = pending s a := by
  obtain ⟨hmem, rfl⟩ := mem_of_waiter hw
  exact countP_remove hn.nodup hmem _

/-- A wake sets the flags of those it marks that did not have it. -/
theorem countP_wakeLoop (a : FutexAddr) (nr : UInt32) (woken : Nat) (l : List Waiter) :
    (wakeLoop a nr woken l).2.countP (fun w => w.addr = a ∧ w.woken = true) =
      l.countP (fun w => w.addr = a ∧ w.woken = true) + (wakeLoop a nr woken l).1.countP (·.woken = false) := by
  induction l generalizing woken with
  | nil => rfl
  | cons w l ih =>
    simp only [wakeLoop]
    split
    · rename_i hw
      split
      · simp only [List.countP_cons, List.countP_nil, hw.2, Waiter.wake, true_and, decide_true, if_true]
        cases w.woken <;> simp
      · simp only [List.countP_cons, hw.2, Waiter.wake, true_and, decide_true, if_true, ih]
        cases w.woken <;> simp <;> omega
    · simp only [List.countP_cons, ih]
      omega

theorem pending_wake_self (s : Node) (a : FutexAddr) (nr : UInt32) :
    pending (s.uckFutexWakeLocal a nr) a = pending s a + (s.marked a nr).countP (·.woken = false) :=
  countP_wakeLoop a nr 0 s.table

/-- Waiters of other addresses are left alone. -/
theorem filter_wakeLoop {a b : FutexAddr} (hne : b ≠ a) (nr : UInt32) (woken : Nat) (l : List Waiter) :
    (wakeLoop b nr woken l).2.filter (·.addr = a) = l.filter (·.addr = a) := by
  induction l generalizing woken with
  | nil => rfl
  | cons w l ih =>
    simp only [wakeLoop]
    split
    · rename_i hw
      have haddr : w.addr ≠ a := hw.2 ▸ hne
      have haddr' : w.wake.addr ≠ a := haddr
      split
      · rw [List.filter_cons_of_neg (by simpa using haddr'), List.filter_cons_of_neg (by simpa using haddr)]
      · rw [List.filter_cons_of_neg (by simpa using haddr'), List.filter_cons_of_neg (by simpa using haddr), ih]
    · rw [List.filter_cons, List.filter_cons, ih]

theorem pending_wake_ne (s : Node) (hne : b ≠ a) (nr : UInt32) :
    pending (s.uckFutexWakeLocal b nr) a = pending s a := by
  have hcount : ∀ l : List Waiter, l.countP (fun w => w.addr = a ∧ w.woken = true) =
      (l.filter (·.addr = a)).countP (·.woken = true) := by
    intro l
    rw [List.countP_filter]
    exact List.countP_congr fun w _ => by simp [and_comm]
  rw [pending, pending, hcount, hcount]
  exact congrArg _ (filter_wakeLoop hne nr 0 s.table)

namespace History

theorem counted_wake_self (h : History) (s t : Node) (a : FutexAddr) (nr : UInt32) :
    (record s (.wake a nr) t h).counted a = (s.marked a nr).length + h.counted a := by
  simp [record, counted, wakesOf]

theorem counted_wake_ne (h : History) (s t : Node) (hne : b ≠ a) (nr : UInt32) :
    (record s (.wake b nr) t h).counted a = h.counted a := by
  simp [record, counted, wakesOf, hne]

theorem zeros_leave (h : History) (t : Node) (hw : s.waiter i = some w) (a : FutexAddr) :
    (record s (.leave i) t h).zeros a = h.zeros a := by
  simp [record, zeros, hw]

theorem zeros_resume (h : History) (t : Node) (signal : Bool) (hw : s.waiter i = some w) (a : FutexAddr) :
    (record s (.resume i signal) t h).zeros a = (decide (w.addr = a ∧ w.woken = true)).toNat + h.zeros a := by
  have hres : w.result = .zero ↔ w.woken = true := by
    unfold Waiter.result
    split <;> simp [*]
  simp only [record, zeros, hw, Option.map_some, Option.toList_some, List.cons_append, List.nil_append,
    List.countP_cons, hres]
  cases decide (w.addr = a ∧ w.woken = true) <;> simp [Nat.add_comm]

end History

/-- The marked waiters, by their flags. -/
theorem length_eq_countP (l : List Waiter) :
    l.length = l.countP (·.woken = false) + l.countP (·.woken = true) := by
  rw [List.length_eq_countP_add_countP (fun w : Waiter => decide (w.woken = false))]
  congr 1
  exact List.countP_congr fun w _ => by simp

/-- No step lowers the deficit, and the clean ones keep it. -/
theorem step_deficit {ev : Event} (a : FutexAddr) (hn : Numbered s) (hs : step s ev = some t) (h : History) :
    deficit a (s, h) ≤ deficit a (t, h.record s ev t) ∧
      (deficit a (t, h.record s ev t) = deficit a (s, h) ↔ Clean a s ev) := by
  cases Step.of_step hs with
  | enqueue b expected =>
    have hp : pending ⟨{ id := s.next, addr := b, expected } :: s.table, s.next + 1⟩ a = pending s a := by
      simp [pending]
    exact ⟨by simp [deficit, History.record, hp], iff_of_true (by simp [deficit, History.record, hp]) trivial⟩
  | @compare i w value hw hp =>
    have hp := pending_setPhase s i (w.compared value) a
    exact ⟨by simp [deficit, History.record, hp], iff_of_true (by simp [deficit, History.record, hp]) trivial⟩
  | @leave i w hw hp =>
    have hpend := pending_remove hn hw a
    simp only [deficit, History.zeros_leave h _ hw, Clean, hw, Option.mem_def, Option.some.injEq, forall_eq']
    have hcount : (h.record s (.leave i) (s.remove i)).counted a = h.counted a := rfl
    rw [hcount]
    by_cases hc : w.addr = a ∧ w.woken = true
    · simp only [hc, and_self, decide_true, Bool.toNat_true] at hpend
      refine ⟨by omega, iff_of_false (by omega) fun hclean => ?_⟩
      exact absurd (hclean hc.1) (by rw [hc.2]; exact Bool.noConfusion)
    · simp only [hc, decide_false, Bool.toNat_false] at hpend
      refine ⟨by omega, iff_of_true (by omega) fun haddr => ?_⟩
      exact Bool.eq_false_iff.2 fun hwoken => hc ⟨haddr, hwoken⟩
  | @resume i w signal hw hp hr =>
    have hpend := pending_remove hn hw a
    have hcount : (h.record s (.resume i signal) (s.remove i)).counted a = h.counted a := rfl
    simp only [deficit, History.zeros_resume h _ signal hw, hcount]
    exact ⟨by omega, iff_of_true (by omega) trivial⟩
  | wake b nr =>
    have hzeros : (h.record s (.wake b nr) (s.uckFutexWakeLocal b nr)).zeros a = h.zeros a := rfl
    by_cases hb : b = a
    · subst hb
      have hlen := length_eq_countP (s.marked b nr)
      have hclean : Clean b s (.wake b nr) ↔ (s.marked b nr).countP (·.woken = true) = 0 := by
        simp [Clean, List.countP_eq_zero]
      simp only [deficit, hzeros, History.counted_wake_self, pending_wake_self, hclean]
      omega
    · have hclean : Clean a s (.wake b nr) := fun h => absurd h hb
      have hsame : deficit a (s.uckFutexWakeLocal b nr, h.record s (.wake b nr) (s.uckFutexWakeLocal b nr)) =
          deficit a (s, h) := by
        simp only [deficit, hzeros, History.counted_wake_ne h s _ hb, pending_wake_ne s hb]
      exact ⟨hsame.ge, iff_of_true hsame hclean⟩

/-! ## Whom the wakes marked -/

/-- What clean steps keep. -/
structure Tracked (a : FutexAddr) (s : Node) (h : History) : Prop where
  nodup : (h.marks a).Nodup
  old : ∀ i ∈ h.marks a, i < s.next
  /-- A marked waiter has returned zero, or is on its way out. -/
  settled : ∀ i ∈ h.marks a, ⟨i, a, .zero⟩ ∈ h.returns ∨ ∃ w ∈ s.table, w.id = i ∧ w.addr = a ∧ w.woken = true
  flagged : ∀ w ∈ s.table, w.id ∈ h.marks a → w.woken = true
  /-- A wake of one that finds somebody asleep marks one. -/
  single : ∀ k ∈ h.wakesOf a, k.nr = 1 → 0 < k.waiting → k.marked.length = 1

namespace Tracked

/-- A waiter dequeues itself. -/
theorem remove (ht : Tracked a s h) (hn : Numbered s) (hw : s.waiter i = some w) {x : Return}
    (hx : w.addr = a → w.woken = true → x = ⟨i, a, .zero⟩) :
    Tracked a (s.remove i) { h with returns := x :: h.returns } where
  nodup := ht.nodup
  old := ht.old
  settled j hj := by
    obtain ⟨hmem, rfl⟩ := mem_of_waiter hw
    obtain hr | ⟨v, hv, rfl, haddr, hwoken⟩ := ht.settled j hj
    · exact .inl (List.mem_cons_of_mem _ hr)
    · by_cases hid : v.id = w.id
      · obtain rfl := hn.eq_of_id hv hmem hid
        exact .inl (hx haddr hwoken ▸ List.mem_cons_self)
      · exact .inr ⟨v, List.mem_filter.2 ⟨hv, by simpa using hid⟩, rfl, haddr, hwoken⟩
  flagged v hv := ht.flagged v (List.mem_filter.1 hv).1
  single := ht.single

theorem setPhase (ht : Tracked a s h) (i : Nat) (p : Phase) : Tracked a (s.setPhase i p) h where
  nodup := ht.nodup
  old := ht.old
  settled j hj := by
    refine (ht.settled j hj).imp_right ?_
    rintro ⟨w, hw, rfl, haddr, hwoken⟩
    refine ⟨_, List.mem_map_of_mem hw, ?_⟩
    split
    · exact ⟨rfl, haddr, hwoken⟩
    · exact ⟨rfl, haddr, hwoken⟩
  flagged v hv := by
    obtain ⟨w, hw, rfl⟩ := List.mem_map.1 hv
    have hflag := ht.flagged w hw
    split
    · exact hflag
    · exact hflag
  single := ht.single

/-- What is on its way out stays so in a wake. -/
theorem settled_wake (ht : Tracked a s h) (b : FutexAddr) (nr : UInt32) {j : Nat} (hj : j ∈ h.marks a) :
    ⟨j, a, .zero⟩ ∈ h.returns ∨
      ∃ w ∈ (s.uckFutexWakeLocal b nr).table, w.id = j ∧ w.addr = a ∧ w.woken = true := by
  refine (ht.settled j hj).imp_right ?_
  rintro ⟨w, hw, rfl, haddr, hwoken⟩
  obtain hw | hw := mem_table_of_wake hw b nr
  · exact ⟨w, hw, rfl, haddr, hwoken⟩
  · exact ⟨w.wake, hw, rfl, haddr, rfl⟩

theorem wake_ne (ht : Tracked a s h) (hne : b ≠ a) (nr : UInt32) :
    Tracked a (s.uckFutexWakeLocal b nr) (h.record s (.wake b nr) t) := by
  have hwakes : (h.record s (.wake b nr) t).wakesOf a = h.wakesOf a := by
    simp [History.record, History.wakesOf, hne]
  have hmarks : (h.record s (.wake b nr) t).marks a = h.marks a := by rw [History.marks, hwakes, History.marks]
  constructor
  · rw [hmarks]
    exact ht.nodup
  · rw [hmarks]
    exact ht.old
  · rw [hmarks]
    exact fun j hj => ht.settled_wake b nr hj
  · intro w hw
    rw [hmarks]
    obtain hw | ⟨v, -, rfl⟩ := mem_wake_table hw
    · exact ht.flagged w hw
    · exact fun _ => rfl
  · rw [hwakes]
    exact ht.single

/-- A wake that marks nobody twice. -/
theorem wake_self (ht : Tracked a s h) (hn : Numbered s) (hc : ∀ w ∈ s.marked a nr, w.woken = false) :
    Tracked a (s.uckFutexWakeLocal a nr) (h.record s (.wake a nr) t) := by
  have hmarks : (h.record s (.wake a nr) t).marks a = (s.marked a nr).map (·.id) ++ h.marks a := by
    simp [History.record, History.marks, History.wakesOf]
  have hsub := marked_sublist s a nr
  constructor
  · rw [hmarks]
    refine (hn.nodup.sublist (hsub.map _)).append ht.nodup fun j hj hold => ?_
    -- a waiter that was marked before has its flag
    obtain ⟨w, hw, rfl⟩ := List.mem_map.1 hj
    exact absurd (ht.flagged w (hsub.subset hw) hold) (by rw [hc w hw]; exact Bool.noConfusion)
  · rw [hmarks]
    intro j hj
    obtain hj | hj := List.mem_append.1 hj
    · exact hn.old j ((hsub.map _).subset hj)
    · exact ht.old j hj
  · rw [hmarks]
    intro j hj
    obtain hj | hj := List.mem_append.1 hj
    · obtain ⟨w, hw, rfl⟩ := List.mem_map.1 hj
      exact .inr ⟨w.wake, wake_mem_table hw, rfl, (addr_of_mem_marked hw : w.addr = a), rfl⟩
    · exact ht.settled_wake a nr hj
  · intro w hw hid
    rw [hmarks] at hid
    obtain hold | ⟨v, -, rfl⟩ := mem_wake_table hw
    · obtain hid | hid := List.mem_append.1 hid
      · -- the waiter with this number is the one that was marked
        obtain ⟨v, hv, hvw⟩ := List.mem_map.1 hid
        have hn' : Numbered (s.uckFutexWakeLocal a nr) := hn.of_ids_eq (ids_wake s a nr) rfl
        have heq : w = v.wake := hn'.eq_of_id hw (wake_mem_table hv) hvw.symm
        rw [heq]
        rfl
      · exact ht.flagged w hold hid
    · rfl
  · intro k hk
    have hk' : k ∈ h.wakesOf a ∨ k = ⟨a, nr, s.table.countP fun w => w.addr = a ∧ w.woken = false, s.marked a nr⟩ := by
      simpa [History.record, History.wakesOf, or_comm] using hk
    obtain hk | rfl := hk'
    · exact ht.single k hk
    · intro hnr hwait
      have hle : s.table.countP (fun w => w.addr = a ∧ w.woken = false) ≤ s.table.countP (·.addr = a) :=
        List.countP_mono_left fun w _ h => by simp_all
      simp only at hnr hwait
      rw [length_marked, hnr]
      simp only [UInt32.toNat_one]
      omega

theorem step {ev : Event} (ht : Tracked a s h) (hn : Numbered s) (hc : Clean a s ev) (hs : step s ev = some t) :
    Tracked a t (h.record s ev t) := by
  cases Step.of_step hs with
  | enqueue b expected =>
    refine ⟨ht.nodup, fun j hj => Nat.lt_succ_of_lt (ht.old j hj), fun j hj => ?_, fun w hw hid => ?_, ht.single⟩
    · refine (ht.settled j hj).imp_right ?_
      rintro ⟨w, hw, hrest⟩
      exact ⟨w, List.mem_cons_of_mem _ hw, hrest⟩
    · obtain rfl | hw := List.mem_cons.1 hw
      · exact absurd (ht.old _ hid) (Nat.lt_irrefl _)
      · exact ht.flagged w hw hid
  | compare value hw hp => exact ht.setPhase _ _
  | @leave i w hw hp =>
    simp only [History.record, hw, Option.map_some, Option.toList_some, List.cons_append, List.nil_append]
    refine ht.remove hn hw fun haddr hwoken => ?_
    exact absurd (hc w hw haddr) (by rw [hwoken]; exact Bool.noConfusion)
  | @resume i w signal hw hp hr =>
    simp only [History.record, hw, Option.map_some, Option.toList_some, List.cons_append, List.nil_append]
    refine ht.remove hn hw fun haddr hwoken => ?_
    rw [haddr, Waiter.result, if_pos hwoken]
  | wake b nr =>
    by_cases hb : b = a
    · subst hb
      exact ht.wake_self hn (hc rfl)
    · exact ht.wake_ne hb nr

/-- Once no waiter of the address is left, all is settled. -/
theorem conserved (ht : Tracked a s h) (hend : ∀ w ∈ s.table, w.addr ≠ a) (htotal : h.counted a = h.zeros a) :
    h.Conserved a where
  total := htotal
  success i hi := by
    obtain hr | ⟨w, hw, -, haddr, -⟩ := ht.settled i hi
    · exact hr
    · exact absurd haddr (hend w hw)
  different ks hks hone := by
    refine ⟨ht.nodup.sublist (hks.flatMap _), ?_⟩
    have hlen : ∀ k ∈ ks, (k.marked.map (·.id)).length = 1 := by
      intro k hk
      rw [List.length_map]
      exact ht.single k (hks.subset hk) (hone k hk).1 (hone k hk).2
    rw [List.length_flatMap, List.map_congr_left hlen, List.map_const', List.sum_replicate_nat, Nat.mul_one]

end Tracked

/-- **Wakes are conserved** exactly in the runs of clean steps: once all waits on the address have returned, the counts
of its wakes add up to the waits that returned zero, every waiter that was counted is one of them, and wakes of one that
found somebody asleep marked different waiters. -/
theorem wakes_conserved_iff (a : FutexAddr) (es : List Event) {p : Node × History}
    (hr : run (observe step History.record) (Node.init, {}) es = some p) (hend : ∀ w ∈ p.1.table, w.addr ≠ a) :
    p.2.Conserved a ↔ EachStep step (Clean a) Node.init es := by
  have hinit : Numbered Node.init := ⟨List.nodup_nil, nofun⟩
  -- at the end the deficit is the difference of the two sums
  have hpend : pending p.1 a = 0 := by simpa [pending, List.countP_eq_zero] using fun w hw h => absurd h (hend w hw)
  have hrun := eachStep_iff_of_run (G := fun q ev => Clean a q.1 ev) (m := deficit a) (fun q => Numbered q.1)
    (fun q ev u hn hq => ?_) hinit hr
  · rw [eachStep_observe] at hrun
    have htotal : p.2.counted a = p.2.zeros a ↔ deficit a p = deficit a (Node.init, {}) := by
      have h0 : deficit a (Node.init, {}) = 0 := rfl
      rw [h0, deficit, hpend]
      omega
    rw [← hrun.2, ← htotal]
    refine ⟨fun hc => hc.total, fun ht => ?_⟩
    have hclean := hrun.2.1 (htotal.1 ht)
    have hall := Always.of_eachStep (P := fun q => Tracked a q.1 q.2) (fun q => Numbered q.1 ∧ Tracked a q.1 q.2)
      (fun q ev u hq hc hs => ?_) (fun _ hq => hq.2) ⟨hinit, ?_⟩ ((eachStep_observe History.record {}).2 hclean)
    · exact (hall.last hr).conserved hend ht
    · obtain ⟨hs, hh⟩ := observe_eq_some hs
      rw [hh]
      exact ⟨hq.1.step hs, hq.2.step hq.1 hc hs⟩
    · exact ⟨List.nodup_nil, nofun, nofun, nofun, nofun⟩
  · obtain ⟨hs, hh⟩ := observe_eq_some hq
    obtain ⟨u, h⟩ := u
    change h = History.record q.1 ev u q.2 at hh
    subst hh
    exact ⟨hn.step hs, step_deficit a hn hs q.2⟩

/-- One wait that sleeps and is woken. -/
theorem one_wait_conserved :
    History.Conserved ⟨1, 0⟩
      ⟨[⟨⟨1, 0⟩, 1, 1, [{ id := 0, addr := ⟨1, 0⟩, expected := 5, phase := .asleep }]⟩], [⟨0, ⟨1, 0⟩, .zero⟩]⟩ :=
  (wakes_conserved_iff ⟨1, 0⟩ [.enqueue ⟨1, 0⟩ 5, .compare 0 (some 5), .wake ⟨1, 0⟩ 1, .resume 0 false]
    (p := (⟨[], 1⟩, _)) (by decide) (by decide)).2 (by decide)

/-- Of two waiters the newer is woken by both of two wakes of one, and a third that leaves because of the value is
counted: the wakes return three, and one wait returns zero. -/
theorem wake_counted_twice :
    (run (observe step History.record) (Node.init, {})
      [.enqueue ⟨1, 0⟩ 5, .compare 0 (some 5), .enqueue ⟨1, 0⟩ 5, .compare 1 (some 5), .wake ⟨1, 0⟩ 1, .wake ⟨1, 0⟩ 1,
        .resume 1 false, .enqueue ⟨1, 0⟩ 6, .compare 2 (some 5), .wake ⟨1, 0⟩ 1, .leave 2, .resume 0 true]).map
        (fun p => (p.1.table, p.2.counted ⟨1, 0⟩, p.2.zeros ⟨1, 0⟩)) = some ([], 3, 1) := by
  decide

end UckSmp.Futex
