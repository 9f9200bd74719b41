import Mathlib.Algebra.Ring.Nat
import UckSmp.Membership.Table

/-!
# The epoch counts the losses

The failure detector raises `cluster_epoch` for an entry that it takes from alive to dead. `uck_handle_node_leave`
raises it for every message it handles, whether the sender is in the table and alive or not.

* `step_losses`: what a step does to the epoch and to the number of losses.
* `epoch_counts_losses_iff`: the epoch is one more than the number of losses exactly in the runs in which only nodes
  leave that are alive.
-/

namespace UckSmp.Membership

open Lib.Transition

variable {interval : UInt64} {s t : Table} {ev : Event}

/-! ## Statement -/

/-- The entries that are alive in the first table and not in the second. -/
def losses (s t : Table) : Nat := (s.nodes.zip t.nodes).countP fun p => p.1.alive && !p.2.alive

/-- The losses so far, after one more step. -/
def countLosses (s : Table) (_ : Event) (t : Table) (n : Nat) : Nat := n + losses s t

/-- Only nodes that are alive leave. -/
def LeavesAlive (s : Table) : Event → Prop
  | .message m admitted _ => s.Dispatches m admitted → m.body = .leave → (s.entryOf m.srcNode).any (·.alive) = true
  | .addNode _ => True
  | .check _ _ => True

instance (s : Table) : DecidablePred (LeavesAlive s)
  | .message m admitted _ => inferInstanceAs (Decidable (s.Dispatches m admitted → m.body = .leave → _ = true))
  | .addNode _ => .isTrue trivial
  | .check _ _ => .isTrue trivial

/-! ## Counting -/

section Zip

variable {α : Type*} {p : α × α → Bool}

theorem countP_zip_append (hp : ∀ x, p (x, x) = false) (l r : List α) : (l.zip (l ++ r)).countP p = 0 := by
  induction l with
  | nil => simp
  | cons x l ih => simp [hp, ih]

/-- Of a list and the list with one element changed, only that element can differ. -/
theorem countP_zip_modify (hp : ∀ x, p (x, x) = false) {l : List α} {i : Nat} {x : α} (hx : l[i]? = some x)
    (f : α → α) : (l.zip (l.modify i f)).countP p = (p (x, f x)).toNat := by
  induction l generalizing i with
  | nil => simp at hx
  | cons y l ih =>
    cases i with
    | zero =>
      obtain rfl : y = x := by simpa using hx
      have hrest := countP_zip_append hp l []
      rw [List.append_nil] at hrest
      rw [List.modify_zero_cons, List.zip_cons_cons, List.countP_cons, hrest]
      cases p (y, f y) <;> rfl
    | succ i =>
      rw [List.modify_succ_cons, List.zip_cons_cons, List.countP_cons, hp, ih (by simpa using hx)]
      rfl

end Zip

theorem losses_of_nodes (h : t.nodes = s.nodes) : losses s t = 0 := by
  have hzip := countP_zip_append (p := fun p : NodeEntry × NodeEntry => p.1.alive && !p.2.alive) (by simp) s.nodes []
  rw [losses, h]
  simpa using hzip

theorem losses_add (x : NodeEntry) : losses s (s.uckAddRemoteNode x) = 0 := by
  unfold Table.uckAddRemoteNode
  split
  · exact countP_zip_append (by simp) _ _
  · exact losses_of_nodes rfl

/-- One entry changes, and the epoch. -/
theorem losses_update {i : Nat} {x : NodeEntry} (hx : s.nodes[i]? = some x) (epoch : UInt32)
    (f : NodeEntry → NodeEntry) :
    losses s ({ s with clusterEpoch := epoch }.update i f) = (x.alive && !(f x).alive).toNat :=
  countP_zip_modify (by simp) hx f

/-- An entry that does not die is no loss. -/
theorem losses_update_of_alive {i : Nat} {f : NodeEntry → NodeEntry} (hf : ∀ x, x.alive = true → (f x).alive = true) :
    losses s (s.update i f) = 0 := by
  cases hx : s.nodes[i]? with
  | none => exact losses_of_nodes (List.modify_eq_self (List.getElem?_eq_none_iff.1 hx))
  | some x =>
    refine (losses_update hx s.clusterEpoch f).trans ?_
    cases ha : x.alive with
    | false => rfl
    | true => simp [hf x ha]

theorem toNat_epoch_succ {e : UInt32} (h : e.toNat < 2 ^ 32 - 1) : (e + 1).toNat = e.toNat + 1 := by
  rw [UInt32.toNat_add]
  have h1 : (1 : UInt32).toNat = 1 := rfl
  omega

theorem toNat_epoch_succ_le (e : UInt32) : (e + 1).toNat ≤ e.toNat + 1 := by
  rw [UInt32.toNat_add]
  have h1 : (1 : UInt32).toNat = 1 := rfl
  omega

/-! ## Steps -/

/-- A step leaves the epoch alone and loses no node, or it raises the epoch: for one loss if only nodes leave that are
alive, and else for none. -/
theorem step_losses (h : step interval s ev = some t) :
    (t.clusterEpoch = s.clusterEpoch ∧ losses s t = 0 ∧ LeavesAlive s ev) ∨
      (t.clusterEpoch = s.clusterEpoch + 1 ∧
        (losses s t = 1 ∧ LeavesAlive s ev ∨ losses s t = 0 ∧ ¬ LeavesAlive s ev)) := by
  cases Step.of_step h with
  | addNode id =>
    refine .inl ⟨?_, losses_add _, trivial⟩
    unfold Table.uckAddRemoteNode
    split <;> rfl
  | inTime => exact .inl ⟨rfl, losses_of_nodes rfl, trivial⟩
  | miss => exact .inl ⟨rfl, losses_update_of_alive fun _ ha => ha, trivial⟩
  | death hx ho hl =>
    refine .inr ⟨rfl, .inl ⟨?_, trivial⟩⟩
    rw [losses_update hx, ho.1]
    rfl
  | dropped now hd => exact .inl ⟨rfl, losses_of_nodes rfl, fun hd' => absurd hd' hd⟩
  | ignored now hd hc hl => exact .inl ⟨rfl, losses_of_nodes rfl, fun _ hm => absurd hm hl⟩
  | heartbeat now hd hm hi =>
    exact .inl ⟨rfl, losses_update_of_alive fun _ _ => rfl, fun _ hm' => by rw [hm] at hm'; cases hm'⟩
  | announce now hd hm hst hi =>
    exact .inl ⟨rfl, losses_update_of_alive fun _ _ => rfl, fun _ hm' => by rw [hm] at hm'; cases hm'⟩
  | join now hd hm hst hi =>
    refine .inl ⟨?_, losses_add _, fun _ hm' => by rw [hm] at hm'; cases hm'⟩
    unfold Table.uckAddRemoteNode
    split <;> rfl
  | @leave m i now hd hm hi =>
    obtain ⟨x, hx, hentry⟩ := exists_of_slotOf hi
    refine .inr ⟨rfl, ?_⟩
    rw [losses_update hx]
    cases ha : x.alive with
    | true => exact .inl ⟨rfl, fun _ _ => by rw [hentry]; exact ha⟩
    | false =>
      refine .inr ⟨rfl, fun hg => ?_⟩
      have hany := hg hd hm
      rw [hentry] at hany
      exact absurd (ha.symm.trans hany) Bool.noConfusion
  | @leaveUnknown m now hd hm hi =>
    refine .inr ⟨rfl, .inr ⟨losses_of_nodes rfl, fun hg => ?_⟩⟩
    have hany := hg hd hm
    rw [Table.entryOf, hi] at hany
    cases hany

/-! ## Runs -/

/-- **The epoch counts the losses**, along a run of fewer than `2 ^ 32 - 1` events, exactly if only nodes leave that are
alive. -/
theorem epoch_counts_losses_iff (interval : UInt64) (es : List Event) (hes : es.length < 2 ^ 32 - 1) :
    Always (observe (step interval) countLosses) (fun p => p.1.clusterEpoch.toNat = 1 + p.2) (init, 0) es ↔
      EachStep (step interval) LeavesAlive init es := by
  have hbound : EachStep (step interval) (fun s _ => s.clusterEpoch.toNat < 2 ^ 32 - 1) init es := by
    refine .of_measure (m := fun s : Table => s.clusterEpoch.toNat) (fun s e t hs => ?_) ?_
    · rcases step_losses hs with ⟨he, -⟩ | ⟨he, -⟩
      · rw [he]
        exact Nat.le_succ _
      · rw [he]
        exact toNat_epoch_succ_le _
    · have h1 : init.clusterEpoch.toNat = 1 := rfl
      omega
  rw [← eachStep_observe countLosses 0]
  refine always_iff_of_inv (fun p => p.1.clusterEpoch.toNat = 1 + p.2) (fun _ h => h) (fun p e q hp hb hq => ?_)
    (fun p e hs => ?_) rfl ((eachStep_observe countLosses 0).2 hbound)
  · obtain ⟨hs, hn⟩ := observe_eq_some hq
    have hsucc := toNat_epoch_succ hb
    rw [hn, countLosses]
    rcases step_losses hs with ⟨he, hl, hg⟩ | ⟨he, ⟨hl, hg⟩ | ⟨hl, hg⟩⟩
    · rw [he, hl]
      exact ⟨fun _ => by omega, fun _ => hg⟩
    · rw [he, hl]
      exact ⟨fun _ => by omega, fun _ => hg⟩
    · rw [he, hl]
      exact ⟨fun hg' => absurd hg' hg, fun h => by omega⟩
  · cases e <;> cases hs

/-- A node announces itself and falls silent. -/
theorem silent_node_counted :
    (∃ s, run (step 500) init [.message ⟨7, 0, .announce 7 0, 1⟩ true 0, .check 0 501, .check 0 1002, .check 0 1503] =
      some s ∧ s.clusterEpoch = 2) ∧
    Always (observe (step 500) countLosses) (fun p => p.1.clusterEpoch.toNat = 1 + p.2) (init, 0)
      [.message ⟨7, 0, .announce 7 0, 1⟩ true 0, .check 0 501, .check 0 1002, .check 0 1503] :=
  ⟨⟨_, rfl, rfl⟩, (epoch_counts_losses_iff 500 _ (by decide)).2 (by decide)⟩

/-- A node that nobody knows leaves: the epoch is 2, and no entry has changed. -/
theorem unknown_node_raises_epoch :
    run (observe (step 500) countLosses) (init, 0) [.message ⟨9, 0, .leave, 1⟩ true 0] = some (⟨[], 2⟩, 0) ∧
    ¬ Always (observe (step 500) countLosses) (fun p => p.1.clusterEpoch.toNat = 1 + p.2) (init, 0)
      [.message ⟨9, 0, .leave, 1⟩ true 0] := by
  refine ⟨by decide, fun h => ?_⟩
  have hlast := h.last (t := (⟨[], 2⟩, 0)) (by decide)
  exact absurd hlast (by decide)

end UckSmp.Membership
