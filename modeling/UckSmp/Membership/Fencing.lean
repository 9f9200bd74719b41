import UckSmp.Membership.Table

/-!
# Fencing

A node that was declared dead, or left, is fenced at the epoch that its loss raised the cluster to. The epoch checks of
`uck_handle_client` and `uck_handle_node_announce` let epoch 0 through, which is what every sender writes, and
`uck_handle_heartbeat` does not look at epochs.

* `step_fenced`: fenced entries are dead, at an epoch that the cluster has reached, as long as the epoch does not wrap.
* `fencing_of_stamped`: one step.
* `fencing`: whole runs.
-/

namespace UckSmp.Membership

open Lib.Transition

variable {interval : UInt64} {s t : Table}

/-- What fencing asks of a step. A fenced entry becomes alive only by an accepted announcement of its node with the
epoch of the fence or a later one, and no message of a fenced node that was sent before that epoch is dispatched. -/
def Fencing (interval : UInt64) (s : Table) (ev : Event) : Prop :=
  (∀ (i : Nat) (x y : NodeEntry) (e : UInt32) (t : Table), s.nodes[i]? = some x → x.fencedAt = some e →
    step interval s ev = some t → t.nodes[i]? = some y → y.alive = true →
      ∃ m now epoch, ev = .message m true now ∧ m.body = .announce x.nodeId epoch ∧
      s.Dispatches m true ∧ ¬ s.Stale epoch ∧ e ≤ epoch) ∧
  (∀ m admitted now, ev = .message m admitted now → s.Dispatches m admitted →
    ∀ x ∈ s.nodes, x.nodeId = m.srcNode → ∀ e, x.fencedAt = some e → e ≤ m.sentEpoch)

/-- What a payload that reaches its handler may be: not a heartbeat of a fenced node, nor an announcement of one
without an epoch, nor a leave in the last epoch before the counter wraps. -/
def Table.Admits (s : Table) : Body → Prop
  | .heartbeat id hmacOk => hmacOk = true → ∀ x ∈ s.entryOf id, x.fencedAt = none
  | .announce id epoch => ∀ x ∈ s.entryOf id, x.fencedAt ≠ none → epoch ≠ 0
  | .leave => s.clusterEpoch + 1 ≠ 0
  | .other => True

instance (s : Table) : DecidablePred s.Admits
  | .heartbeat id hmacOk => inferInstanceAs (Decidable (hmacOk = true → ∀ x ∈ s.entryOf id, x.fencedAt = none))
  | .announce id epoch => inferInstanceAs (Decidable (∀ x ∈ s.entryOf id, x.fencedAt ≠ none → epoch ≠ 0))
  | .leave => inferInstanceAs (Decidable (s.clusterEpoch + 1 ≠ 0))
  | .other => inferInstanceAs (Decidable True)

/-- The messages of fenced nodes are stamped with the epoch of their sending, which is not 0, and what is dispatched is
admitted; no node is lost in the last epoch. -/
def Stamped (interval : UInt64) (s : Table) : Event → Prop
  | .addNode _ => True
  | .check i now => ∀ x ∈ s.nodes[i]?, Table.Overdue interval now x → Table.Lost x → s.clusterEpoch + 1 ≠ 0
  | .message m admitted _ =>
    (∀ x ∈ s.nodes, x.nodeId = m.srcNode → x.fencedAt ≠ none → m.epoch = m.sentEpoch ∧ m.epoch ≠ 0) ∧
    (s.Dispatches m admitted → s.Admits m.body)

instance (interval : UInt64) (s : Table) : DecidablePred (Stamped interval s)
  | .addNode _ => inferInstanceAs (Decidable True)
  | .check i now => inferInstanceAs (Decidable (∀ x ∈ s.nodes[i]?, Table.Overdue interval now x → Table.Lost x → _))
  | .message m admitted _ =>
    inferInstanceAs (Decidable ((∀ x ∈ s.nodes, x.nodeId = m.srcNode → _) ∧ (s.Dispatches m admitted → _)))

/-! ## The invariant -/

/-- Fenced entries are dead, and the epoch of their fence has been reached. -/
def Fenced (s : Table) : Prop :=
  ∀ (i : Nat) (x : NodeEntry) (e : UInt32), s.nodes[i]? = some x → x.fencedAt = some e →
    x.alive = false ∧ e ≤ s.clusterEpoch

theorem init_fenced : Fenced init := fun i x e h => by simp [init] at h

theorem le_succ_of_ne_zero {a b : UInt32} (h : a ≤ b) (hb : b + 1 ≠ 0) : a ≤ b + 1 := by
  have hne : (b + 1).toNat ≠ 0 := fun h0 => hb (UInt32.toNat_inj.1 h0)
  rw [UInt32.toNat_add] at hne
  rw [UInt32.le_iff_toNat_le] at h ⊢
  rw [UInt32.toNat_add]
  have hlt := b.toNat_lt
  have h1 : (1 : UInt32).toNat = 1 := rfl
  omega

/-- The epoch goes on. -/
theorem Fenced.raise (h : Fenced s) (hw : s.clusterEpoch + 1 ≠ 0) :
    Fenced { s with clusterEpoch := s.clusterEpoch + 1 } :=
  fun i x e hx he => ⟨(h i x e hx he).1, le_succ_of_ne_zero (h i x e hx he).2 hw⟩

/-- An entry changes into one that is not fenced, or fenced properly. -/
theorem Fenced.update (h : Fenced s) {i : Nat} {f : NodeEntry → NodeEntry}
    (hf : ∀ x e, s.nodes[i]? = some x → (f x).fencedAt = some e → (f x).alive = false ∧ e ≤ s.clusterEpoch) :
    Fenced (s.update i f) := by
  intro j x e hx he
  rw [getElem?_update] at hx
  split at hx
  · rename_i hij
    subst hij
    obtain ⟨y, hy, rfl⟩ := Option.map_eq_some_iff.1 hx
    exact hf y e hy he
  · exact h j x e hx he

theorem Fenced.add (h : Fenced s) {x : NodeEntry} (hx : x.fencedAt = none) : Fenced (s.uckAddRemoteNode x) := by
  unfold Table.uckAddRemoteNode
  split
  · intro j y e hy he
    rcases List.mem_append.1 (List.mem_of_getElem? hy) with hm | hm
    · obtain ⟨k, hk⟩ := List.mem_iff_getElem?.1 hm
      exact h k y e hk he
    · rw [List.mem_singleton.1 hm, hx] at he
      cases he
  · exact h

/-- The loss of a node raises the epoch and fences the node's entry there. -/
theorem Fenced.lose (h : Fenced s) (hw : s.clusterEpoch + 1 ≠ 0) {i : Nat} {f : NodeEntry → NodeEntry}
    (hf : ∀ x, (f x).alive = false ∧ (f x).fencedAt = some (s.clusterEpoch + 1)) :
    Fenced ({ s with clusterEpoch := s.clusterEpoch + 1 }.update i f) := by
  refine (h.raise hw).update fun x e _ he => ⟨(hf x).1, ?_⟩
  obtain rfl := Option.some.inj ((hf x).2.symm.trans he)
  exact UInt32.le_refl _

/-- Every step that meets `Stamped` keeps it: a heartbeat and an announcement lift fences, a loss sets one. -/
theorem step_fenced {ev : Event} (h : Fenced s) (hg : Stamped interval s ev) (hs : step interval s ev = some t) :
    Fenced t := by
  cases Step.of_step hs with
  | addNode id => exact h.add rfl
  | inTime => exact h
  | @miss i now x hx ho hl => exact h.update fun y e hy he => h i y e hy he
  | @death i now x hx ho hl => exact h.lose (hg x hx ho hl) fun _ => ⟨rfl, rfl⟩
  | dropped => exact h
  | ignored => exact h
  | heartbeat => exact h.update fun y e _ he => by cases he
  | announce => exact h.update fun y e _ he => by cases he
  | join => exact h.add rfl
  | leave now hd hm =>
    have hb := hg.2 hd
    rw [hm] at hb
    exact h.lose hb fun _ => ⟨rfl, rfl⟩
  | leaveUnknown now hd hm =>
    have hb := hg.2 hd
    rw [hm] at hb
    exact h.raise hb

/-! ## One step -/

theorem Table.not_stale_iff (s : Table) {epoch : UInt32} (h0 : epoch ≠ 0) :
    ¬ s.Stale epoch ↔ s.clusterEpoch ≤ epoch := by
  simp [Table.Stale, h0]

theorem Table.epoch_le_of_dispatches {m : Message} {admitted : Bool} (hd : s.Dispatches m admitted) (h0 : m.epoch ≠ 0) :
    s.clusterEpoch ≤ m.epoch := by
  simpa [h0] using hd.2

/-- A stamped step respects the fences. -/
theorem fencing_of_stamped {ev : Event} (h : Fenced s) (hg : Stamped interval s ev) : Fencing interval s ev := by
  constructor
  · intro i x y e t hx he hs hy ha
    obtain ⟨hdead, hreached⟩ := h i x e hx he
    obtain ⟨m, now, rfl, hd, hslot, hbody⟩ := step_alive hx hs hy hdead ha
    have hentry : x ∈ s.entryOf x.nodeId := by simp [Table.entryOf, hslot, hx]
    have hb := hg.2 hd
    rcases hbody with hm | ⟨epoch, hm, hst⟩
    · rw [hm] at hb
      rw [hb rfl x hentry] at he
      cases he
    · rw [hm] at hb
      have h0 := hb x hentry (by simp [he])
      exact ⟨m, now, epoch, rfl, hm, hd, hst, UInt32.le_trans hreached ((s.not_stale_iff h0).1 hst)⟩
  · rintro m admitted now rfl hd x hx hsrc e he
    obtain ⟨i, hi⟩ := List.mem_iff_getElem?.1 hx
    obtain ⟨hsent, h0⟩ := hg.1 x hx hsrc (by simp [he])
    rw [← hsent]
    exact UInt32.le_trans (h i x e hi he).2 (Table.epoch_le_of_dispatches hd h0)

/-! ## Runs -/

/-- **Fencing holds along every run in which fenced nodes stamp their messages**, do not come back by heartbeats and
announce themselves with an epoch. -/
theorem fencing (interval : UInt64) (es : List Event) (h : EachStep (step interval) (Stamped interval) init es) :
    EachStep (step interval) (Fencing interval) init es :=
  EachStep.of_inv Fenced (fun _ _ _ hf hg hs => step_fenced hf hg hs) (fun _ _ hf hg => fencing_of_stamped hf hg)
    init_fenced h

/-- Node 7 is added, sends a heartbeat and then none for three intervals. -/
def lostNode : List Event :=
  [.addNode 7, .message ⟨7, 0, .heartbeat 7 true, 1⟩ true 0, .check 0 501, .check 0 1002, .check 0 1503]

/-- The lost node comes back with the epoch of its fence. -/
theorem lost_node_returns :
    run (step 500) init (lostNode ++ [.message ⟨7, 2, .announce 7 2, 2⟩ true 1600]) =
      some ⟨[{ nodeId := 7, lastHeartbeat := 1600, alive := true, missedHeartbeats := 3 }], 2⟩ ∧
    EachStep (step 500) (Fencing 500) init (lostNode ++ [.message ⟨7, 2, .announce 7 2, 2⟩ true 1600]) := by
  refine ⟨by decide, fencing 500 _ ?_⟩
  refine .cons rfl trivial (.cons rfl ?_ (.cons rfl ?_ (.cons rfl ?_ (.cons rfl ?_ (.cons rfl ?_ trivial)))))
  · decide
  · decide
  · decide
  · decide
  · decide

/-- A late heartbeat of the lost node, sent in epoch 1, is dispatched and brings its entry back to life. -/
theorem lost_node_revived :
    ∃ s t x, run (step 500) init lostNode = some s ∧ s.nodes[0]? = some x ∧ x.fencedAt = some 2 ∧
      step 500 s (.message ⟨7, 0, .heartbeat 7 true, 1⟩ true 1600) = some t ∧
      t.nodes = [{ nodeId := 7, lastHeartbeat := 1600, alive := true }] ∧
      ¬ Fencing 500 s (.message ⟨7, 0, .heartbeat 7 true, 1⟩ true 1600) := by
  refine ⟨_, _, _, rfl, rfl, rfl, rfl, by decide, fun h => ?_⟩
  have hlate := h.2 _ _ _ rfl (by decide) _ List.mem_cons_self rfl _ rfl
  exact absurd hlate (by decide)

end UckSmp.Membership
