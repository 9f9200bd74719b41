import UckSmp.Lib.LinkedList
import UckSmp.Lib.StableSort
import UckSmp.Lib.Transition

/-!
# The list of subsystems

`uck_subsys.c`: subsystems are put into a linked list by their priority, taken out again, and told of events in the
order of the list. A node of the list is the head `uck_subsys_list` (`none`) or the `list` field of a subsystem. A loop
over the list that makes more than a given number of rounds has no result.

* `insertLoop_eq`, `notifyLoop_eq`, `exitLoop_eq`: what the loops make of a list.
* `Listed.step`: a call keeps the list in its order.
* `subsys_list_ordered`: the list and the calls of the callbacks after every sequence of calls.
-/

namespace UckSmp.Subsys

open Lib.LinkedList
open Lib.StableSort
open Lib.Transition

/-! ## Code -/

/-- `struct uck_subsystem`; a callback may be `NULL`. -/
structure Subsystem where
  name : Option String
  exit : Bool
  notify : Bool
  priority : Int32
  deriving DecidableEq

/-- `enum uck_event`. -/
inductive Event
  | nodeUp
  | nodeDown
  | nodeSuspect
  | pageFault
  | regionCreate
  | regionDestroy
  | quorumGained
  | quorumLost
  | shutdown
  deriving DecidableEq

abbrev Node := Option Nat

/-- `LIST_HEAD(uck_subsys_list)`. The links of a subsystem are not read before it is in the list. -/
def init : Links Node := ⟨id, id⟩

/-- A call of a `notify` callback. -/
structure Call where
  subsys : Nat
  event : Event
  data : Nat
  deriving DecidableEq

section Code

variable (mem : Nat → Subsystem) (s : Links Node)

/-- The loop of `uck_subsys_register`, from `pos` on. -/
def insertLoop (subsys : Nat) : (rounds : Nat) → (pos : Node) → Option (Links Node)
  | 0, _ => none
  | _ + 1, none => some (s.addTail (some subsys) none)
  | rounds + 1, some pos =>
    if (mem subsys).priority < (mem pos).priority then some (s.addTail (some subsys) (some pos))
    else insertLoop subsys rounds (s.next (some pos))

/-- `uck_subsys_register`, with the value that it returns. -/
def uckSubsysRegister (rounds : Nat) : Option Nat → Option (Int × Links Node)
  | none => some (-22, s)
  | some subsys =>
    if (mem subsys).name = none then some (-22, s)
    else (insertLoop mem s subsys rounds (s.next none)).map fun s' => (0, s')

/-- `uck_subsys_unregister`. -/
def uckSubsysUnregister : Option Nat → Links Node
  | none => s
  | some subsys => s.del (some subsys)

/-- The loop of `uck_subsys_notify_all`. -/
def notifyLoop (event : Event) (data : Nat) : (rounds : Nat) → (pos : Node) → Option (List Call)
  | 0, _ => none
  | _ + 1, none => some []
  | rounds + 1, some pos =>
    (notifyLoop event data rounds (s.next (some pos))).map fun calls =>
      if (mem pos).notify then ⟨pos, event, data⟩ :: calls else calls

/-- `uck_subsys_notify_all`. -/
def uckSubsysNotifyAll (rounds : Nat) (event : Event) (data : Nat) : Option (List Call) :=
  notifyLoop mem s event data rounds (s.next none)

/-- The loop of `uck_subsys_exit`, with the subsystems whose `exit` it calls; the next node is read before the round. -/
def exitLoop (s : Links Node) : (rounds : Nat) → (pos tmp : Node) → Option (List Nat × Links Node)
  | 0, _, _ => none
  | _ + 1, none, _ => some ([], s)
  | rounds + 1, some pos, tmp =>
    let s' := s.del (some pos)
    (exitLoop s' rounds tmp (s'.next tmp)).map fun (calls, t) =>
      (if (mem pos).exit then pos :: calls else calls, t)

/-- `uck_subsys_exit`. -/
def uckSubsysExit (rounds : Nat) : Option (List Nat × Links Node) :=
  exitLoop mem s rounds (s.next none) (s.next (s.next none))

end Code

/-! ## Sequences of calls -/

inductive Ev
  | register (subsys : Option Nat)
  | unregister (subsys : Option Nat)
  | exit
  deriving DecidableEq

variable (mem : Nat → Subsystem)

/-- What a call does to the list. -/
def step (rounds : Nat) (s : Links Node) : Ev → Option (Links Node)
  | .register subsys => (uckSubsysRegister mem s rounds subsys).map Prod.snd
  | .unregister subsys => some (uckSubsysUnregister s subsys)
  | .exit => (uckSubsysExit mem s rounds).map Prod.snd

/-- The subsystems that are registered, in the order of their registrations. A subsystem is not registered twice, and
only a registered one is unregistered. -/
def registered (live : List Nat) : Ev → Option (List Nat)
  | .register none => some live
  | .register (some subsys) =>
    if subsys ∈ live then none else if (mem subsys).name = none then some live else some (live ++ [subsys])
  | .unregister none => some live
  | .unregister (some subsys) => if subsys ∈ live then some (live.erase subsys) else none
  | .exit => some []

def prio (subsys : Nat) : Int := (mem subsys).priority.toInt

variable {mem} {s : Links Node} {l live : List Nat} {rounds : Nat}

/-! ## The loops -/

theorem lt_iff_prio_lt {i j : Nat} : (mem i).priority < (mem j).priority ↔ prio mem i < prio mem j :=
  Int32.lt_iff_toInt_lt

/-- The loop stops at the first subsystem with a greater priority, or at the head. -/
theorem insertLoop_eq {a : Node} (hp : Path s a (l.map some) none) (hrounds : l.length < rounds) (subsys : Nat) :
    insertLoop mem s subsys rounds (s.next a) =
      some (s.addTail (some subsys) (l.dropWhile fun j => ¬ prio mem subsys < prio mem j).head?) := by
  induction l generalizing a rounds with
  | nil =>
    obtain ⟨n, rfl⟩ := Nat.exists_eq_add_of_lt hrounds
    rw [hp.1]
    rfl
  | cons pos l ih =>
    obtain ⟨n, rfl⟩ := Nat.exists_eq_add_of_lt hrounds
    have hlen : l.length < (pos :: l).length + n := Nat.lt_add_right n (Nat.lt_succ_self l.length)
    obtain ⟨hnext, -, hrest⟩ := hp
    rw [hnext, insertLoop, List.dropWhile_cons]
    by_cases hlt : prio mem subsys < prio mem pos
    · rw [if_pos (lt_iff_prio_lt.2 hlt), if_neg (by simpa using hlt)]
      rfl
    · rw [if_neg (mt lt_iff_prio_lt.1 hlt), if_pos (decide_eq_true hlt)]
      exact ih hrest hlen

/-- The callbacks are called in the order of the list. -/
theorem notifyLoop_eq {a : Node} (hp : Path s a (l.map some) none) (hrounds : l.length < rounds) (event : Event)
    (data : Nat) :
    notifyLoop mem s event data rounds (s.next a) =
      some ((l.filter fun i => (mem i).notify).map fun i => ⟨i, event, data⟩) := by
  induction l generalizing a rounds with
  | nil =>
    obtain ⟨n, rfl⟩ := Nat.exists_eq_add_of_lt hrounds
    rw [hp.1]
    rfl
  | cons pos l ih =>
    obtain ⟨n, rfl⟩ := Nat.exists_eq_add_of_lt hrounds
    have hlen : l.length < (pos :: l).length + n := Nat.lt_add_right n (Nat.lt_succ_self l.length)
    obtain ⟨hnext, -, hrest⟩ := hp
    rw [hnext, notifyLoop, ih hrest hlen, Option.map_some, List.filter_cons]
    split <;> rfl

/-- Every subsystem is taken out of the list, in its order. -/
theorem exitLoop_eq (hr : Ring s none (l.map some)) (hrounds : l.length < rounds) :
    ∃ t, exitLoop mem s rounds (s.next none) (s.next (s.next none)) = some (l.filter fun i => (mem i).exit, t) ∧
      Ring t none [] := by
  induction l generalizing s rounds with
  | nil =>
    obtain ⟨n, rfl⟩ := Nat.exists_eq_add_of_lt hrounds
    rw [hr.path.1]
    exact ⟨s, rfl, hr⟩
  | cons pos l ih =>
    obtain ⟨n, rfl⟩ := Nat.exists_eq_add_of_lt hrounds
    have hlen : l.length < (pos :: l).length + n := Nat.lt_add_right n (Nat.lt_succ_self l.length)
    have hdel : Ring (s.del (some pos)) none ([] ++ l.map some) := Ring.del hr
    obtain ⟨t, ht, hempty⟩ := ih hdel hlen
    obtain ⟨hnext, hprev, -⟩ := hr.path
    -- the head leads to the node that was read before the round
    have hhead : (s.del (some pos)).next none = s.next (some pos) := by
      simp only [Links.del, hprev, Function.update_self]
    rw [hhead] at ht
    refine ⟨t, ?_, hempty⟩
    rw [hnext, exitLoop, ht, Option.map_some, List.filter_cons]

/-! ## The order of the list -/

/-- The list holds the registered subsystems by their priorities. -/
structure Listed (mem : Nat → Subsystem) (s : Links Node) (l live : List Nat) : Prop where
  ring : Ring s none (l.map some)
  stable : Stable (prio mem) l live
  nodup : live.Nodup

theorem Listed.init : Listed mem init [] [] :=
  ⟨⟨List.nodup_singleton _, rfl, rfl⟩, Stable.nil, List.nodup_nil⟩

theorem Listed.length_eq (h : Listed mem s l live) : l.length = live.length := h.stable.perm.length_eq

/-- A subsystem that is not in the list is put into it. -/
theorem Listed.register (h : Listed mem s l live) (hrounds : live.length < rounds) {subsys : Nat}
    (hnew : subsys ∉ live) : ∃ t, insertLoop mem s subsys rounds (s.next none) = some t ∧
      Listed mem t (insert (prio mem) subsys l) (live ++ [subsys]) := by
  have hloop := @insertLoop_eq mem s l rounds none h.ring.path (h.length_eq ▸ hrounds) subsys
  refine ⟨_, hloop, ?_, h.stable.insert subsys, ?_⟩
  · have hring := h.ring
    have hnode : some subsys ∉ none :: l.map some := by
      simp [h.stable.perm.mem_iff, hnew]
    rw [insert_eq]
    rw [← List.takeWhile_append_dropWhile (p := fun j => ¬ prio mem subsys < prio mem j) (l := l)] at hring hnode
    cases hafter : l.dropWhile fun j => ¬ prio mem subsys < prio mem j with
    | nil =>
      rw [hafter, List.append_nil] at hring hnode
      rw [List.map_append]
      exact hring.addTail_head hnode
    | cons pos rest =>
      rw [hafter, List.map_append] at hring hnode
      rw [List.map_append]
      exact hring.addTail hnode
  · rw [List.nodup_append_comm]
    exact List.nodup_cons.2 ⟨hnew, h.nodup⟩

/-- A subsystem is taken out of the list. -/
theorem Listed.unregister (h : Listed mem s l live) {subsys : Nat} (hmem : subsys ∈ live) :
    Listed mem (s.del (some subsys)) (l.erase subsys) (live.erase subsys) := by
  refine ⟨?_, h.stable.erase h.nodup subsys, h.nodup.erase subsys⟩
  obtain ⟨l₁, l₂, -, hl, herase⟩ := List.exists_erase_eq (h.stable.perm.mem_iff.2 hmem)
  have hring := h.ring
  rw [hl, List.map_append] at hring
  rw [herase, List.map_append]
  exact hring.del

/-- **A call** ends, and keeps the list in its order. -/
theorem Listed.step (h : Listed mem s l live) (hrounds : live.length < rounds) {e : Ev} {live' : List Nat}
    (hcall : registered mem live e = some live') :
    ∃ t l', Subsys.step mem rounds s e = some t ∧ Listed mem t l' live' ∧ live'.length ≤ live.length + 1 := by
  cases e with
  | register subsys =>
    cases subsys with
    | none =>
      cases hcall
      exact ⟨s, l, rfl, h, Nat.le_succ _⟩
    | some subsys =>
      simp only [registered] at hcall
      by_cases hmem : subsys ∈ live
      · rw [if_pos hmem] at hcall
        cases hcall
      rw [if_neg hmem] at hcall
      by_cases hname : (mem subsys).name = none
      · rw [if_pos hname] at hcall
        cases hcall
        refine ⟨s, l, ?_, h, Nat.le_succ _⟩
        rw [Subsys.step, uckSubsysRegister, if_pos hname, Option.map_some]
      · rw [if_neg hname] at hcall
        cases hcall
        obtain ⟨t, ht, hlisted⟩ := h.register hrounds hmem
        refine ⟨t, _, ?_, hlisted, Nat.le_of_eq List.length_append⟩
        rw [Subsys.step, uckSubsysRegister, if_neg hname, ht, Option.map_some, Option.map_some]
  | unregister subsys =>
    cases subsys with
    | none =>
      cases hcall
      exact ⟨s, l, rfl, h, Nat.le_succ _⟩
    | some subsys =>
      simp only [registered] at hcall
      by_cases hmem : subsys ∈ live
      · rw [if_pos hmem] at hcall
        cases hcall
        exact ⟨_, _, rfl, h.unregister hmem, Nat.le_succ_of_le (List.length_erase_le)⟩
      · rw [if_neg hmem] at hcall
        cases hcall
  | exit =>
    cases hcall
    obtain ⟨t, ht, hempty⟩ := @exitLoop_eq mem s l rounds h.ring (h.length_eq ▸ hrounds)
    refine ⟨t, [], ?_, ⟨hempty, Stable.nil, List.nodup_nil⟩, Nat.zero_le _⟩
    rw [Subsys.step, uckSubsysExit, ht, Option.map_some]

/-- The calls of a sequence end when the loops may make a round for each subsystem and one for the head. -/
theorem Listed.run (h : Listed mem s l live) {es : List Ev} {live' : List Nat}
    (hcalls : run (registered mem) live es = some live') (hrounds : live.length + es.length < rounds) :
    ∃ t l', Lib.Transition.run (Subsys.step mem rounds) s es = some t ∧ Listed mem t l' live' ∧ l'.length < rounds := by
  induction es generalizing s l live with
  | nil =>
    cases hcalls
    exact ⟨s, l, rfl, h, h.length_eq ▸ hrounds⟩
  | cons e es ih =>
    obtain ⟨mid, hmid, hcalls⟩ := Option.bind_eq_some_iff.1 hcalls
    rw [List.length_cons] at hrounds
    have hlt : live.length < rounds := by omega
    obtain ⟨u, m, hu, hlisted, hlen⟩ := h.step hlt hmid
    obtain ⟨t, l', ht, hlisted', hlt⟩ := ih hlisted hcalls (by omega)
    exact ⟨t, l', (run_cons hu es).trans ht, hlisted', hlt⟩

/-- **The list of subsystems** after every sequence of calls: it is a ring of the registered subsystems, each of them
once, by priority and within a priority in the order of the registrations; and `uck_subsys_notify_all` calls the
callbacks that are there in that order, each of them once. -/
theorem subsys_list_ordered {es : List Ev} {live : List Nat} (hcalls : run (registered mem) [] es = some live)
    (hrounds : es.length < rounds) :
    ∃ (s : Links Node) (l : List Nat), run (step mem rounds) init es = some s ∧ Ring s none (l.map some) ∧
      l.Nodup ∧ (∀ i, i ∈ l ↔ i ∈ live) ∧
      l.Pairwise (fun i j => (mem i).priority ≤ (mem j).priority) ∧
      (∀ p, l.filter (fun i => (mem i).priority = p) = live.filter fun i => (mem i).priority = p) ∧
      ∀ event data, uckSubsysNotifyAll mem s rounds event data =
        some ((l.filter fun i => (mem i).notify).map fun i => ⟨i, event, data⟩) := by
  have hsum : ([] : List Nat).length + es.length < rounds := (Nat.zero_add _).trans_lt hrounds
  obtain ⟨s, l, hs, h, hlt⟩ := Listed.init.run hcalls hsum
  refine ⟨s, l, hs, h.ring, h.stable.perm.nodup_iff.2 h.nodup, fun i => h.stable.perm.mem_iff, ?_, ?_, ?_⟩
  · exact h.stable.sorted.imp Int32.le_iff_toInt_le.2
  · intro p
    simpa only [prio, Int32.toInt_inj] using h.stable.same p.toInt
  · intro event data
    exact notifyLoop_eq h.ring.path hlt event data

/-- Two subsystems of priority 10 around one of priority 5, which has no `notify` callback. -/
def three : Nat → Subsystem
  | 1 => ⟨some "heartbeat", false, false, 5⟩
  | _ => ⟨some "balancer", true, true, 10⟩

theorem subsys_list_ordered_three :
    ∃ (s : Links Node) (l : List Nat),
      run (step three 6) init [.register (some 0), .register (some 1), .register (some 3), .register (some 2),
        .unregister (some 3)] = some s ∧
      (∀ i, i ∈ l ↔ i ∈ [0, 1, 2]) ∧ l.filter (fun i => (three i).priority = 10) = [0, 2] ∧
      uckSubsysNotifyAll three s 6 .nodeUp 7 =
        some ((l.filter fun i => (three i).notify).map fun i => ⟨i, .nodeUp, 7⟩) := by
  obtain ⟨s, l, hs, -, -, hmem, -, hsame, hnotify⟩ :=
    @subsys_list_ordered three 6 [.register (some 0), .register (some 1), .register (some 3), .register (some 2),
      .unregister (some 3)] [0, 1, 2] (by decide) (by decide)
  exact ⟨s, l, hs, hmem, hsame 10, hnotify .nodeUp 7⟩

example : (run (step three 4) init [.register (some 2), .register (some 1), .register (some 0)]).bind
    (fun s => uckSubsysNotifyAll three s 4 .nodeUp 7) = some [⟨2, .nodeUp, 7⟩, ⟨0, .nodeUp, 7⟩] := by
  decide

end UckSmp.Subsys
