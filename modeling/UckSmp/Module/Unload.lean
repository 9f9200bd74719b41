import UckSmp.Module.Threads

/-!
# How the threads of the module end

What follows for the listener and for `uck_exit` from the invariant of `UckSmp.Module.Threads`.

* `unraced_of_serial`: calls that are made one after the other do not race.
* `deaf_after_error`: after a failed accept no further connection is accepted.
* `unload_leaves_nothing`: unloading stops the three daemons and releases the listener's socket; only the listener may
  have returned before it is stopped.
-/

namespace UckSmp.Threads

open Lib Lib.Transition UckSmp.Membership

section Runs

variable {s t : State} {e : Event}

/-! ## Calls one after the other -/

/-- A call takes a step only while every other one has not begun, or has returned. -/
def Serial (s : State) : Event → Prop
  | .go i _ => ∀ c ∈ s.calls.eraseIdx i, c.phase = .set ∨ c.phase.isDone = true
  | _ => True

/-- Nobody is in charge while a call is about to create its socket. -/
def Clear (s : State) : Prop := ∀ c ∈ s.calls, c.phase = .create → s.g.listenSock = none

/-- A call that is to create its socket has found no listener. -/
theorem setNodeStep_create {g g' : Globals} {info : NodeInfo} {r : Int} {ph : Phase}
    (hs : setNodeStep g info r ph = some (g', .create)) : g'.listenSock = none := by
  cases ph with
  | check =>
    simp only [setNodeStep, Option.some.injEq, Prod.mk.injEq] at hs
    obtain ⟨rfl, hph⟩ := hs
    split at hph
    · cases hph
    · rename_i hnone
      simpa using hnone
  | create =>
    simp only [setNodeStep] at hs
    split at hs
    · cases hs
    · cases hs
  | bind | listen =>
    obtain ⟨k, -, hs⟩ := Option.map_eq_some_iff.1 hs
    have hph := (Prod.mk.inj hs).2
    split at hph
    · cases hph
    · cases hph
  | spawn =>
    simp only [setNodeStep, Option.some.injEq, Prod.mk.injEq] at hs
    obtain ⟨-, hph⟩ := hs
    split at hph
    · cases hph
    · cases hph
  | undo ret =>
    obtain ⟨k, -, hs⟩ := Option.map_eq_some_iff.1 hs
    cases (Prod.mk.inj hs).2
  | _ => cases hs

theorem Clear.step (h : Clear s) (hinv : Inv s) (hser : Serial s e) (hs : UckSmp.Threads.step s e = some t) :
    Clear t := by
  cases Step.of_step hs with
  | call info hup =>
    intro c hc hcreate
    rcases List.mem_append.1 hc with hc | hc
    · exact h c hc hcreate
    · rw [List.mem_singleton.1 hc] at hcreate
      cases hcreate
  | go hi hstep =>
    rename_i i r c g' ph'
    intro c' hc' hcreate
    obtain ⟨j, hj⟩ := List.mem_iff_getElem?.1 hc'
    by_cases hij : i = j
    · subst hij
      obtain ⟨hlt, -⟩ := List.getElem?_eq_some_iff.1 hi
      have hself : (s.calls.set i { c with phase := ph' })[i]? = some { c with phase := ph' } := by simp [hlt]
      cases hself.symm.trans hj
      obtain rfl : ph' = .create := hcreate
      exact setNodeStep_create hstep
    · -- The other calls have not begun, or have returned.
      rw [List.getElem?_set_ne hij] at hj
      have hother := hser c' (List.mem_eraseIdx_iff_getElem?.2 ⟨j, Ne.symm hij, hj⟩)
      rw [hcreate] at hother
      rcases hother with hother | hother
      · cases hother
      · cases hother
  | turn r ht =>
    rename_i d t
    obtain ⟨running, served, hturn⟩ := daemonTurn_eq (g := s.g) (d := d) (r := r) t
    rw [hturn]
    exact h
  | begin hup hdone => exact h
  | unload hdown hstep =>
    intro c hc hcreate
    cases hinv with
    | up hup _ _ _ => cases hup.symm.trans hdown
    | down _ hdone _ _ =>
      have hdn := hdone c hc
      rw [hcreate] at hdn
      cases hdn

/-- Calls that are made one after the other do not race, whether or not they fail. -/
theorem unraced_of_serial {es : List Event} (h : EachStep UckSmp.Threads.step Serial {} es) :
    EachStep UckSmp.Threads.step Unraced {} es := by
  have hunraced : ∀ (s : State) (e : Event), Clear s → Unraced s e := by
    intro s e hclear
    cases e with
    | go i r => exact fun c hi hcreate _ => hclear c (List.mem_of_getElem? hi) hcreate
    | _ => trivial
  refine EachStep.of_inv (fun s => Inv s ∧ Clear s) ?_ (fun s e hi _ => hunraced s e hi.2) ⟨.init, nofun⟩ h
  rintro s e t ⟨hinv, hclear⟩ hser hs
  exact ⟨hinv.step (hunraced s e hclear) hs, hclear.step hinv hser hs⟩

/-! ## The end of the listener -/

/-- The daemons were started, or the module is unloaded, and no listener is left. -/
structure Deaf (s : State) : Prop where
  silent : ∀ t, (.listener, t) ∉ s.g.running
  started : s.unload = none → ∃ ph : Phase, s.calls.filterMap Call.charge = [ph] ∧ ph.unstarted .listener = false

/-- A daemon other than the listener is started. -/
theorem not_mem_kthreadRun {g : Globals} {d : Daemon} {r : Int} (hd : d ≠ .listener)
    (h : ∀ t, (.listener, t) ∉ g.running) (t : Tid) : (.listener, t) ∉ (g.kthreadRun d r).running := by
  unfold Globals.kthreadRun
  split
  · exact h t
  · intro hmem
    rcases List.mem_cons.1 hmem with heq | hmem
    · exact hd (congrArg Prod.fst heq).symm
    · exact h t hmem

@[simp] theorem kthreadRun_served {g : Globals} {d : Daemon} {r : Int} : (g.kthreadRun d r).served = g.served := by
  unfold Globals.kthreadRun
  split <;> rfl

@[simp] theorem kthreadStop_served {g : Globals} {d : Daemon} : (g.kthreadStop d).served = g.served := by
  unfold Globals.kthreadStop
  split
  · rfl
  · split <;> rfl

theorem not_mem_kthreadStop {g : Globals} {d : Daemon} (h : ∀ t, (.listener, t) ∉ g.running) (t : Tid) :
    (.listener, t) ∉ (g.kthreadStop d).running := by
  unfold Globals.kthreadStop
  split
  · exact h t
  · split
    · exact fun hmem => h t (List.mem_of_mem_erase hmem)
    · exact h t

/-- A failed accept, in a state where the fields lead to the threads. -/
theorem Inv.deaf (h : Inv s) {t : Tid} {r : Int} (hr : r < 0) (ht : (.listener, t) ∈ s.g.running) :
    Deaf { s with g := daemonTurn s.g .listener t r } := by
  have hgone : daemonTurn s.g .listener t r = { s.g with running := s.g.running.erase (.listener, t) } :=
    if_pos (.inr ⟨rfl, hr⟩)
  refine ⟨?_, ?_⟩
  · intro t' ht'
    rw [hgone] at ht'
    obtain ⟨hne, hmem⟩ := (h.kept.nodup.mem_erase_iff).1 ht'
    have hsame : t = t' := Option.some.inj ((h.kept.tracked _ ht).symm.trans (h.kept.tracked _ hmem))
    exact hne (by rw [hsame])
  · intro hup
    cases h with
    | @up o _ ho hg hf =>
      have hthread := hg.tracked _ ht
      cases o with
      | none =>
        rw [hf.2.2] at hthread
        cases hthread
      | some ph =>
        refine ⟨ph, ho, ?_⟩
        by_contra hun
        cases (hf.unstarted .listener (by simpa using hun)).symm.trans hthread
    | down hdown _ _ _ =>
      cases hdown.symm.trans hup

/-- A step of a call, after the listener was started. -/
theorem setNodeStep_deaf {g g' : Globals} {info : NodeInfo} {r : Int} {ph ph' ph₀ : Phase} (hf : Fits g (some ph₀))
    (h₀ : ph₀.unstarted .listener = false) (ho : ph.engaged = true → some ph₀ = some ph)
    (hu : ph = .create → 0 ≤ r → g.listenSock = none) (hs : setNodeStep g info r ph = some (g', ph'))
    (h : ∀ t, (.listener, t) ∉ g.running) :
    (∀ t, (.listener, t) ∉ g'.running) ∧ g'.served = g.served ∧
      ∃ ph₁ : Phase, ph.next ph' (some ph₀) = some ph₁ ∧ ph₁.unstarted .listener = false := by
  cases ph with
  | set =>
    cases hs
    exact ⟨h, rfl, ph₀, rfl, h₀⟩
  | check =>
    cases hs
    refine ⟨h, rfl, ph₀, ?_, h₀⟩
    split
    · rfl
    · rfl
  | create =>
    simp only [setNodeStep] at hs
    split at hs
    · rename_i hr
      cases hs
      refine ⟨h, rfl, ph₀, ?_, h₀⟩
      rw [Phase.next, engaged_done_of_neg hr]
      rfl
    · rename_i hr
      obtain ⟨k, -, hk, -⟩ := hf.sock
      cases hk.symm.trans (hu rfl (by omega))
  | beat =>
    cases hs
    exact ⟨not_mem_kthreadRun (by simp) h, kthreadRun_served, _, rfl, rfl⟩
  | balance =>
    cases hs
    exact ⟨not_mem_kthreadRun (by simp) h, kthreadRun_served, _, rfl, rfl⟩
  | done ret => cases hs
  | _ =>
    -- In the other phases the listener is not yet started.
    cases ho rfl
    cases h₀

theorem unloadStep_deaf {g g' : Globals} {u u' : Unload} (hs : unloadStep g u = some (g', u'))
    (h : ∀ t, (.listener, t) ∉ g.running) : (∀ t, (.listener, t) ∉ g'.running) ∧ g'.served = g.served := by
  cases u with
  | loadbal | heartbeat | join =>
    cases hs
    exact ⟨not_mem_kthreadStop h, kthreadStop_served⟩
  | net | release | null =>
    cases hs
    exact ⟨h, rfl⟩
  | finished => cases hs

theorem daemonTurn_deaf {g : Globals} {d : Daemon} {t : Tid} {r : Int} (hd : d ≠ .listener)
    (h : ∀ t, (.listener, t) ∉ g.running) :
    (∀ t', (.listener, t') ∉ (daemonTurn g d t r).running) ∧ (daemonTurn g d t r).served = g.served := by
  unfold daemonTurn
  split
  · exact ⟨fun t' hmem => h t' (List.mem_of_mem_erase hmem), rfl⟩
  · exact ⟨h, rfl⟩

/-- **No listener comes back**: a step serves nobody. -/
theorem Deaf.step (h : Deaf s) (hinv : Inv s) (hu : Unraced s e) (hs : UckSmp.Threads.step s e = some t) :
    Deaf t ∧ t.g.served = s.g.served := by
  cases Step.of_step hs with
  | call info hup =>
    obtain ⟨ph, hph, hun⟩ := h.started hup
    exact ⟨⟨h.silent, fun _ => ⟨ph, by simpa [Call.charge, Phase.engaged] using hph, hun⟩⟩, rfl⟩
  | go hi hstep =>
    rename_i i r c g' ph'
    cases hinv with
    | @up o hup ho hg hf =>
      obtain ⟨ph₀, hph₀, hun⟩ := h.started hup
      have heq : o.toList = [ph₀] := ho.symm.trans hph₀
      obtain rfl : o = some ph₀ := by
        cases o with
        | none => cases heq
        | some ph => exact congrArg some (List.singleton_inj.1 heq)
      have hguard : c.phase = .create → 0 ≤ r → s.g.listenSock = none := hu c hi
      obtain ⟨hsilent, hserved, ph₁, hnext, hun₁⟩ :=
        setNodeStep_deaf hf hun (fun hc => (eq_of_engaged hi ho hc).1) hguard hstep h.silent
      have hcharge : (s.calls.set i { c with phase := ph' }).filterMap Call.charge =
          (c.phase.next ph' (some ph₀)).toList := charge_set hi ho (none_of_engages hf hguard hstep)
      rw [hnext] at hcharge
      exact ⟨⟨hsilent, fun _ => ⟨ph₁, hcharge, hun₁⟩⟩, hserved⟩
    | down _ hdone _ _ =>
      rw [setNodeStep_of_isDone (hdone c (List.mem_of_getElem? hi))] at hstep
      cases hstep
  | turn r ht =>
    rename_i d t
    have hd : d ≠ .listener := by
      rintro rfl
      exact h.silent t ht
    obtain ⟨hsilent, hserved⟩ := daemonTurn_deaf (r := r) (t := t) hd h.silent
    exact ⟨⟨hsilent, h.started⟩, hserved⟩
  | begin hup hdone =>
    refine ⟨⟨h.silent, ?_⟩, rfl⟩
    intro hup'
    cases hup'
  | unload hdown hstep =>
    obtain ⟨hsilent, hserved⟩ := unloadStep_deaf hstep h.silent
    refine ⟨⟨hsilent, ?_⟩, hserved⟩
    intro hup'
    cases hup'

end Runs

/-- **Deaf after an error**: once an accept has failed, no run of any length accepts another connection, whatever calls
set the node again. Those that were accepted before have their own threads. -/
theorem deaf_after_error {es fs : List Event} {s u v : State} {t : Tid} {r : Int}
    (hg : EachStep step Unraced {} es) (hes : run step {} es = some s) (hacc : step s (.turn .listener t r) = some u)
    (hr : r < 0) (hg' : EachStep step Unraced u fs) (hfs : run step u fs = some v) :
    v.g.served = s.g.served ∧ ∀ t', (.listener, t') ∉ v.g.running := by
  have hinv := Inv.of_run hg hes
  cases Step.of_step hacc with
  | turn r ht =>
    have hserved : (daemonTurn s.g .listener t r).served = s.g.served := by
      rw [daemonTurn, if_pos (.inr ⟨rfl, hr⟩)]
    have halways := Always.of_eachStep (P := fun v => Deaf v ∧ v.g.served = s.g.served)
      (fun v => Inv v ∧ Deaf v ∧ v.g.served = s.g.served)
      (fun v e w h hu hs => by
        obtain ⟨hdeaf, hsame⟩ := h.2.1.step h.1 hu hs
        exact ⟨h.1.step hu hs, hdeaf, hsame.trans h.2.2⟩)
      (fun _ h => h.2) ⟨hinv.turn .listener t r, hinv.deaf hr ht, hserved⟩ hg'
    obtain ⟨hdeaf, hsame⟩ := halways.last hfs
    exact ⟨hsame, hdeaf.silent⟩

/-- The node is set, and everything is started. -/
def startedEvents : List Event := .call { nodeId := 1 } :: List.replicate 9 (.go 0 0)

def startedState : State := (run step {} startedEvents).get (by decide)

/-- The listener has run out of descriptors. -/
def deafState : State := (step startedState (.turn .listener 1 (-24))).get (by decide)

/-- Setting the node again finds the socket and does nothing. -/
theorem deaf_after_emfile : ∃ v, run step deafState [.call { nodeId := 1 }, .go 1 0, .go 1 0] = some v ∧
    v.g.served = startedState.g.served ∧ ∀ t', (.listener, t') ∉ v.g.running := by
  have hrun : (run step deafState [.call { nodeId := 1 }, .go 1 0, .go 1 0]).isSome = true := by decide
  have hstarted : EachStep step Unraced {} startedEvents := by decide
  refine ⟨_, (Option.some_get hrun).symm, ?_⟩
  exact deaf_after_error (r := -24) hstarted (Option.some_get _).symm (Option.some_get _).symm (by decide) (by decide)
    (Option.some_get hrun).symm

/-- **Unloading leaves nothing** of what `UCK_IOC_SET_NODE` started: at the end of `uck_net_stop` no listening socket
and none of the three daemons is left and their fields are `NULL`; only for the listener can `kthread_stop` have been
called after it returned. -/
theorem unload_leaves_nothing {es : List Event} {s : State} (hg : EachStep step Unraced {} es)
    (hes : run step {} es = some s) (hfinished : s.unload = some .finished) :
    s.g.live = [] ∧ s.g.running = [] ∧ s.g.listenSock = none ∧ (∀ d, s.g.thread d = none) ∧
      ∀ d ∈ s.g.stale, d = .listener := by
  cases Inv.of_run hg hes with
  | up hup _ _ _ => cases hup.symm.trans hfinished
  | down hdown _ hk hc =>
    cases hdown.symm.trans hfinished
    have hnull : ∀ d, s.g.thread d = none := fun d => hc.stopped d rfl
    refine ⟨hc.live, ?_, hc.cleared rfl, hnull, hk.stale⟩
    rw [List.eq_nil_iff_forall_not_mem]
    intro p hp
    cases (hk.tracked p hp).symm.trans (hnull p.1)

/-- The listener has returned before it is stopped. -/
def unloadedEvents : List Event :=
  startedEvents ++ .turn .listener 1 0 :: .turn .listener 1 (-24) :: List.replicate 7 .unload

theorem unloadedEvents_leave_nothing : ∃ s, run step {} unloadedEvents = some s ∧ s.unload = some .finished ∧
    s.g.stale = [.listener] ∧ s.g.live = [] ∧ s.g.running = [] ∧ s.g.listenSock = none ∧
      (∀ d, s.g.thread d = none) ∧ ∀ d ∈ s.g.stale, d = .listener := by
  have hunloaded : EachStep step Unraced {} unloadedEvents := by decide
  refine ⟨_, rfl, rfl, rfl, ?_⟩
  exact unload_leaves_nothing hunloaded rfl rfl

end UckSmp.Threads
