import UckSmp.Net.Receiver
import UckSmp.Net.Senders

/-!
# From the senders to the receiver

The senders of a node and `uck_handle_client` of its peer on one connection. That messages stay whole on the wire is not
enough for the peer to read them: the handler of `PROC_STATE` takes whatever comes next for a part of the migration, so
nothing may be sent between the messages of a process.

* `delivered`: whatever senders there are and however their steps interleave, a receiver whose allocations succeed and
  whose rate limiter admits every message reads the messages that were sent, in order, and hands on every one of them.
  Page requests, for which the lock is not taken, have to wait until nobody has it.
* `request_lost`: a page request between two messages of a process is not handed on, although every message is whole.
-/

namespace UckSmp.Delivery

open Lib Lib.Writers Lib.Transition UckSmp.Senders UckSmp.Receiver

/-! ## What a receiver expects -/

inductive Phase
  | idle
  | moving
  deriving DecidableEq, Repr

/-- The messages that are read to the end, and what they lead to. No sender of the module sets the epoch of a header. -/
def expects (p : Phase) (h : MsgHdr) : Option Phase :=
  if h.epoch ≠ 0 then none
  else
    match p, MsgType.ofCode h.type with
    | .idle, some .procState =>
      if 200 ≤ h.payloadLen.toNat ∧ h.payloadLen.toNat < 2 ^ 31 then some .moving else none
    | .idle, some t => if h.payloadLen.toNat = (payloadSize t).getD 0 then some .idle else none
    | .moving, some .procPages => if h.payloadLen.toNat = pageSize then some .moving else none
    | .moving, some .migrateDone => if h.payloadLen.toNat = 0 then some .idle else none
    | _, _ => none

/-- The allocations of the receiver succeed, and its rate limiter admits every message. A throttled message ends the
connection, and a handler that gets no memory leaves its payload to be read as headers. -/
structure Generous (e : Env) : Prop where
  admits : ∀ node, e.admits node = true
  kmalloc : ∀ n, e.kmalloc n = true
  kv : ∀ n, e.kv n = true

/-- The loop that reads the next header in a phase. -/
def Phase.At : Phase → Mode → Prop
  | .idle, mode => mode = .client
  | .moving, mode => ∃ n cap, mode = .migration n cap

section Receive

variable {e : Env} {env : Nat → Env} {p q : Phase} {mode : Mode} {h : MsgHdr}

theorem epoch_of_expects (hexp : expects p h = some q) : h.epoch = 0 := by
  unfold expects at hexp
  split at hexp
  · cases hexp
  · rename_i hepoch
    exact Decidable.not_not.1 hepoch

/-- A message that is expected is read to the end. -/
theorem fits_of_expects (hg : Generous e) (hexp : expects .idle h = some q) :
    Fits e h ∧ (MsgType.ofCode h.type = some .procState ↔ q = .moving) ∧
      (q = .moving → 200 ≤ h.payloadLen.toNat) := by
  unfold expects at hexp
  rw [if_neg (by rw [ne_eq, not_not]; exact epoch_of_expects hexp)] at hexp
  unfold Fits
  cases ht : MsgType.ofCode h.type with
  | none => simp [ht] at hexp
  | some t =>
    cases t with
    | procState =>
      simp only [ht, Option.ite_none_right_eq_some, Option.some.injEq] at hexp
      obtain ⟨⟨hlow, hhigh⟩, rfl⟩ := hexp
      exact ⟨.inr ⟨hg.kv _, hlow, .inr ⟨hg.kv _, by omega⟩⟩, by simp, fun _ => hlow⟩
    | _ =>
      simp only [ht, Option.ite_none_right_eq_some, Option.some.injEq] at hexp
      obtain ⟨hlen, rfl⟩ := hexp
      refine ⟨?_, by simp, by simp⟩
      simp_all [payloadSize]

theorem turn_client (hg : Generous e) (hexp : expects .idle h = some q) :
    ∃ mode', turn e .client h = ⟨true, true, h.payloadLen.toNat, some mode'⟩ ∧ q.At mode' := by
  obtain ⟨hfits, htype, hlow⟩ := fits_of_expects hg hexp
  have hfresh : ¬ e.Stale h := fun hst => hst.1 (epoch_of_expects hexp)
  refine ⟨(dispatch e h).2, ?_, ?_⟩
  · simp only [turn, hg.admits, hfresh, not_true_eq_false, if_false, dispatch_eq_iff.2 hfits]
  · rw [dispatch_mode]
    cases q with
    | idle =>
      rw [if_neg fun ht => by simpa using htype.1 ht]
      rfl
    | moving =>
      have hlen := hlow rfl
      rw [if_pos (htype.2 rfl), uckHandleProcState, if_neg (by simp [hg.kv]; omega), if_pos (.inr (hg.kv _))]
      exact ⟨0, 256, rfl⟩

theorem turn_migration (hg : Generous e) (n cap : Nat) (hexp : expects .moving h = some q) :
    ∃ mode', turn e (.migration n cap) h = ⟨true, true, h.payloadLen.toNat, some mode'⟩ ∧ q.At mode' := by
  have hepoch := epoch_of_expects hexp
  have hpasses : e.Passes h := ⟨hg.admits _, fun hst => hst.1 hepoch⟩
  simp only [expects, hepoch, ne_eq, not_true_eq_false, if_false] at hexp
  simp only [turn, hpasses, decide_true]
  cases ht : MsgType.ofCode h.type with
  | none => simp [ht] at hexp
  | some t =>
    cases t with
    | procPages =>
      simp only [ht, Option.ite_none_right_eq_some, Option.some.injEq] at hexp
      obtain ⟨hlen, rfl⟩ := hexp
      have hroom : ∃ cap', grow e n cap = some cap' := by
        unfold grow
        split
        · exact ⟨cap, rfl⟩
        · exact ⟨cap * 2, if_pos (hg.kv _)⟩
      obtain ⟨cap', hcap⟩ := hroom
      simp only [hcap, hlen]
      exact ⟨_, rfl, n + 1, cap', rfl⟩
    | migrateDone =>
      simp only [ht, Option.ite_none_right_eq_some, Option.some.injEq] at hexp
      obtain ⟨hlen, rfl⟩ := hexp
      simp only [hlen]
      exact ⟨.client, rfl, rfl⟩
    | _ => simp [ht] at hexp

theorem turn_expects (hg : Generous e) (hm : p.At mode) (hexp : expects p h = some q) :
    ∃ mode', turn e mode h = ⟨true, true, h.payloadLen.toNat, some mode'⟩ ∧ q.At mode' := by
  cases p with
  | idle =>
    obtain rfl := hm
    exact turn_client hg hexp
  | moving =>
    obtain ⟨n, cap, rfl⟩ := hm
    exact turn_migration hg n cap hexp

/-- The headers read are those of the messages, and every message is handed on. -/
def AllHanded (rs : List (Framing.Read MsgHdr)) (pos : Nat) (ms : List Msg) : Prop :=
  Framing.Follows rs pos ms ∧ ∀ r ∈ rs, r.handed = true

theorem receive_expected (hg : ∀ k, Generous (env k)) {ms : List Msg} (k pos : Nat) (hm : p.At mode)
    (hexp : (ms.map (·.hdr)).foldlM expects p = some q) :
    AllHanded (MsgHdr.framing.receive (fun k => turn (env k)) k pos mode (Framing.stream ms)) pos ms := by
  induction ms generalizing k pos mode p with
  | nil =>
    rw [Framing.stream_nil, Framing.receive_short (show ([] : List Byte).length < _ from MsgHdr.framing.size_pos)]
    exact ⟨Framing.follows_nil_iff.2 rfl, by simp⟩
  | cons m ms ih =>
    simp only [List.map_cons, List.foldlM_cons, Option.bind_eq_bind, Option.bind_eq_some_iff] at hexp
    obtain ⟨p', hp', hexp⟩ := hexp
    obtain ⟨mode', hturn, hm'⟩ := turn_expects (hg k) hm hp'
    have hlen : m.payload.length = m.hdr.payloadLen.toNat := m.length_payload
    rw [← hlen] at hturn
    rw [Framing.receive_read hturn]
    obtain ⟨hfollows, hhanded⟩ := ih (k + 1) (pos + MsgHdr.framing.codec.size + m.payload.length) hm' hexp
    exact ⟨Framing.follows_cons_iff.2 ⟨⟨rfl, rfl⟩, rfl, hfollows⟩, List.forall_mem_cons.2 ⟨rfl, hhanded⟩⟩

end Receive

/-! ## What a sender sends -/

/-- What is left to send is what a receiver expects, and the lock is taken and released between processes only. -/
def Discipline : Phase → Code → Prop
  | p, [] => p = .idle
  | p, .lock :: c => p = .idle ∧ Discipline .idle c
  | p, .unlock :: c => p = .idle ∧ Discipline .idle c
  | p, .emit (.head h) :: c => ∃ q, expects p h = some q ∧ Discipline q c
  | p, .emit (.body _) :: c => Discipline p c

/-- The state of a process begins with the header that the handler reads. -/
def HasHeader : Op → Prop
  | .sendProcess buf _ => 200 ≤ buf.1.length
  | _ => True

instance : (op : Op) → Decidable (HasHeader op)
  | .sendProcess buf _ => inferInstanceAs (Decidable (200 ≤ buf.1.length))
  | .heartbeat _ | .cgroupStats _ | .futexWake _ _ | .announce _ | .leave | .invalidate _ _ | .execReq _ | .execDone _
  | .fetchPage _ _ | .fetchPagesBatch _ _ => .isTrue trivial

section Discipline

variable {self : UInt32} {p q : Phase} {c : Code} {h : MsgHdr} {bs : List Byte}

theorem discipline_uckNetSendMsg (hexp : expects p h = some q) (hc : Discipline q c) :
    Discipline p (uckNetSendMsg h bs ++ c) := by
  unfold uckNetSendMsg
  split
  · exact ⟨q, hexp, hc⟩
  · exact ⟨q, hexp, hc⟩

theorem discipline_underLock (hc : Discipline .idle (c ++ [.unlock])) : Discipline .idle (underLock c) := ⟨rfl, hc⟩

/-- One message under the lock. -/
theorem discipline_message (hexp : expects .idle h = some .idle) : Discipline .idle (underLock (uckNetSendMsg h bs)) :=
  discipline_underLock (discipline_uckNetSendMsg hexp ⟨rfl, rfl⟩)

theorem discipline_pages (pages : List (UInt64 × Page)) (hc : Discipline .moving c) :
    Discipline .moving ((pages.flatMap fun x => uckNetSendMsg { header self .procPages pageSize with pageOffset := x.1 }
      x.2.bytes) ++ c) := by
  induction pages with
  | nil => exact hc
  | cons x pages ih =>
    rw [List.flatMap_cons, List.append_assoc]
    exact discipline_uckNetSendMsg (by simp [expects, header, pageSize]) ih

theorem discipline_code (self : UInt32) {op : Op} (hop : HasHeader op) : Discipline .idle (op.code self) := by
  cases op with
  | heartbeat stats => exact discipline_message (by simp [expects, header, payloadSize])
  | cgroupStats stats => exact discipline_message (by simp [expects, header, payloadSize])
  | futexWake region freq => exact discipline_message (by simp [expects, header, payloadSize])
  | announce ann => exact discipline_message (by simp [expects, header, payloadSize])
  | fetchPagesBatch region req => exact discipline_message (by simp [expects, header, payloadSize])
  | leave => exact ⟨rfl, .idle, by simp [expects, header, payloadSize], rfl, rfl⟩
  | invalidate region i => exact ⟨rfl, .idle, by simp [expects, header, payloadSize], rfl, rfl⟩
  | fetchPage region i => exact ⟨.idle, by simp [expects, header, payloadSize], rfl⟩
  | execReq wire => exact ⟨rfl, .idle, by simp [expects, header, payloadSize], rfl, rfl, rfl, rfl⟩
  | execDone result => exact ⟨rfl, .idle, by simp [expects, header, payloadSize], rfl, rfl, rfl, rfl⟩
  | sendProcess buf pages =>
    have hlt := buf.2
    have hlen : (header self .procState buf.1.length).payloadLen.toNat = buf.1.length := by
      simp only [header, UInt32.toNat_ofNat']
      omega
    have hstate : expects .idle (header self .procState buf.1.length) = some .moving := by
      have hrange : 200 ≤ buf.1.length ∧ buf.1.length < 2 ^ 31 := ⟨hop, hlt⟩
      simp only [expects, hlen, if_pos hrange]
      simp [header]
    apply discipline_underLock
    simp only [List.append_assoc]
    refine discipline_uckNetSendMsg hstate (discipline_pages pages ?_)
    exact discipline_uckNetSendMsg (q := .idle) (by simp [expects, header]) ⟨rfl, rfl⟩

/-- A page request has nothing to do with processes. -/
def Calm (c : Code) : Prop := ∀ h, .emit (.head h) ∈ c → expects .idle h ≠ some .moving

theorem calm_code (self : UInt32) {op : Op} (hb : op.bare = true) : Calm (op.code self) := by
  cases op with
  | fetchPage region i => simp [Calm, Op.code, uckNetFetchPage, expects, header, payloadSize]
  | _ => cases hb

theorem Calm.tail {a : Act Chunk} (h : Calm (a :: c)) : Calm c := fun hdr hm => h hdr (List.mem_cons_of_mem _ hm)

end Discipline

/-! ## Senders side by side -/

def headOf : Chunk → Option MsgHdr
  | .head h => some h
  | .body _ => none

/-- The headers that were sent. -/
def heads (s : Wire) : List MsgHdr := s.out.filterMap headOf

/-- A page request is sent while nobody has the lock, and otherwise the senders are undisturbed. -/
def Orderly (s : Wire) : Event Op → Prop
  | .start op => HasHeader op
  | .act i => Undisturbed s (.act i) ∧
      ∀ x ∈ s.threads[i]?, x.op.bare = true → sends x.todo = true → ∀ t ∈ s.threads, t.held = false

instance (s : Wire) : (ev : Event Op) → Decidable (Orderly s ev)
  | .start op => inferInstanceAs (Decidable (HasHeader op))
  | .act i => inferInstanceAs (Decidable (_ ∧ ∀ x ∈ s.threads[i]?, _))

/-- In the phase `p` of the connection, only the `i`-th sender has sent a part of a process. -/
structure InPhase (ts : List (Thread Op Chunk)) (i : Nat) (p : Phase) : Prop where
  discipline : ∀ j x, ts[j]? = some x → Discipline (if j = i then p else .idle) x.todo
  mover : p = .moving → ∃ x, ts[i]? = some x ∧ x.held = true

section InPhase

variable {ts : List (Thread Op Chunk)} {i k : Nat} {p q : Phase} {x x' : Thread Op Chunk}

theorem InPhase.append (h : InPhase ts i p) (hd : Discipline .idle x.todo) : InPhase (ts ++ [x]) i p := by
  refine ⟨fun j y hy => ?_, fun hp => ?_⟩
  · rw [List.getElem?_append] at hy
    split at hy
    · exact h.discipline j y hy
    next hj =>
      obtain rfl := List.mem_singleton.1 (List.mem_of_getElem? hy)
      split
      next hji =>
        cases p with
        | idle => exact hd
        | moving =>
          obtain ⟨z, hz, -⟩ := h.mover rfl
          have hlt := (List.getElem?_eq_some_iff.1 hz).1
          omega
      next => exact hd
  · obtain ⟨z, hz, hheld⟩ := h.mover hp
    exact ⟨z, by rw [List.getElem?_append_left (List.getElem?_eq_some_iff.1 hz).1, hz], hheld⟩

/-- A sender goes on that is not in the middle of a process. -/
theorem InPhase.set (h : InPhase ts i p) (hk : ts[k]? = some x) (hd : Discipline .idle x'.todo)
    (hidle : (if k = i then p else .idle) = .idle) : InPhase (ts.set k x') i p := by
  have hlt : k < ts.length := (List.getElem?_eq_some_iff.1 hk).1
  refine ⟨fun j y hy => ?_, fun hp => ?_⟩
  · rw [List.getElem?_set] at hy
    split at hy
    next hkj =>
      subst hkj
      obtain rfl := Option.some.inj hy
      rw [hidle]
      exact hd
    next => exact h.discipline j y hy
  · obtain ⟨z, hz, hheld⟩ := h.mover hp
    have hne : k ≠ i := by
      rintro rfl
      rw [if_pos rfl, hp] at hidle
      cases hidle
    exact ⟨z, by rw [List.getElem?_set_ne hne, hz], hheld⟩

/-- A sender sends while nobody else is in the middle of a process. -/
theorem InPhase.send (h : InPhase ts i p) (hk : ts[k]? = some x) (hki : p = .moving → k = i)
    (hd : Discipline q x'.todo) (hheld : q = .moving → x'.held = true) : InPhase (ts.set k x') k q := by
  have hlt : k < ts.length := (List.getElem?_eq_some_iff.1 hk).1
  refine ⟨fun j y hy => ?_, fun hq => ⟨x', by simp [hlt], hheld hq⟩⟩
  rw [List.getElem?_set] at hy
  split at hy
  next hkj =>
    subst hkj
    obtain rfl := Option.some.inj hy
    rw [if_pos rfl]
    exact hd
  next hkj =>
    rw [if_neg (Ne.symm hkj)]
    have hold := h.discipline j y hy
    split at hold
    next hji =>
      cases p with
      | idle => exact hold
      | moving => exact absurd (hji.trans (hki rfl).symm) (Ne.symm hkj)
    next => exact hold

end InPhase

/-- What keeps the receiver in step. -/
structure Underway (s : Wire) : Prop where
  sound : Sound s
  calm : ∀ x ∈ s.threads, x.op.bare = true → Calm x.todo
  messages : ∃ ms : List Msg, written s ++ (debts s).flatten = Framing.stream ms ∧ ms.map (·.hdr) = heads s
  phase : ∃ i p, (heads s).foldlM expects .idle = some p ∧ InPhase s.threads i p

section Underway

variable {self : UInt32} {s t : Wire} {i k : Nat} {p : Phase}

/-- A sender that sends while a process is on its way is the one that sends the process. -/
theorem eq_mover (h : Sound s) (hphase : InPhase s.threads i .moving) {x : Thread Op Chunk}
    (hk : s.threads[k]? = some x) (hsends : sends x.todo = true)
    (hfree : x.op.bare = true → sends x.todo = true → ∀ t ∈ s.threads, t.held = false) : k = i := by
  obtain ⟨y, hy, hheld⟩ := hphase.mover rfl
  cases hbare : x.op.bare with
  | true =>
    have hnot := hfree hbare hsends y (List.mem_of_getElem? hy)
    rw [hheld] at hnot
    cases hnot
  | false =>
    have huses := h.uses x (List.mem_of_getElem? hk)
    obtain ⟨a, c, htodo⟩ : ∃ a c, x.todo = .emit a :: c := by
      cases hc : x.todo with
      | nil => simp [hc, sends] at hsends
      | cons a c =>
        cases a with
        | emit a => exact ⟨a, c, rfl⟩
        | lock => simp [hc, sends] at hsends
        | unlock => simp [hc, sends] at hsends
    rw [htodo, hbare] at huses
    exact h.exclusive k i x y hk hy (huses.1 rfl) hheld

/-- What is on the connection, with the payload still owed, before and after a send. -/
theorem sent_of_quiet {op : Op} {held : Bool} {a : Chunk} {c : Code}
    (hi : s.threads[i]? = some ⟨op, held, .emit a :: c⟩) (hquiet : Quiet (debts s) i) :
    (debts s).flatten = owed (.emit a :: c) ∧
      written ⟨s.threads.set i ⟨op, held, c⟩, s.out ++ [a]⟩ ++
        (debts ⟨s.threads.set i ⟨op, held, c⟩, s.out ++ [a]⟩).flatten = written s ++ (a.bytes ++ owed c) := by
  have hlt : i < s.threads.length := (List.getElem?_eq_some_iff.1 hi).1
  have hget : (s.threads.set i ⟨op, held, c⟩)[i]? = some ⟨op, held, c⟩ := by simp [hlt]
  have hquiet' : Quiet (debts ⟨s.threads.set i ⟨op, held, c⟩, s.out ++ [a]⟩) i := by
    rw [debts_set]
    exact quiet_set hquiet
  refine ⟨(flatten_of_quiet hquiet).trans (getD_debts hi), ?_⟩
  rw [flatten_of_quiet hquiet', getD_debts hget, written_snoc, List.append_assoc]

theorem heads_snoc (ts : List (Thread Op Chunk)) (a : Chunk) :
    heads ⟨ts, s.out ++ [a]⟩ = heads s ++ (headOf a).toList := by
  cases a <;> simp [heads, headOf]

/-- The messages after a send: a header begins one, and the payload that is owed to it belongs to it already. -/
theorem messages_send (h : Underway s) {op : Op} {held : Bool} {a : Chunk} {c : Code}
    (hi : s.threads[i]? = some ⟨op, held, .emit a :: c⟩) (hu : Undisturbed s (.act i)) :
    ∃ ms : List Msg, written ⟨s.threads.set i ⟨op, held, c⟩, s.out ++ [a]⟩ ++
        (debts ⟨s.threads.set i ⟨op, held, c⟩, s.out ++ [a]⟩).flatten = Framing.stream ms ∧
      ms.map (·.hdr) = heads ⟨s.threads.set i ⟨op, held, c⟩, s.out ++ [a]⟩ := by
  obtain ⟨ms, hms, hhdrs⟩ := h.messages
  have hmem := List.mem_of_getElem? hi
  have hframed := h.sound.framed _ hmem
  cases a with
  | head hdr =>
    have hquiet := h.sound.quiet hu hi rfl fun hb => (h.sound.uses _ hmem).1 (by rw [hb]; rfl)
    obtain ⟨hdebts, hsent⟩ := sent_of_quiet hi hquiet
    rw [hdebts, owed, List.append_nil] at hms
    refine ⟨ms ++ [⟨hdr, owed c, hframed.1⟩], ?_, ?_⟩
    · rw [hsent, hms, Framing.stream, Framing.stream, List.flatMap_append, List.flatMap_singleton]
      rfl
    · rw [heads_snoc, List.map_append, hhdrs]
      rfl
  | body bs =>
    have hquiet := quiet_of_ne_nil h.sound.lone (by rw [getD_debts hi]; exact hframed.1.1)
    obtain ⟨hdebts, hsent⟩ := sent_of_quiet hi hquiet
    refine ⟨ms, ?_, ?_⟩
    · rw [hsent, hframed.1.2, List.append_nil, ← hms, hdebts]
      rfl
    · rw [heads_snoc, hhdrs]
      simp [headOf]

/-- The phase after a send. -/
theorem phase_send (h : Underway s) {op : Op} {held : Bool} {a : Chunk} {c : Code}
    (hk : s.threads[k]? = some ⟨op, held, .emit a :: c⟩)
    (hfree : op.bare = true → ∀ t ∈ s.threads, t.held = false) :
    ∃ i p, (heads ⟨s.threads.set k ⟨op, held, c⟩, s.out ++ [a]⟩).foldlM expects .idle = some p ∧
      InPhase (s.threads.set k ⟨op, held, c⟩) i p := by
  obtain ⟨i, p, hlog, hphase⟩ := h.phase
  have hmem := List.mem_of_getElem? hk
  have hki : p = .moving → k = i := by
    rintro rfl
    exact eq_mover h.sound hphase hk rfl fun hb _ => hfree hb
  have hdisc : Discipline p (.emit a :: c) := by
    have hd := hphase.discipline k _ hk
    split at hd
    · exact hd
    next hne =>
      cases p with
      | idle => exact hd
      | moving => exact absurd (hki rfl) hne
  have hheld : op.bare = false → held = true := fun hb => (h.sound.uses _ hmem).1 (by rw [hb]; rfl)
  cases a with
  | head hdr =>
    obtain ⟨q, hq, hc⟩ := hdisc
    refine ⟨k, q, ?_, hphase.send hk hki hc fun hmoving => ?_⟩
    · rw [heads_snoc, List.foldlM_append, hlog]
      simpa [headOf] using hq
    · -- a page request does not begin a process, and everything else is sent under the lock
      cases hb : op.bare with
      | false => exact hheld hb
      | true =>
        subst hmoving
        cases p with
        | idle => exact absurd hq (h.calm _ hmem hb hdr List.mem_cons_self)
        | moving =>
          obtain ⟨y, hy, hyheld⟩ := hphase.mover rfl
          have hnot := hfree hb y (List.mem_of_getElem? hy)
          rw [hyheld] at hnot
          cases hnot
  | body bs =>
    refine ⟨k, p, ?_, hphase.send hk hki hdisc fun hmoving => ?_⟩
    · rw [heads_snoc]
      simpa [headOf] using hlog
    · subst hmoving
      obtain ⟨y, hy, hyheld⟩ := hphase.mover rfl
      rw [← hki rfl, hk] at hy
      obtain rfl := Option.some.inj hy
      exact hyheld

/-- A step that sends nothing. -/
theorem underway_keep (h : Underway s) {op : Op} {held held' : Bool} {a : Act Chunk} {c : Code}
    (hk : s.threads[k]? = some ⟨op, held, a :: c⟩) (howed : owed c = owed (a :: c))
    (hd : ∀ p, Discipline p (a :: c) → p = .idle ∧ Discipline .idle c)
    (hsound : Sound { s with threads := s.threads.set k ⟨op, held', c⟩ }) :
    Underway { s with threads := s.threads.set k ⟨op, held', c⟩ } := by
  have hmem := List.mem_of_getElem? hk
  refine ⟨hsound, fun x hx hb => ?_, ?_, ?_⟩
  · rcases List.mem_or_eq_of_mem_set hx with hx | rfl
    · exact h.calm x hx hb
    · exact (h.calm _ hmem hb).tail
  · obtain ⟨ms, hms, hhdrs⟩ := h.messages
    refine ⟨ms, ?_, hhdrs⟩
    rw [debts_set_same hk howed]
    exact hms
  · obtain ⟨i, p, hlog, hphase⟩ := h.phase
    obtain ⟨hidle, hc⟩ := hd _ (hphase.discipline k _ hk)
    exact ⟨i, p, hlog, hphase.set hk hc hidle⟩

theorem underway_step {ev : Event Op} (h : Underway s) (hg : Orderly s ev)
    (hs : step (Op.code self) s ev = some t) : Underway t := by
  have hu : Undisturbed s ev := by
    cases ev with
    | start op => trivial
    | act i => exact hg.1
  have hsound := step_sound h.sound hu hs
  cases Step.of_step hs with
  | start op =>
    refine ⟨hsound, fun x hx hb => ?_, ?_, ?_⟩
    · rcases List.mem_append.1 hx with hx | hx
      · exact h.calm x hx hb
      · obtain rfl := List.mem_singleton.1 hx
        exact calm_code self hb
    · obtain ⟨ms, hms, hhdrs⟩ := h.messages
      refine ⟨ms, ?_, hhdrs⟩
      rw [← hms]
      simp [debts, owed_code, written]
    · obtain ⟨i, p, hlog, hphase⟩ := h.phase
      exact ⟨i, p, hlog, hphase.append (discipline_code self hg)⟩
  | lock hi => exact underway_keep h hi rfl (fun _ hd => hd) hsound
  | unlock hi => exact underway_keep h hi rfl (fun _ hd => hd) hsound
  | emit hi =>
    have hmem := List.mem_of_getElem? hi
    refine ⟨hsound, fun x hx hb => ?_, messages_send h hi hu, phase_send h hi fun hb => hg.2 _ hi hb rfl⟩
    rcases List.mem_or_eq_of_mem_set hx with hx | rfl
    · exact h.calm x hx hb
    · exact (h.calm _ hmem hb).tail

theorem Underway.init : Underway {} where
  sound := .init
  calm _ hx := by cases hx
  messages := ⟨[], rfl, rfl⟩
  phase := ⟨0, .idle, rfl, by simp, by simp⟩

end Underway

/-- **Delivery**: what is on the connection, with the payload that the last sender still owes, is a sequence of messages
with the headers that were sent. A peer whose allocations succeed and whose rate limiter admits every message reads them
in order and hands on every one, whatever its epoch. -/
theorem delivered (self : UInt32) {env : Nat → Env} (hg : ∀ k, Generous (env k)) {es : List (Event Op)} {s : Wire}
    (ho : EachStep (step (Op.code self)) Orderly {} es) (hr : run (step (Op.code self)) {} es = some s) :
    ∃ ms : List Msg, written s ++ (debts s).flatten = Framing.stream ms ∧ ms.map (·.hdr) = heads s ∧
      AllHanded (uckHandleClient env (Framing.stream ms)) 0 ms := by
  have hend : Always (step (Op.code self)) Underway {} es :=
    Always.of_eachStep Underway (fun _ _ _ h hg hs => underway_step h hg hs) (fun _ h => h) .init ho
  obtain ⟨ms, hms, hhdrs⟩ := (hend.last hr).messages
  obtain ⟨i, p, hlog, -⟩ := (hend.last hr).phase
  rw [← hhdrs] at hlog
  exact ⟨ms, hms, hhdrs, receive_expected hg 0 0 (p := .idle) rfl hlog⟩

/-- The smallest state of a process. -/
def smallState : BigBuf := ⟨List.replicate 200 3, by rw [List.length_replicate]; decide⟩

theorem epochTwo_generous (k : Nat) : Generous (epochTwo k) := ⟨fun _ => rfl, fun _ => rfl, fun _ => rfl⟩

/-- A process, then a page request, then a heartbeat. -/
def processFirst : List (Event Op) :=
  [.start (.sendProcess smallState []), .start (.heartbeat ⟨List.replicate 72 1, rfl⟩), .start (.fetchPage 1 0),
    .act 0, .act 0, .act 0, .act 0, .act 0, .act 2, .act 1, .act 1, .act 1, .act 1]

set_option maxRecDepth 2000 in
theorem processFirst_delivered : (run (step (Op.code 1)) {} processFirst).isSome ∧
    ∀ s, run (step (Op.code 1)) {} processFirst = some s →
      ∃ ms : List Msg, written s ++ (debts s).flatten = Framing.stream ms ∧ ms.map (·.hdr) = heads s ∧
        AllHanded (uckHandleClient epochTwo (Framing.stream ms)) 0 ms :=
  ⟨by decide, fun _ => delivered 1 epochTwo_generous (by decide)⟩

/-- The page request is sent when the state of the process is on its way and the end of the migration is not. -/
def requestInside : List (Event Op) :=
  [.start (.sendProcess smallState []), .start (.fetchPage 1 0), .act 0, .act 0, .act 0, .act 1, .act 0, .act 0]

theorem length_smallState : smallState.1.length = 200 := List.length_replicate

def pageRequest : MsgHdr := { header 1 .pageReq 0 with regionId := 1, pageOffset := pageOffset 0 }

def stateMsg : Msg := ⟨header 1 .procState smallState.1.length, smallState.1, by rw [length_smallState]; rfl⟩

/-- A message without payload. -/
def bareMsg (h : MsgHdr) (hlen : h.payloadLen = 0) : Msg := ⟨h, [], (congrArg UInt32.toNat hlen).symm⟩

/-- The messages in the order in which they are sent. -/
def insideMessages : List Msg := [stateMsg, bareMsg pageRequest rfl, bareMsg (header 1 .migrateDone 0) rfl]

theorem out_requestInside : (run (step (Op.code 1)) {} requestInside).map (·.out) =
    some [.head stateMsg.hdr, .body stateMsg.payload, .head pageRequest, .head (header 1 .migrateDone 0)] :=
  rfl

/-- What the peer reads: the migration ends with the page request, which nobody answers, and the end of the migration
comes to a handler that has nothing to do. -/
theorem request_lost : EachStep (step (Op.code 1)) Undisturbed {} requestInside ∧
    (run (step (Op.code 1)) {} requestInside).map
        (fun s => (uckHandleClient epochTwo (written s)).map fun r => (MsgType.ofCode r.hdr.type, r.handed)) =
      some [(some .procState, true), (some .pageReq, false), (some .migrateDone, true)] := by
  refine ⟨by decide, ?_⟩
  obtain ⟨s, hs, hout⟩ := Option.map_eq_some_iff.1 out_requestInside
  have hwritten : written s = Framing.stream insideMessages := by
    simp only [written, hout, List.flatMap_cons, List.flatMap_nil, Chunk.bytes, insideMessages, Framing.stream_cons,
      Framing.stream_nil]
    rfl
  have hstate : turn (epochTwo 0) .client stateMsg.hdr =
      ⟨true, true, stateMsg.payload.length, some (.migration 0 256)⟩ := by
    simp only [stateMsg, length_smallState]
    rfl
  have hrequest : turn (epochTwo 1) (.migration 0 256) pageRequest = ⟨true, false, 0, some .client⟩ := rfl
  have hdone : turn (epochTwo 2) .client (header 1 .migrateDone 0) = ⟨true, true, 0, some .client⟩ := rfl
  rw [hs, Option.map_some, hwritten, insideMessages, uckHandleClient, Framing.receive_read hstate,
    Framing.receive_read (m := bareMsg pageRequest rfl) hrequest,
    Framing.receive_read (m := bareMsg (header 1 .migrateDone 0) rfl) hdone, Framing.stream_nil,
    Framing.receive_short (show ([] : List Byte).length < _ from MsgHdr.framing.size_pos)]
  rfl

end UckSmp.Delivery
