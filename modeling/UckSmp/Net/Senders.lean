import UckSmp.Lib.Writers
import UckSmp.Migrate.Format

/-!
# Sending messages

The senders of one node that write to the connection to one peer. `uck_net_send_msg` sends a header and a payload with
two calls of `uck_sock_send`; most senders hold the peer's `sock_lock` around it. A job request or result goes out with
two calls of `uck_net_send_to_node`, each of which takes the lock for itself, and a page request is sent without it.

- `messages_stay_whole`: what is on the connection, with the payload that is still owed to the last header, is a
  sequence of complete messages, as long as no page request is sent into another message and nothing into a job
  request or result.
-/

namespace UckSmp.Senders

open Lib Lib.Writers Lib.Transition

/-! ## What the senders do -/

/-- What one call of `uck_sock_send` appends. -/
inductive Chunk
  | head (h : MsgHdr)
  | body (bs : List Byte)
  deriving DecidableEq, Repr

def Chunk.bytes : Chunk → List Byte
  | .head h => MsgHdr.codec.enc h
  | .body bs => bs

abbrev Code := List (Act Chunk)

/-- A buffer of a size. -/
abbrev Buf (n : Nat) := { bs : List Byte // bs.length = n }

/-- A buffer that `kvzalloc` grants, which refuses sizes beyond the range of an `int`. -/
abbrev BigBuf := { bs : List Byte // bs.length < 2 ^ 31 }

/-- `uck_net_send_msg`. -/
def uckNetSendMsg (h : MsgHdr) (payload : List Byte) : Code :=
  .emit (.head h) :: if payload = [] then [] else [.emit (.body payload)]

/-- Between `mutex_lock` and `mutex_unlock` of `sock_lock`. -/
def underLock (c : Code) : Code := .lock :: c ++ [.unlock]

/-- `uck_net_send_to_node`. -/
def uckNetSendToNode (c : Chunk) : Code := underLock [.emit c]

/-- `uck_net_send_msg_to_node`. -/
def uckNetSendMsgToNode (h : MsgHdr) (payload : List Byte) : Code := underLock (uckNetSendMsg h payload)

/-- What is sent to the peer. -/
inductive Op
  | heartbeat (stats : Buf 72)
  | cgroupStats (stats : Buf 32)
  | futexWake (region : UInt64) (freq : Buf 24)
  | announce (ann : Buf 96)
  | leave
  | invalidate (region : UInt64) (i : Nat)
  | execReq (wire : Buf 784)
  | execDone (result : Buf 16)
  | fetchPage (region : UInt64) (i : Nat)
  | fetchPagesBatch (region : UInt64) (req : Buf 272)
  | sendProcess (buf : BigBuf) (pages : List (UInt64 × Page))

/-- A header with the payload's length in it. -/
def header (self : UInt32) (t : MsgType) (n : Nat) : MsgHdr :=
  { type := t.code, srcNode := self, payloadLen := UInt32.ofNat n }

section Code

variable (self : UInt32)

/-- `uck_send_heartbeat_to`. -/
def uckSendHeartbeatTo (stats : Buf 72) : Code := underLock (uckNetSendMsg (header self .heartbeat 72) stats.1)

/-- The group's statistics, sent by `uck_heartbeat_thread`. -/
def sendCgroupStats (stats : Buf 32) : Code := uckNetSendMsgToNode (header self .cgroupStats 32) stats.1

/-- `uck_futex_wake_remote`. -/
def uckFutexWakeRemote (region : UInt64) (freq : Buf 24) : Code :=
  uckNetSendMsgToNode { header self .futexWake 24 with regionId := region } freq.1

/-- The broadcast of `uck_handle_node_announce`. -/
def broadcastAnnounce (ann : Buf 96) : Code := uckNetSendMsgToNode (header self .nodeAnnounce 96) ann.1

/-- `uck_node_leave_graceful`. -/
def uckNodeLeaveGraceful : Code := uckNetSendToNode (.head (header self .nodeLeave 0))

/-- `uck_invalidate_remote_copies`. -/
def uckInvalidateRemoteCopies (region : UInt64) (i : Nat) : Code :=
  uckNetSendToNode (.head { header self .invalidate 0 with regionId := region, pageOffset := pageOffset i })

/-- `uck_submit_remote_exec`. -/
def uckSubmitRemoteExec (wire : Buf 784) : Code :=
  uckNetSendToNode (.head (header self .execReq 784)) ++ uckNetSendToNode (.body wire.1)

/-- The result at the end of `uck_local_exec_thread`. -/
def sendExecDone (result : Buf 16) : Code :=
  uckNetSendToNode (.head (header self .execDone 16)) ++ uckNetSendToNode (.body result.1)

/-- The request of `uck_net_fetch_page`. -/
def uckNetFetchPage (region : UInt64) (i : Nat) : Code :=
  [.emit (.head { header self .pageReq 0 with regionId := region, pageOffset := pageOffset i })]

/-- The request of `uck_net_fetch_pages_batch`, which receives the reply before it releases the lock. -/
def uckNetFetchPagesBatch (region : UInt64) (req : Buf 272) : Code :=
  underLock (uckNetSendMsg { header self .batchPageReq 272 with regionId := region } req.1)

/-- `uck_send_process`. -/
def uckSendProcess (buf : BigBuf) (pages : List (UInt64 × Page)) : Code :=
  underLock (uckNetSendMsg (header self .procState buf.1.length) buf.1 ++
    (pages.flatMap fun p => uckNetSendMsg { header self .procPages pageSize with pageOffset := p.1 } p.2.bytes) ++
    uckNetSendMsg (header self .migrateDone 0) [])

def Op.code : Op → Code
  | .heartbeat stats => uckSendHeartbeatTo self stats
  | .cgroupStats stats => sendCgroupStats self stats
  | .futexWake region freq => uckFutexWakeRemote self region freq
  | .announce ann => broadcastAnnounce self ann
  | .leave => uckNodeLeaveGraceful self
  | .invalidate region i => uckInvalidateRemoteCopies self region i
  | .execReq wire => uckSubmitRemoteExec self wire
  | .execDone result => sendExecDone self result
  | .fetchPage region i => uckNetFetchPage self region i
  | .fetchPagesBatch region req => uckNetFetchPagesBatch self region req
  | .sendProcess buf pages => uckSendProcess self buf pages

end Code

/-- The lock is released between header and payload. -/
def Op.split : Op → Bool
  | .execReq _ => true
  | .execDone _ => true
  | _ => false

/-- The lock is not taken. -/
def Op.bare : Op → Bool
  | .fetchPage _ _ => true
  | _ => false

/-! ## What is on the connection -/

/-- The payload that is owed to the header sent last. -/
def owed : Code → List Byte
  | [] => []
  | .lock :: c => owed c
  | .unlock :: c => owed c
  | .emit (.head _) :: _ => []
  | .emit (.body bs) :: _ => bs

abbrev Wire := State Op Chunk

/-- The bytes written to the connection. -/
def written (s : Wire) : List Byte := s.out.flatMap Chunk.bytes

/-- The payloads that the senders owe. -/
def debts (s : Wire) : List (List Byte) := s.threads.map fun t => owed t.todo

/-- What is on the connection, with the payload still owed, is a sequence of complete messages. -/
def MessagesWhole (s : Wire) : Prop := MsgHdr.framing.Whole (written s ++ (debts s).flatten)

/-- The next step is a send. -/
def sends : Code → Bool
  | .emit _ :: _ => true
  | _ => false

/-- A page request is not sent while another sender owes a payload, and nothing is sent while another sender owes the
payload of a job request or result. -/
def Undisturbed (s : Wire) : Event Op → Prop
  | .start _ => True
  | .act i => ∀ x ∈ s.threads[i]?, sends x.todo = true →
      ∀ t ∈ s.threads.eraseIdx i, x.op.bare = true ∨ t.op.split = true → owed t.todo = []

instance (s : Wire) : (ev : Event Op) → Decidable (Undisturbed s ev)
  | .start _ => .isTrue trivial
  | .act i => inferInstanceAs (Decidable (∀ x ∈ s.threads[i]?, _))

/-! ## Discipline of a sender -/

/-- Every header is followed by the payload that it announces, every payload by a header. -/
def Framed : Code → Prop
  | [] => True
  | .lock :: c => Framed c
  | .unlock :: c => Framed c
  | .emit (.head h) :: c => (owed c).length = h.payloadLen.toNat ∧ Framed c
  | .emit (.body bs) :: c => (bs ≠ [] ∧ owed c = []) ∧ Framed c

/-- How the lock is used: `locked` sends hold it, and messages kept `together` are not left unfinished around it. -/
def Uses (locked together : Bool) : Bool → Code → Prop
  | _, [] => True
  | _, .lock :: c => (together = true → owed c = []) ∧ Uses locked together true c
  | _, .unlock :: c => (together = true → owed c = []) ∧ Uses locked together false c
  | held, .emit _ :: c => (locked = true → held = true) ∧ Uses locked together held c

section Discipline

variable {locked together held : Bool} {c d : Code} {h : MsgHdr} {p : List Byte}

/-- A message that is sent with `uck_net_send_msg`, before other messages. -/
theorem framed_uckNetSendMsg (hp : p.length = h.payloadLen.toNat) (hd : Framed d) (ho : owed d = []) :
    Framed (uckNetSendMsg h p ++ d) := by
  unfold uckNetSendMsg
  split
  · rename_i hnil
    subst hnil
    exact ⟨(congrArg List.length ho).trans hp, hd⟩
  · rename_i hne
    exact ⟨hp, ⟨hne, ho⟩, hd⟩

theorem owed_uckNetSendMsg : owed (uckNetSendMsg h p ++ d) = [] := rfl

theorem uses_uckNetSendMsg (hheld : held = true) (hd : Uses locked together held d) :
    Uses locked together held (uckNetSendMsg h p ++ d) := by
  unfold uckNetSendMsg
  split
  · exact ⟨fun _ => hheld, hd⟩
  · exact ⟨fun _ => hheld, fun _ => hheld, hd⟩

/-- Messages under the lock. -/
theorem framed_underLock (hc : Framed (c ++ [.unlock])) : Framed (underLock c) := hc

theorem uses_underLock (ho : owed (c ++ [.unlock]) = []) (hc : Uses locked together true (c ++ [.unlock])) :
    Uses locked together false (underLock c) := ⟨fun _ => ho, hc⟩

theorem uses_unlock : Uses locked together true [.unlock] := ⟨fun _ => rfl, trivial⟩

/-- One message under the lock. -/
theorem framed_message (hp : p.length = h.payloadLen.toNat) : Framed (underLock (uckNetSendMsg h p)) :=
  framed_underLock (framed_uckNetSendMsg hp trivial rfl)

theorem uses_message : Uses locked together false (underLock (uckNetSendMsg h p)) :=
  uses_underLock owed_uckNetSendMsg (uses_uckNetSendMsg rfl uses_unlock)

/-- The pages of a migration. -/
theorem framed_pages (self : UInt32) (pages : List (UInt64 × Page)) (hd : Framed d) (ho : owed d = []) :
    Framed ((pages.flatMap fun p => uckNetSendMsg { header self .procPages pageSize with pageOffset := p.1 }
      p.2.bytes) ++ d) ∧
    owed ((pages.flatMap fun p => uckNetSendMsg { header self .procPages pageSize with pageOffset := p.1 }
      p.2.bytes) ++ d) = [] := by
  induction pages with
  | nil => exact ⟨hd, ho⟩
  | cons p pages ih =>
    rw [List.flatMap_cons, List.append_assoc]
    exact ⟨framed_uckNetSendMsg p.2.length_bytes ih.1 ih.2, owed_uckNetSendMsg⟩

theorem uses_pages (self : UInt32) (pages : List (UInt64 × Page)) (hd : Uses locked together true d) :
    Uses locked together true ((pages.flatMap fun p =>
      uckNetSendMsg { header self .procPages pageSize with pageOffset := p.1 } p.2.bytes) ++ d) := by
  induction pages with
  | nil => exact hd
  | cons p pages ih =>
    rw [List.flatMap_cons, List.append_assoc]
    exact uses_uckNetSendMsg rfl ih

theorem framed_code (self : UInt32) (op : Op) : Framed (op.code self) := by
  cases op with
  | heartbeat stats => exact framed_message stats.2
  | cgroupStats stats => exact framed_message stats.2
  | futexWake region freq => exact framed_message freq.2
  | announce ann => exact framed_message ann.2
  | leave => exact ⟨rfl, trivial⟩
  | invalidate region i => exact ⟨rfl, trivial⟩
  | execReq wire => exact ⟨wire.2, ⟨List.ne_nil_of_length_pos (by rw [wire.2]; decide), rfl⟩, trivial⟩
  | execDone result => exact ⟨result.2, ⟨List.ne_nil_of_length_pos (by rw [result.2]; decide), rfl⟩, trivial⟩
  | fetchPage region i => exact ⟨rfl, trivial⟩
  | fetchPagesBatch region req => exact framed_message req.2
  | sendProcess buf pages =>
    apply framed_underLock
    simp only [List.append_assoc]
    have hdone : Framed (uckNetSendMsg (header self .migrateDone 0) [] ++ [.unlock]) :=
      framed_uckNetSendMsg rfl trivial rfl
    obtain ⟨hpages, howed⟩ := framed_pages self pages hdone owed_uckNetSendMsg
    refine framed_uckNetSendMsg ?_ hpages howed
    have hlt := buf.2
    simp only [header, UInt32.toNat_ofNat']
    omega

theorem uses_code (self : UInt32) (op : Op) : Uses (!op.bare) (!op.split) false (op.code self) := by
  cases op with
  | heartbeat stats => exact uses_message
  | cgroupStats stats => exact uses_message
  | futexWake region freq => exact uses_message
  | announce ann => exact uses_message
  | leave => exact uses_underLock rfl ⟨fun _ => rfl, uses_unlock⟩
  | invalidate region i => exact uses_underLock rfl ⟨fun _ => rfl, uses_unlock⟩
  | execReq wire => simp [Op.code, uckSubmitRemoteExec, uckNetSendToNode, underLock, Uses, Op.split]
  | execDone result => simp [Op.code, sendExecDone, uckNetSendToNode, underLock, Uses, Op.split]
  | fetchPage region i => simp [Op.code, uckNetFetchPage, Uses, Op.bare]
  | fetchPagesBatch region req => exact uses_message
  | sendProcess buf pages =>
    apply uses_underLock
    · rw [List.append_assoc, List.append_assoc]
      exact owed_uckNetSendMsg
    · simp only [List.append_assoc]
      exact uses_uckNetSendMsg rfl (uses_pages self pages (uses_uckNetSendMsg rfl uses_unlock))

theorem owed_code (self : UInt32) (op : Op) : owed (op.code self) = [] := by
  cases op with
  | sendProcess buf pages =>
    simp only [Op.code, uckSendProcess, underLock, List.cons_append, owed, List.append_assoc]
    exact owed_uckNetSendMsg
  | _ => rfl

/-- A sender that keeps its messages together owes a payload only with the lock. -/
theorem held_of_owed (hu : Uses true true held c) (ho : owed c ≠ []) : held = true := by
  cases c with
  | nil => exact absurd rfl ho
  | cons a c =>
    cases a with
    | lock => exact absurd (hu.1 rfl) ho
    | unlock => exact absurd (hu.1 rfl) ho
    | emit x => exact hu.1 rfl

/-- A page request has no payload. -/
def NoBody (c : Code) : Prop := ∀ bs, .emit (.body bs) ∉ c

theorem NoBody.owed_eq_nil (hn : NoBody c) : owed c = [] := by
  induction c with
  | nil => rfl
  | cons a c ih =>
    have htail : NoBody c := fun bs hm => hn bs (List.mem_cons_of_mem _ hm)
    cases a with
    | lock => exact ih htail
    | unlock => exact ih htail
    | emit x =>
      cases x with
      | head h => rfl
      | body bs => exact absurd List.mem_cons_self (hn bs)

theorem noBody_code (self : UInt32) {op : Op} (hb : op.bare = true) : NoBody (op.code self) := by
  cases op with
  | fetchPage region i => simp [NoBody, Op.code, uckNetFetchPage]
  | _ => cases hb

end Discipline

/-! ## Debts -/

/-- All debts but that of the `i`-th sender are paid. -/
def Quiet (L : List (List Byte)) (i : Nat) : Prop := ∀ j, j ≠ i → L.getD j [] = []

theorem flatten_of_quiet {L : List (List Byte)} {i : Nat} (hq : Quiet L i) : L.flatten = L.getD i [] := by
  induction L generalizing i with
  | nil => rfl
  | cons p L ih =>
    have htail : ∀ {k}, (∀ j, j ≠ k → L.getD j [] = []) → L.flatten = L.getD k [] := fun h => ih h
    cases i with
    | zero =>
      have hnil : L.flatten = [] := by
        rw [List.flatten_eq_nil_iff]
        intro q hmem
        obtain ⟨j, hj⟩ := List.mem_iff_getElem?.1 hmem
        simpa [List.getD_cons_succ, List.getD_eq_getElem?_getD, hj] using hq (j + 1) (Nat.succ_ne_zero j)
      rw [List.flatten_cons, hnil, List.append_nil]
      rfl
    | succ i =>
      have hp : p = [] := hq 0 (Nat.succ_ne_zero i).symm
      rw [List.flatten_cons, hp, List.nil_append]
      exact htail fun j hj => hq (j + 1) (by omega)

theorem quiet_set {L : List (List Byte)} {i : Nat} {p : List Byte} (hq : Quiet L i) : Quiet (L.set i p) i := by
  intro j hj
  rw [List.getD_eq_getElem?_getD, List.getElem?_set_ne (Ne.symm hj), ← List.getD_eq_getElem?_getD]
  exact hq j hj

section Debts

variable {s : Wire} {i : Nat} {x x' : Thread Op Chunk}

theorem getD_debts (hx : s.threads[i]? = some x) : (debts s).getD i [] = owed x.todo := by
  simp [debts, List.getD_eq_getElem?_getD, hx]

theorem debts_set (out : List Chunk) : debts ⟨s.threads.set i x', out⟩ = (debts s).set i (owed x'.todo) := by
  simp [debts, List.map_set]

/-- A step that leaves the thread's debt as it is. -/
theorem debts_set_same (hx : s.threads[i]? = some x) (ho : owed x'.todo = owed x.todo) (out : List Chunk) :
    debts ⟨s.threads.set i x', out⟩ = debts s := by
  rw [debts_set, ho]
  apply List.ext_getElem?
  intro j
  rw [List.getElem?_set]
  split
  · rename_i hij
    subst hij
    split
    · simp [debts, hx]
    · rename_i hlen
      rw [List.getElem?_eq_none (by omega)]
  · rfl

end Debts

/-- What keeps the messages whole: at most one sender owes a payload. -/
structure Sound (s : Wire) : Prop where
  exclusive : Exclusive s
  framed : ∀ x ∈ s.threads, Framed x.todo
  uses : ∀ x ∈ s.threads, Uses (!x.op.bare) (!x.op.split) x.held x.todo
  noBody : ∀ x ∈ s.threads, x.op.bare = true → NoBody x.todo
  lone : ∃ i, Quiet (debts s) i
  whole : MessagesWhole s

section Sound

variable {self : UInt32} {s t : Wire} {ev : Event Op} {i : Nat} {x : Thread Op Chunk}

theorem quiet_of_ne_nil {L : List (List Byte)} (hl : ∃ k, Quiet L k) (hi : L.getD i [] ≠ []) : Quiet L i := by
  obtain ⟨k, hk⟩ := hl
  by_cases hik : i = k
  · exact hik ▸ hk
  · exact absurd (hk i hik) hi

/-- A sender that begins a message, undisturbed, finds every other message finished. -/
theorem Sound.quiet (h : Sound s) (hu : Undisturbed s (.act i)) (hx : s.threads[i]? = some x)
    (hsends : sends x.todo = true) (hheld : x.op.bare = false → x.held = true) : Quiet (debts s) i := by
  intro j hj
  cases hy : s.threads[j]? with
  | none => simp [debts, List.getD_eq_getElem?_getD, hy]
  | some y =>
    rw [getD_debts hy]
    by_contra hne
    have hmem := List.mem_of_getElem? hy
    have hother : y ∈ s.threads.eraseIdx i := List.mem_eraseIdx_iff_getElem?.2 ⟨j, hj, hy⟩
    have hguard := fun hcase => hne (hu x hx hsends y hother hcase)
    have hbare : x.op.bare = false := Bool.not_eq_true _ ▸ fun hb => hguard (.inl hb)
    have hsplit : y.op.split = false := Bool.not_eq_true _ ▸ fun hb => hguard (.inr hb)
    have hybare : y.op.bare = false := Bool.not_eq_true _ ▸ fun hb => hne (h.noBody y hmem hb).owed_eq_nil
    have huses := h.uses y hmem
    rw [hybare, hsplit] at huses
    exact hj (h.exclusive j i y x hy hx (held_of_owed huses hne) (hheld hbare))

/-- A thread goes on: what is left to do is as disciplined as before. -/
theorem Sound.set (h : Sound s) {x' : Thread Op Chunk} {out : List Chunk} (hex : Exclusive ⟨s.threads.set i x', out⟩)
    (hframed : Framed x'.todo) (huses : Uses (!x'.op.bare) (!x'.op.split) x'.held x'.todo)
    (hbody : x'.op.bare = true → NoBody x'.todo) (hlone : ∃ k, Quiet (debts ⟨s.threads.set i x', out⟩) k)
    (hwhole : MessagesWhole ⟨s.threads.set i x', out⟩) : Sound ⟨s.threads.set i x', out⟩ := by
  have hset : ∀ {P : Thread Op Chunk → Prop}, (∀ y ∈ s.threads, P y) → P x' → ∀ y ∈ s.threads.set i x', P y := by
    intro P hold hnew y hy
    rcases List.mem_or_eq_of_mem_set hy with hy | rfl
    · exact hold y hy
    · exact hnew
  exact ⟨hex, hset h.framed hframed, hset h.uses huses, hset h.noBody hbody, hlone, hwhole⟩

theorem written_snoc (ts : List (Thread Op Chunk)) (c : Chunk) :
    written ⟨ts, s.out ++ [c]⟩ = written s ++ c.bytes := by
  simp [written]

theorem NoBody.tail {a : Act Chunk} {c : Code} (hn : NoBody (a :: c)) : NoBody c :=
  fun bs hm => hn bs (List.mem_cons_of_mem _ hm)

theorem Sound.start (h : Sound s) (op : Op)
    (hex : Exclusive { s with threads := s.threads ++ [⟨op, false, op.code self⟩] }) :
    Sound { s with threads := s.threads ++ [⟨op, false, op.code self⟩] } := by
  have hdebts : debts { s with threads := s.threads ++ [⟨op, false, op.code self⟩] } = debts s ++ [[]] := by
    simp [debts, owed_code]
  have happ : ∀ {P : Thread Op Chunk → Prop}, (∀ y ∈ s.threads, P y) → P ⟨op, false, op.code self⟩ →
      ∀ y ∈ s.threads ++ [⟨op, false, op.code self⟩], P y := by
    intro P hold hnew y hy
    rcases List.mem_append.1 hy with hy | hy
    · exact hold y hy
    · rw [List.mem_singleton.1 hy]
      exact hnew
  refine ⟨hex, happ h.framed (framed_code self op), happ h.uses (uses_code self op),
    happ h.noBody (noBody_code self), ?_, ?_⟩
  · obtain ⟨k, hk⟩ := h.lone
    refine ⟨k, fun j hj => ?_⟩
    have hold := hk j hj
    rw [hdebts, List.getD_eq_getElem?_getD, List.getElem?_append]
    rw [List.getD_eq_getElem?_getD] at hold
    split
    · exact hold
    · cases j - (debts s).length <;> rfl
  · have hwhole := h.whole
    unfold MessagesWhole at hwhole ⊢
    rw [hdebts]
    simpa [written] using hwhole

/-- A step that sends nothing. -/
theorem Sound.keep (h : Sound s) (hx : s.threads[i]? = some x) {x' : Thread Op Chunk}
    (hex : Exclusive ⟨s.threads.set i x', s.out⟩) (ho : owed x'.todo = owed x.todo) (hframed : Framed x'.todo)
    (huses : Uses (!x'.op.bare) (!x'.op.split) x'.held x'.todo) (hbody : x'.op.bare = true → NoBody x'.todo) :
    Sound ⟨s.threads.set i x', s.out⟩ := by
  have hdebts := debts_set_same hx ho s.out
  refine h.set hex hframed huses hbody ?_ ?_
  · rw [hdebts]
    exact h.lone
  · unfold MessagesWhole
    rw [hdebts]
    exact h.whole

/-- A send by a thread beside which nobody owes a payload. -/
theorem Sound.send (h : Sound s) {op : Op} {held : Bool} {a : Chunk} {c : Code}
    (hi : s.threads[i]? = some ⟨op, held, .emit a :: c⟩) (hquiet : Quiet (debts s) i)
    (hex : Exclusive ⟨s.threads.set i ⟨op, held, c⟩, s.out ++ [a]⟩) (hframed : Framed c)
    (hsend : MsgHdr.framing.Whole (written s ++ owed (.emit a :: c)) →
      MsgHdr.framing.Whole (written s ++ a.bytes ++ owed c)) :
    Sound ⟨s.threads.set i ⟨op, held, c⟩, s.out ++ [a]⟩ := by
  have hmem := List.mem_of_getElem? hi
  have hquiet' : Quiet (debts ⟨s.threads.set i ⟨op, held, c⟩, s.out ++ [a]⟩) i := by
    rw [debts_set]
    exact quiet_set hquiet
  refine h.set hex hframed (h.uses _ hmem).2 (fun hb => (h.noBody _ hmem hb).tail) ⟨i, hquiet'⟩ ?_
  have hwhole := h.whole
  unfold MessagesWhole at hwhole ⊢
  rw [flatten_of_quiet hquiet, getD_debts hi] at hwhole
  have hlt : i < s.threads.length := (List.getElem?_eq_some_iff.1 hi).1
  have hget : (s.threads.set i ⟨op, held, c⟩)[i]? = some ⟨op, held, c⟩ := by simp [hlt]
  rw [flatten_of_quiet hquiet', getD_debts hget, written_snoc]
  exact hsend hwhole

/-- A header is sent while no message is unfinished. -/
theorem Sound.head (h : Sound s) {op : Op} {held : Bool} {hdr : MsgHdr} {c : Code}
    (hi : s.threads[i]? = some ⟨op, held, .emit (.head hdr) :: c⟩) (hu : Undisturbed s (.act i))
    (hex : Exclusive ⟨s.threads.set i ⟨op, held, c⟩, s.out ++ [.head hdr]⟩) :
    Sound ⟨s.threads.set i ⟨op, held, c⟩, s.out ++ [.head hdr]⟩ := by
  have hmem := List.mem_of_getElem? hi
  have hframed := h.framed _ hmem
  have hquiet : Quiet (debts s) i := h.quiet hu hi rfl fun hb => (h.uses _ hmem).1 (by rw [hb]; rfl)
  refine h.send hi hquiet hex hframed.2 fun hwhole => ?_
  have hsnoc := hwhole.snoc ⟨hdr, owed c, hframed.1⟩
  rw [owed, List.append_nil] at hsnoc
  rwa [List.append_assoc]

/-- The payload of the message that is unfinished is sent. -/
theorem Sound.body (h : Sound s) {op : Op} {held : Bool} {bs : List Byte} {c : Code}
    (hi : s.threads[i]? = some ⟨op, held, .emit (.body bs) :: c⟩)
    (hex : Exclusive ⟨s.threads.set i ⟨op, held, c⟩, s.out ++ [.body bs]⟩) :
    Sound ⟨s.threads.set i ⟨op, held, c⟩, s.out ++ [.body bs]⟩ := by
  have hframed := h.framed _ (List.mem_of_getElem? hi)
  have hquiet : Quiet (debts s) i := quiet_of_ne_nil h.lone (by rw [getD_debts hi]; exact hframed.1.1)
  refine h.send hi hquiet hex hframed.2 fun hwhole => ?_
  rwa [hframed.1.2, List.append_nil]

theorem step_sound (h : Sound s) (hu : Undisturbed s ev) (hs : step (Op.code self) s ev = some t) : Sound t := by
  have hex := step_exclusive h.exclusive hs
  cases Step.of_step hs with
  | start op => exact h.start op hex
  | lock hi hfree =>
    have hmem := List.mem_of_getElem? hi
    have hframed := h.framed _ hmem
    have huses := h.uses _ hmem
    exact h.keep hi hex rfl hframed huses.2 fun hb => (h.noBody _ hmem hb).tail
  | unlock hi =>
    have hmem := List.mem_of_getElem? hi
    have hframed := h.framed _ hmem
    have huses := h.uses _ hmem
    exact h.keep hi hex rfl hframed huses.2 fun hb => (h.noBody _ hmem hb).tail
  | emit hi =>
    rename_i a _
    cases a with
    | head hdr => exact h.head hi hu hex
    | body bs => exact h.body hi hex

theorem Sound.init : Sound {} where
  exclusive _ _ _ _ hx := by cases hx
  framed _ hx := by cases hx
  uses _ hx := by cases hx
  noBody _ hx := by cases hx
  lone := ⟨0, fun _ _ => rfl⟩
  whole := Framing.Whole.nil

/-- **Messages stay whole**: whatever senders there are and however their steps interleave, as long as no page request
is sent into a message and nothing into a job request or result. -/
theorem messages_stay_whole (self : UInt32) {es : List (Event Op)}
    (hu : EachStep (step (Op.code self)) Undisturbed {} es) : Always (step (Op.code self)) MessagesWhole {} es :=
  Always.of_eachStep Sound (fun _ _ _ h hg hs => step_sound h hg hs) (fun _ h => h.whole) .init hu

/-- The result of a job. -/
def resultOne : Buf 16 := ⟨1 :: List.replicate 15 0, rfl⟩

theorem heartbeat_beside_result_whole :
    (run (step (Op.code 1)) {} [.start (.heartbeat ⟨List.replicate 72 0, rfl⟩), .start (.execDone resultOne), .act 0,
        .act 0, .act 0, .act 0, .act 1, .act 1]).isSome = true ∧
      Always (step (Op.code 1)) MessagesWhole {} [.start (.heartbeat ⟨List.replicate 72 0, rfl⟩),
        .start (.execDone resultOne), .act 0, .act 0, .act 0, .act 0, .act 1, .act 1] :=
  ⟨by decide, messages_stay_whole 1 (by decide)⟩

/-- An invalidation gets between the header of a job's result and the result: the receiver finds sixteen of its bytes
where the result should be, and a header that promises a byte after the end of everything that was sent. -/
theorem invalidation_splits_result :
    ¬ Always (step (Op.code 1)) MessagesWhole {} [.start (.execDone resultOne), .start (.invalidate 1 0), .act 0,
      .act 0, .act 0, .act 1, .act 1, .act 1, .act 0, .act 0, .act 0] := by
  intro h
  have hwhole : MsgHdr.framing.Whole _ := h.get (by decide)
  obtain ⟨-, hrest⟩ := hwhole.next (by decide)
  obtain ⟨hlen, -⟩ := hrest.next (by decide)
  exact absurd hlen (by decide)

end Sound

end UckSmp.Senders
