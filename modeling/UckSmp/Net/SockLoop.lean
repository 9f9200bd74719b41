import UckSmp.Lib.Loop
import UckSmp.Net.Connection
import UckSmp.Net.Senders

/-!
# The socket loops

`uck_sock_send` and `uck_sock_recv` call the kernel until the whole buffer is transferred, and go on behind what a call
transferred. What a call returns is left open, but for being at most the length it was asked for.

- `sockLoop_total`: both loops end, with the length after the whole buffer or with a negative error after a part of it.
- `sock_loops_exact`: what that means for the bytes on the stream and in the buffer.
- `uckNetSendMsg_total`: a message goes out as the senders of `UckSmp.Senders` emit it, its header before its payload.
- `stepRecv_follows`: the receives of `UckSmp.Net` are the rounds of `uck_sock_recv`.
-/

namespace UckSmp.SockLoop

open Lib Lib.Loop

/-! ## Memory -/

/-- Memory as it is seen from the start of a buffer. -/
abbrev Mem := Int → Byte

def bytesAt (mem : Mem) (offset : Int) (n : Nat) : List Byte := (List.range n).map fun i : Nat => mem (offset + i)

/-- The bytes of a stream from a position on. -/
def bytesFrom (stream : Nat → Byte) (pos n : Nat) : List Byte := (List.range n).map fun i => stream (pos + i)

/-- `n` bytes of the stream are stored at an offset. -/
def store (mem : Mem) (offset : Int) (n : Nat) (stream : Nat → Byte) (pos : Nat) : Mem := fun a =>
  if offset ≤ a ∧ a < offset + n then stream (pos + (a - offset).toNat) else mem a

/-- A buffer that holds a list. -/
def memOf (bs : List Byte) : Mem := fun a => bs.getD a.toNat 0

section Memory

variable {mem : Mem} {stream : Nat → Byte} {pos : Nat}

@[simp] theorem length_bytesAt (offset : Int) (n : Nat) : (bytesAt mem offset n).length = n := by
  simp [bytesAt]

@[simp] theorem bytesAt_zero (offset : Int) : bytesAt mem offset 0 = [] := rfl

theorem bytesAt_add (k m : Nat) : bytesAt mem 0 (k + m) = bytesAt mem 0 k ++ bytesAt mem k m := by
  simp [bytesAt, List.range_add, Function.comp_def]

/-- A proper part of a buffer. -/
theorem bytesAt_part (mem : Mem) {k n : Nat} (h : k < n) :
    ∃ rest, rest ≠ [] ∧ bytesAt mem 0 k ++ rest = bytesAt mem 0 n := by
  refine ⟨bytesAt mem k (n - k), List.ne_nil_of_length_pos (by rw [length_bytesAt]; omega), ?_⟩
  rw [← bytesAt_add, Nat.add_sub_cancel' h.le]

theorem bytesAt_memOf (bs : List Byte) : bytesAt (memOf bs) 0 bs.length = bs := by
  apply List.ext_getElem
  · simp
  · intro i h _
    simp only [length_bytesAt] at h
    simp [bytesAt, memOf, h]

@[simp] theorem length_bytesFrom (n : Nat) : (bytesFrom stream pos n).length = n := by
  simp [bytesFrom]

theorem bytesFrom_add (k m : Nat) :
    bytesFrom stream pos (k + m) = bytesFrom stream pos k ++ bytesFrom stream (pos + k) m := by
  simp [bytesFrom, List.range_add, Function.comp_def, Nat.add_assoc]

/-- The next bytes of a stream, at a cut. -/
theorem bytesFrom_cut {bs : List Byte} (h : bytesFrom stream pos bs.length = bs) {k : Nat} (hk : k ≤ bs.length) :
    bytesFrom stream pos k = bs.take k ∧ bytesFrom stream (pos + k) (bs.drop k).length = bs.drop k := by
  apply List.append_inj
  · rw [← bytesFrom_add, List.length_drop, Nat.add_sub_cancel' hk, h, List.take_append_drop]
  · rw [length_bytesFrom, List.length_take_of_le hk]

@[simp] theorem store_zero (offset : Int) : store mem offset 0 stream pos = mem := by
  funext a
  have hout : ¬ (offset ≤ a ∧ a < offset + (0 : Nat)) := by omega
  rw [store, if_neg hout]

/-- Bytes that are stored behind each other. -/
theorem store_store (k m : Nat) :
    store (store mem 0 k stream pos) k m stream (pos + k) = store mem 0 (k + m) stream pos := by
  funext a
  simp only [store]
  by_cases hlow : 0 ≤ a ∧ a < k
  · have hout : ¬ ((k : Int) ≤ a ∧ a < k + m) := by omega
    rw [if_neg hout, if_pos (by omega), if_pos (by omega)]
  · by_cases hhigh : (k : Int) ≤ a ∧ a < k + m
    · rw [if_pos hhigh, if_pos (by omega)]
      congr 1
      omega
    · rw [if_neg hhigh, if_neg (by omega), if_neg (by omega)]

theorem bytesAt_store (offset : Int) (n : Nat) :
    bytesAt (store mem offset n stream pos) offset n = bytesFrom stream pos n := by
  apply List.map_congr_left
  intro i hi
  rw [List.mem_range] at hi
  rw [store, if_pos (by omega)]
  congr 1
  omega

/-- What lies before the stored bytes stays. -/
theorem bytesAt_store_of_le {offset : Int} {k : Nat} (h : (k : Int) ≤ offset) (n : Nat) :
    bytesAt (store mem offset n stream pos) 0 k = bytesAt mem 0 k := by
  apply List.map_congr_left
  intro i hi
  rw [List.mem_range] at hi
  rw [store, if_neg (by omega)]

end Memory

/-! ## The calls of the kernel -/

/-- What the calls on a socket return, by the number of the call and the length it is asked for: bytes, at most that
many, 0 or an error. -/
structure Results where
  ret : (call : Nat) → (size : UInt64) → Int32
  ret_le : ∀ call size, (ret call size).toInt ≤ size.toNat

/-- A socket that is sent to: the calls so far, and the stream. -/
structure Sink where
  calls : Nat
  stream : List Byte
  deriving DecidableEq, Repr

/-- A socket that is received from: the calls so far, the bytes of the stream that they took, and the memory of the
receiver. -/
structure Source where
  calls : Nat
  taken : Nat
  buf : Mem

/-- `kernel_sendmsg` with `iov_base` at an offset of the buffer and `iov_len` the size. -/
def kernelSendmsg (rs : Results) (buf : Mem) (offset : Int) (size : UInt64) (s : Sink) : Int32 × Sink :=
  let ret := rs.ret s.calls size
  (ret, ⟨s.calls + 1, s.stream ++ bytesAt buf offset ret.toInt.toNat⟩)

/-- `kernel_recvmsg`. -/
def kernelRecvmsg (rs : Results) (stream : Nat → Byte) (offset : Int) (size : UInt64) (s : Source) : Int32 × Source :=
  let ret := rs.ret s.calls size
  (ret, ⟨s.calls + 1, s.taken + ret.toInt.toNat, store s.buf offset ret.toInt.toNat stream s.taken⟩)

/-! ## The loops -/

def eio : Int32 := 5

/-- What a loop returns for a call that transferred nothing. -/
def errorOf (ret : Int32) : Int32 := if ret ≠ 0 then ret else -eio

theorem errorOf_neg {ret : Int32} (h : ret ≤ 0) : errorOf ret < 0 := by
  unfold errorOf
  split
  · rename_i hne
    exact Int32.lt_of_le_of_ne h hne
  · decide

section Loop

variable {σ : Type}

/-- `kernel_sendmsg` or `kernel_recvmsg`, and what it acts on. -/
abbrev Call (σ : Type) := (offset : Int) → (size : UInt64) → σ → Int32 × σ

/-- The state of a loop: `sent` or `rcvd`, and what the calls act on. -/
structure Progress (σ : Type) where
  done : Int32
  env : σ

/-- `iov_len`: the difference is an `int` that becomes a `size_t`. -/
def iovLen (len done : Int32) : UInt64 := (len - done).toInt64.toUInt64

/-- One round, with the call of the kernel that the loop makes. -/
def sockRound (call : Call σ) (len : Int32) (t : Progress σ) : Progress σ ⊕ (Int32 × σ) :=
  if t.done < len then
    let r := call t.done.toInt (iovLen len t.done) t.env
    if r.1 ≤ 0 then .inr (errorOf r.1, r.2) else .inl ⟨t.done + r.1, r.2⟩
  else .inr (t.done, t.env)

/-- The loop, in at most so many rounds. -/
def sockLoop (call : Call σ) (len : Int32) (rounds : Nat) (env : σ) : Option (Int32 × σ) :=
  iterate (sockRound call len) rounds ⟨0, env⟩

end Loop

/-- `uck_sock_send`. -/
def uckSockSend (rs : Results) (buf : Mem) (len : Int32) (rounds : Nat) (s : Sink) : Option (Int32 × Sink) :=
  sockLoop (kernelSendmsg rs buf) len rounds s

/-- `uck_sock_recv`. -/
def uckSockRecv (rs : Results) (stream : Nat → Byte) (len : Int32) (rounds : Nat) (s : Source) :
    Option (Int32 × Source) := sockLoop (kernelRecvmsg rs stream) len rounds s

/-! ## The counter -/

theorem toInt_done_add {done ret : Int32} (h0 : 0 ≤ done.toInt + ret.toInt)
    (h : done.toInt + ret.toInt ≤ 2147483647) : (done + ret).toInt = done.toInt + ret.toInt := by
  rw [Int32.toInt_add]
  apply Int.bmod_eq_of_le <;> omega

theorem toNat_iovLen {len done : Int32} (h0 : 0 ≤ done.toInt) (h : done.toInt ≤ len.toInt) :
    ((iovLen len done).toNat : Int) = len.toInt - done.toInt := by
  have hlt := Int32.toInt_lt len
  have hsub : (len - done).toInt = len.toInt - done.toInt := by
    rw [Int32.toInt_sub]
    apply Int.bmod_eq_of_le <;> omega
  rw [← Int32.toInt_toInt64] at hsub
  have hnat : (iovLen len done).toNat = (len - done).toInt64.toNatClampNeg :=
    Int64.toNat_toBitVec_of_le (by rw [Int64.le_iff_toInt_le, hsub]; simpa using h)
  rw [hnat, Int64.toNatClampNeg, hsub]
  omega

section Rounds

variable {σ : Type} {call : Call σ} {len : Int32} {t t' : Progress σ}

theorem sockRound_end (t : Progress σ) (h : ¬ t.done < len) : sockRound call len t = .inr (t.done, t.env) := if_neg h

theorem sockRound_fail (t : Progress σ) (h : t.done < len)
    (hret : (call t.done.toInt (iovLen len t.done) t.env).1 ≤ 0) :
    sockRound call len t = .inr (errorOf (call t.done.toInt (iovLen len t.done) t.env).1,
      (call t.done.toInt (iovLen len t.done) t.env).2) := (if_pos h).trans (if_pos hret)

theorem sockRound_more (t : Progress σ) (h : t.done < len)
    (hret : ¬ (call t.done.toInt (iovLen len t.done) t.env).1 ≤ 0) :
    sockRound call len t = .inl ⟨t.done + (call t.done.toInt (iovLen len t.done) t.env).1,
      (call t.done.toInt (iovLen len t.done) t.env).2⟩ := (if_pos h).trans (if_neg hret)

/-- A round that goes on: the call transferred something, and no more than is missing. -/
theorem sockRound_inl (hcall : ∀ offset size env, (call offset size env).1.toInt ≤ size.toNat)
    (h0 : 0 ≤ t.done.toInt) (h : sockRound call len t = .inl t') :
    ∃ size, 0 < (call t.done.toInt size t.env).1.toInt ∧ t'.env = (call t.done.toInt size t.env).2 ∧
      t'.done.toInt = t.done.toInt + (call t.done.toInt size t.env).1.toInt ∧ t'.done.toInt ≤ len.toInt := by
  by_cases hlt : t.done < len
  · by_cases hret : (call t.done.toInt (iovLen len t.done) t.env).1 ≤ 0
    · rw [sockRound_fail t hlt hret] at h
      cases h
    · rw [sockRound_more t hlt hret] at h
      obtain rfl := Sum.inl.inj h
      have hle := hcall t.done.toInt (iovLen len t.done) t.env
      rw [Int32.lt_iff_toInt_lt] at hlt
      rw [Int32.le_iff_toInt_le, Int32.toInt_zero] at hret
      rw [toNat_iovLen h0 hlt.le] at hle
      have hmax := Int32.toInt_lt len
      refine ⟨iovLen len t.done, by omega, rfl, ?_⟩
      rw [toInt_done_add (by omega) (by omega)]
      omega
  · rw [sockRound_end t hlt] at h
    cases h

/-- Every round returns or raises the counter, and not beyond the length. -/
theorem sockRound_increases (hcall : ∀ offset size env, (call offset size env).1.toInt ≤ size.toNat)
    (h0 : 0 ≤ t.done) (h : sockRound call len t = .inl t') : t.done < t'.done ∧ t'.done ≤ len := by
  rw [Int32.le_iff_toInt_le, Int32.toInt_zero] at h0
  obtain ⟨size, hpos, -, hdone, hle⟩ := sockRound_inl hcall h0 h
  rw [Int32.lt_iff_toInt_lt, Int32.le_iff_toInt_le]
  omega

/-- A round that returns: the loop's condition is false, or the call failed. -/
theorem sockRound_inr {r : Int32 × σ} (h : sockRound call len t = .inr r) :
    (len.toInt ≤ t.done.toInt ∧ r = (t.done, t.env)) ∨
    (t.done.toInt < len.toInt ∧ r.1 < 0 ∧
      ∃ size, (call t.done.toInt size t.env).1.toInt ≤ 0 ∧ r.2 = (call t.done.toInt size t.env).2) := by
  by_cases hlt : t.done < len
  · by_cases hret : (call t.done.toInt (iovLen len t.done) t.env).1 ≤ 0
    · rw [sockRound_fail t hlt hret] at h
      obtain rfl := Sum.inr.inj h
      refine .inr ⟨Int32.lt_iff_toInt_lt.1 hlt, errorOf_neg hret, iovLen len t.done, ?_, rfl⟩
      rwa [Int32.le_iff_toInt_le, Int32.toInt_zero] at hret
    · rw [sockRound_more t hlt hret] at h
      cases h
  · rw [sockRound_end t hlt] at h
    obtain rfl := Sum.inr.inj h
    rw [Int32.lt_iff_toInt_lt] at hlt
    exact .inl ⟨by omega, rfl⟩

/-- The same progress, in related environments. -/
def SameProgress (R : σ → σ → Prop) (t t' : Progress σ) : Prop := t.done = t'.done ∧ R t.env t'.env

/-- Calls that do not tell related environments apart. -/
def Blind (R : σ → σ → Prop) (call : Call σ) : Prop :=
  ∀ offset size env env', R env env' →
    (call offset size env).1 = (call offset size env').1 ∧ R (call offset size env).2 (call offset size env').2

theorem sockRound_rel {R : σ → σ → Prop} (hcall : Blind R call) (t t' : Progress σ) (h : SameProgress R t t') :
    Sum.LiftRel (SameProgress R) (fun r r' => r.1 = r'.1) (sockRound call len t) (sockRound call len t') := by
  obtain ⟨done, env⟩ := t
  obtain ⟨done', env'⟩ := t'
  obtain ⟨rfl, henv⟩ := h
  obtain ⟨hret, henv'⟩ := hcall done.toInt (iovLen len done) env env' henv
  by_cases hlt : done < len
  · by_cases hle : (call done.toInt (iovLen len done) env).1 ≤ 0
    · rw [sockRound_fail ⟨done, env⟩ hlt hle, sockRound_fail ⟨done, env'⟩ hlt (hret ▸ hle)]
      exact .inr (congrArg errorOf hret)
    · rw [sockRound_more ⟨done, env⟩ hlt hle, sockRound_more ⟨done, env'⟩ hlt (hret ▸ hle)]
      exact .inl ⟨congrArg (done + ·) hret, henv'⟩
  · rw [sockRound_end ⟨done, env⟩ hlt, sockRound_end ⟨done, env'⟩ hlt]
    exact .inr rfl

end Rounds

/-! ## Whole loops -/

section Total

variable {σ : Type} {P : Nat → σ → Prop} {call : Call σ} {len : Int32}
  {t : Progress σ} {env : σ}

/-- A call transfers as many bytes as it returns, at most those it is asked for, where `P k` says that the first `k`
bytes are transferred. -/
structure Transfers (P : Nat → σ → Prop) (call : Call σ) : Prop where
  le : ∀ offset size env, (call offset size env).1.toInt ≤ size.toNat
  adds : ∀ (k : Nat) size env, P k env → P (k + (call k size env).1.toInt.toNat) (call k size env).2

/-- How a loop ends. -/
inductive Ends (P : Nat → σ → Prop) (len : Int32) : Int32 × σ → Prop
  | whole {env : σ} (h : P len.toInt.toNat env) : Ends P len (len, env)
  | part {ret : Int32} {env : σ} {k : Nat} (hneg : ret < 0) (hk : k < len.toInt.toNat) (h : P k env) :
      Ends P len (ret, env)

/-- The invariant of the loops: the counter is within the buffer and counts what is transferred. -/
def Counted (P : Nat → σ → Prop) (len : Int32) (t : Progress σ) : Prop :=
  ∃ k : Nat, t.done.toInt = k ∧ (k : Int) ≤ len.toInt ∧ P k t.env

theorem Counted.go (hcall : Transfers P call) (h : Counted P len t) {t' : Progress σ}
    (hround : sockRound call len t = .inl t') :
    Counted P len t' ∧ (len.toInt - t'.done.toInt).toNat < (len.toInt - t.done.toInt).toNat := by
  obtain ⟨k, hk, hle, hP⟩ := h
  obtain ⟨size, hpos, henv, hdone, hle'⟩ := sockRound_inl hcall.le (by omega) hround
  rw [hk] at hpos henv hdone
  have hadds := hcall.adds k size t.env hP
  rw [← henv] at hadds
  exact ⟨⟨_, by omega, by omega, hadds⟩, by omega⟩

theorem Counted.leave (hcall : Transfers P call) (h : Counted P len t) {r : Int32 × σ}
    (hround : sockRound call len t = .inr r) : Ends P len r := by
  obtain ⟨k, hk, hle, hP⟩ := h
  rcases sockRound_inr hround with ⟨hge, rfl⟩ | ⟨hlt, hneg, size, hret, henv⟩
  · have hlen : t.done = len := Int32.toInt_inj.1 (by omega)
    subst hlen
    refine .whole ?_
    rwa [hk, Int.toNat_natCast]
  · -- A failed call transfers nothing.
    rw [hk] at hret henv
    have hadds := hcall.adds k size t.env hP
    rw [← henv, Int.toNat_of_nonpos hret, Nat.add_zero] at hadds
    exact .part hneg (by omega) hadds

/-- Only the whole buffer gives the length. -/
theorem Ends.eq_len_iff {ret : Int32} (h : Ends P len (ret, env)) (hlen : 0 < len.toInt)
    (hunique : ∀ k m, P k env → P m env → k = m) : ret = len ↔ P len.toInt.toNat env := by
  cases h with
  | whole h => exact ⟨fun _ => h, fun _ => rfl⟩
  | part hneg hk h =>
    rw [Int32.lt_iff_toInt_lt, Int32.toInt_zero] at hneg
    constructor
    · rintro rfl
      omega
    · intro hall
      have heq := hunique _ _ h hall
      omega

theorem Ends.of_ne_len {ret : Int32} (h : Ends P len (ret, env)) (hne : ret ≠ len) :
    ret < 0 ∧ ∃ k < len.toInt.toNat, P k env := by
  cases h with
  | whole h => exact absurd rfl hne
  | part hneg hk h => exact ⟨hneg, _, hk, h⟩

/-- Both loops end, whatever the calls return. -/
theorem sockLoop_total (hcall : Transfers P call) (hlen : 0 ≤ len.toInt) (h : P 0 env) :
    ∃ r, Ends P len r ∧ ∀ rounds : Nat, len.toInt < rounds → sockLoop call len rounds env = some r := by
  have hstart : Counted P len ⟨0, env⟩ := ⟨0, rfl, hlen, h⟩
  obtain ⟨r, hends, hrounds⟩ := iterate_total (Counted P len) (fun t => (len.toInt - t.done.toInt).toNat)
    (Ends P len) (fun _ _ h hgo => h.go hcall hgo) (fun _ _ h hleave => h.leave hcall hleave) hstart
  refine ⟨r, hends, fun rounds hlt => hrounds rounds ?_⟩
  rw [Int32.toInt_zero]
  omega

end Total

/-! ## Sending -/

/-- The first `k` bytes of the buffer are appended to what was on the stream. -/
def Sent (buf : Mem) (out : List Byte) (k : Nat) (s : Sink) : Prop := s.stream = out ++ bytesAt buf 0 k

section Send

variable (rs : Results) (buf : Mem) {len : Int32} {s : Sink}

theorem kernelSendmsg_transfers (out : List Byte) : Transfers (Sent buf out) (kernelSendmsg rs buf) where
  le _ _ _ := rs.ret_le _ _
  adds k size env h := by
    rw [Sent] at h ⊢
    simp only [kernelSendmsg, h, bytesAt_add, List.append_assoc]

theorem uckSockSend_total (hlen : 0 ≤ len.toInt) (s : Sink) :
    ∃ r, Ends (Sent buf s.stream) len r ∧
      ∀ rounds : Nat, len.toInt < rounds → uckSockSend rs buf len rounds s = some r :=
  sockLoop_total (kernelSendmsg_transfers rs buf s.stream) hlen (by simp [Sent])

/-- Different numbers of sent bytes leave different streams. -/
theorem Sent.unique {out : List Byte} {k m : Nat} (hk : Sent buf out k s) (hm : Sent buf out m s) : k = m := by
  have heq : out ++ bytesAt buf 0 k = out ++ bytesAt buf 0 m := hk.symm.trans hm
  simpa using congrArg List.length heq

end Send

/-! ## Receiving -/

/-- The next `k` bytes of the stream are taken and stand at the start of the buffer; the other memory is as before. -/
def Received (stream : Nat → Byte) (pos : Nat) (mem : Mem) (k : Nat) (s : Source) : Prop :=
  s.taken = pos + k ∧ s.buf = store mem 0 k stream pos

section Receive

variable (rs : Results) (stream : Nat → Byte) {len : Int32}

theorem kernelRecvmsg_transfers (pos : Nat) (mem : Mem) :
    Transfers (Received stream pos mem) (kernelRecvmsg rs stream) where
  le _ _ _ := rs.ret_le _ _
  adds k size env h := by
    obtain ⟨htaken, hbuf⟩ := h
    constructor
    · simp only [kernelRecvmsg, htaken, Nat.add_assoc]
    · simp only [kernelRecvmsg, htaken, hbuf, store_store]

theorem uckSockRecv_total (hlen : 0 ≤ len.toInt) (s : Source) :
    ∃ r, Ends (Received stream s.taken s.buf) len r ∧
      ∀ rounds : Nat, len.toInt < rounds → uckSockRecv rs stream len rounds s = some r :=
  sockLoop_total (kernelRecvmsg_transfers rs stream s.taken s.buf) hlen ⟨rfl, by simp⟩

theorem Received.unique {stream : Nat → Byte} {pos k m : Nat} {mem : Mem} {s : Source}
    (hk : Received stream pos mem k s) (hm : Received stream pos mem m s) : k = m :=
  Nat.add_left_cancel (hk.1.symm.trans hm.1)

/-- Sockets that differ in the memory of the receiver only. -/
def SameCalls (s s' : Source) : Prop := s.calls = s'.calls ∧ s.taken = s'.taken

theorem kernelRecvmsg_blind : Blind SameCalls (kernelRecvmsg rs stream) := by
  intro offset size s s' h
  obtain ⟨hcalls, htaken⟩ := h
  simp only [kernelRecvmsg, SameCalls, hcalls, htaken, and_self]

/-- The result of a receive does not depend on the memory. -/
theorem uckSockRecv_fst {rounds calls taken : Nat} {mem mem' : Mem} {r r' : Int32 × Source}
    (h : uckSockRecv rs stream len rounds ⟨calls, taken, mem⟩ = some r)
    (h' : uckSockRecv rs stream len rounds ⟨calls, taken, mem'⟩ = some r') : r.1 = r'.1 := by
  have hstart : SameProgress SameCalls ⟨0, calls, taken, mem⟩ ⟨0, calls, taken, mem'⟩ := ⟨rfl, rfl, rfl⟩
  obtain ⟨p, hp, hret⟩ := iterate_rel (sockRound_rel (kernelRecvmsg_blind rs stream)) hstart h
  obtain rfl := Option.some.inj (h'.symm.trans hp)
  exact hret

end Receive

/-! ## Both loops -/

/-- Memory that differs from what will be received. -/
def otherThan (stream : Nat → Byte) (pos : Nat) : Mem := fun a => stream (pos + a.toNat) + 1

theorem bytesAt_store_otherThan {stream : Nat → Byte} {pos k n : Nat} (hk : k < n) :
    bytesAt (store (otherThan stream pos) 0 k stream pos) 0 n ≠ bytesFrom stream pos n := by
  intro heq
  have hbyte := List.map_inj_left.1 heq k (List.mem_range.2 hk)
  rw [store, if_neg (by omega), otherThan] at hbyte
  simp at hbyte

/-- **The socket loops transfer exactly the buffer.** Whatever the calls return, `uck_sock_send` returns the length
just when it has appended the buffer to the stream, and otherwise a negative error with a proper part of the buffer
appended. `uck_sock_recv` returns the length just when it has taken the next bytes of the stream into the buffer, which
then holds them whatever it held before; otherwise it returns a negative error. Every round returns or raises the
counter. -/
theorem sock_loops_exact (rs : Results) (len : Int32) (hlen : 1 ≤ len) :
    (∀ (buf : Mem) (s : Sink), ∃ ret s',
      (∀ rounds : Nat, len.toInt < rounds → uckSockSend rs buf len rounds s = some (ret, s')) ∧
      (ret = len ↔ s'.stream = s.stream ++ bytesAt buf 0 len.toInt.toNat) ∧
      (ret ≠ len → ret < 0 ∧ ∃ k < len.toInt.toNat, s'.stream = s.stream ++ bytesAt buf 0 k)) ∧
    (∀ (stream : Nat → Byte) (calls taken : Nat), ∃ (ret : Int32) (final : Mem → Source),
      (∀ mem, (∀ rounds : Nat, len.toInt < rounds →
          uckSockRecv rs stream len rounds ⟨calls, taken, mem⟩ = some (ret, final mem)) ∧
        (ret = len ↔ Received stream taken mem len.toInt.toNat (final mem)) ∧
        (ret ≠ len → ret < 0 ∧ ∃ k < len.toInt.toNat, Received stream taken mem k (final mem))) ∧
      (ret = len ↔ ∀ mem, bytesAt (final mem).buf 0 len.toInt.toNat = bytesFrom stream taken len.toInt.toNat)) ∧
    (∀ (buf : Mem) (t t' : Progress Sink), 0 ≤ t.done → sockRound (kernelSendmsg rs buf) len t = .inl t' →
      t.done < t'.done ∧ t'.done ≤ len) ∧
    (∀ (stream : Nat → Byte) (t t' : Progress Source), 0 ≤ t.done →
      sockRound (kernelRecvmsg rs stream) len t = .inl t' → t.done < t'.done ∧ t'.done ≤ len) := by
  have hpos : 0 < len.toInt := Int32.le_iff_toInt_le.1 hlen
  refine ⟨fun buf s => ?_, fun stream calls taken => ?_, fun buf t t' => ?_, fun stream t t' => ?_⟩
  · obtain ⟨⟨ret, s'⟩, hends, hrounds⟩ := uckSockSend_total rs buf hpos.le s
    exact ⟨ret, s', hrounds, hends.eq_len_iff hpos (fun _ _ => Sent.unique buf), hends.of_ne_len⟩
  · choose r hends hrounds using fun mem => uckSockRecv_total rs stream hpos.le ⟨calls, taken, mem⟩
    -- One result for all memories: that of the run over any of them.
    have hret : ∀ mem, (r mem).1 = (r (otherThan stream taken)).1 := by
      intro mem
      have hlt : len.toInt < (len.toInt.toNat + 1 : Nat) := by omega
      exact uckSockRecv_fst rs stream (hrounds mem _ hlt) (hrounds _ _ hlt)
    refine ⟨(r (otherThan stream taken)).1, fun mem => (r mem).2, fun mem => ?_, fun heq mem => ?_, fun hall => ?_⟩
    · rw [← hret mem]
      exact ⟨hrounds mem, (hends mem).eq_len_iff hpos (fun _ _ => Received.unique), (hends mem).of_ne_len⟩
    · obtain ⟨-, hbuf⟩ := ((hends mem).eq_len_iff hpos fun _ _ => Received.unique).1 ((hret mem).trans heq)
      rw [hbuf, bytesAt_store]
    · by_contra hne
      obtain ⟨-, k, hk, -, hbuf⟩ := (hends _).of_ne_len hne
      have hholds := hall (otherThan stream taken)
      rw [hbuf] at hholds
      exact bytesAt_store_otherThan hk hholds
  · exact sockRound_increases (kernelSendmsg_transfers rs buf []).le
  · exact sockRound_increases (kernelRecvmsg_transfers rs stream 0 (memOf [])).le

/-- Calls that transfer one byte each. -/
def oneByOne : Results := ⟨fun _ size => if size = 0 then 0 else 1, by
  intro _ size
  split
  · exact Int.natCast_nonneg _
  · rename_i hne
    have hnat : size.toNat ≠ 0 := fun h => hne (UInt64.toNat_inj.1 h)
    show (1 : Int) ≤ size.toNat
    omega⟩

/-- A stream that counts from 7 on. -/
def fromSeven (i : Nat) : Byte := UInt8.ofNat (7 + i)

/-- Two bytes are sent, and two are received over what is in memory. -/
theorem sock_loops_exact_oneByOne : (1 : Int32) ≤ 2 ∧
    (∃ s', (∀ rounds : Nat, 2 < rounds → uckSockSend oneByOne (memOf [7, 8]) 2 rounds ⟨0, [1]⟩ = some (2, s')) ∧
      s'.stream = [1] ++ bytesAt (memOf [7, 8]) 0 2) ∧
    ∃ final : Mem → Source, ∀ mem,
      (∀ rounds : Nat, 2 < rounds → uckSockRecv oneByOne fromSeven 2 rounds ⟨0, 3, mem⟩ = some (2, final mem)) ∧
      bytesAt (final mem).buf 0 2 = [10, 11] := by
  obtain ⟨hsend, hrecv, -⟩ := sock_loops_exact oneByOne 2 (by decide)
  refine ⟨by decide, ?_, ?_⟩
  · obtain ⟨ret, s', hrounds, hiff, -⟩ := hsend (memOf [7, 8]) ⟨0, [1]⟩
    have hrun : uckSockSend oneByOne (memOf [7, 8]) 2 3 ⟨0, [1]⟩ = some (2, ⟨2, [1, 7, 8]⟩) := by decide
    have hret : ret = 2 := by
      rw [hrounds 3 (by decide)] at hrun
      cases hrun
      rfl
    subst hret
    exact ⟨s', fun rounds h => hrounds rounds (Int.ofNat_lt.2 h), hiff.1 rfl⟩
  · obtain ⟨ret, final, hmem, hiff⟩ := hrecv fromSeven 0 3
    have hrun : (uckSockRecv oneByOne fromSeven 2 3 ⟨0, 3, memOf []⟩).map (·.1) = some 2 := by decide
    have hret : ret = 2 := by
      rw [(hmem (memOf [])).1 3 (by decide)] at hrun
      exact Option.some.inj hrun
    subst hret
    refine ⟨final, fun mem => ⟨fun rounds h => (hmem mem).1 rounds (Int.ofNat_lt.2 h), ?_⟩⟩
    exact (hiff.1 rfl mem).trans (by decide)

/-! ## Messages -/

/-- `ret = …; if (ret < 0) return ret;`, and what follows. -/
def orFail (r : Option (Int32 × Sink)) (next : Sink → Option (Int32 × Sink)) : Option (Int32 × Sink) :=
  r.bind fun (ret, s) => if ret < 0 then some (ret, s) else next s

theorem orFail_neg {ret : Int32} (h : ret < 0) (s : Sink) (next : Sink → Option (Int32 × Sink)) :
    orFail (some (ret, s)) next = some (ret, s) := if_pos h

theorem orFail_ok {ret : Int32} (h : ¬ ret < 0) (s : Sink) (next : Sink → Option (Int32 × Sink)) :
    orFail (some (ret, s)) next = next s := if_neg h

/-- `uck_net_send_msg`; a payload is a pointer, which may be null. -/
def uckNetSendMsg (rs : Results) (hdr : MsgHdr) (payload : Option Mem) (payloadLen : Int32) (rounds : Nat) (s : Sink) :
    Option (Int32 × Sink) :=
  orFail (uckSockSend rs (memOf (MsgHdr.codec.enc hdr)) (Int32.ofNat MsgHdr.codec.size) rounds s) fun s =>
    match payload with
    | some payload =>
      if 0 < payloadLen then orFail (uckSockSend rs payload payloadLen rounds s) fun s => some (0, s) else some (0, s)
    | none => some (0, s)

/-- Given enough rounds, a sender returns 0 with these bytes appended to the stream, or a negative error with a proper
part of them appended. -/
def Delivers (s : Sink) (bytes : List Byte) (send : Nat → Option (Int32 × Sink)) : Prop :=
  ∃ ret s', (∃ least, ∀ rounds, least < rounds → send rounds = some (ret, s')) ∧
    ((ret = 0 ∧ s'.stream = s.stream ++ bytes) ∨
      (ret < 0 ∧ ∃ part rest, rest ≠ [] ∧ part ++ rest = bytes ∧ s'.stream = s.stream ++ part))

section Messages

variable (rs : Results)

theorem delivers_nil (s : Sink) : Delivers s [] fun _ => some (0, s) :=
  ⟨0, s, ⟨0, fun _ _ => rfl⟩, .inl ⟨rfl, by simp⟩⟩

/-- A buffer goes out before what follows. -/
theorem delivers_orFail (buf : Mem) {len : Int32} (hlen : 0 ≤ len.toInt) {s : Sink} {tail : List Byte}
    {next : Nat → Sink → Option (Int32 × Sink)} (hnext : ∀ s', Delivers s' tail fun rounds => next rounds s') :
    Delivers s (bytesAt buf 0 len.toInt.toNat ++ tail) fun rounds =>
      orFail (uckSockSend rs buf len rounds s) (next rounds) := by
  obtain ⟨r, hends, hrounds⟩ := uckSockSend_total rs buf hlen s
  cases hends with
  | @whole s₁ hsent =>
    have hpos : ¬ len < 0 := by
      rw [Int32.lt_iff_toInt_lt, Int32.toInt_zero]
      omega
    obtain ⟨ret, s', ⟨least, hend⟩, hres⟩ := hnext s₁
    rw [Sent] at hsent
    refine ⟨ret, s', ⟨max least len.toInt.toNat, fun rounds h => ?_⟩, ?_⟩
    · show orFail (uckSockSend rs buf len rounds s) (next rounds) = some (ret, s')
      rw [hrounds rounds (by omega), orFail_ok hpos]
      exact hend rounds (by omega)
    · rcases hres with ⟨hret, hstream⟩ | ⟨hneg, part, rest, hne, heq, hstream⟩
      · exact .inl ⟨hret, by rw [hstream, hsent, List.append_assoc]⟩
      · refine .inr ⟨hneg, bytesAt buf 0 len.toInt.toNat ++ part, rest, hne, ?_, ?_⟩
        · rw [List.append_assoc, heq]
        · rw [hstream, hsent, List.append_assoc]
  | @part ret s₁ k hneg hk hsent =>
    obtain ⟨rest, hne, heq⟩ := bytesAt_part buf hk
    refine ⟨ret, s₁, ⟨len.toInt.toNat, fun rounds h => ?_⟩, .inr ⟨hneg, bytesAt buf 0 k, rest ++ tail, ?_, ?_, hsent⟩⟩
    · show orFail (uckSockSend rs buf len rounds s) (next rounds) = some (ret, s₁)
      rw [hrounds rounds (by omega), orFail_neg hneg]
    · simp [hne]
    · rw [← List.append_assoc, heq]

/-- The bytes that `payload` and `payload_len` stand for. -/
def payloadBytes (payload : Option Mem) (payloadLen : Int32) : List Byte :=
  payload.elim [] fun p => bytesAt p 0 payloadLen.toInt.toNat

/-- The bytes that the code of a sender appends. -/
def emitted (c : Senders.Code) : List Byte :=
  c.flatMap fun
    | .emit x => x.bytes
    | .lock => []
    | .unlock => []

theorem emitted_uckNetSendMsg (hdr : MsgHdr) (bs : List Byte) :
    emitted (Senders.uckNetSendMsg hdr bs) = MsgHdr.codec.enc hdr ++ bs := by
  unfold Senders.uckNetSendMsg
  split
  · rename_i hnil
    simp [emitted, Senders.Chunk.bytes, hnil]
  · simp [emitted, Senders.Chunk.bytes]

/-- `uck_net_send_msg` appends the header and the payload as the senders emit them, or fails with a part of them. -/
theorem uckNetSendMsg_total (hdr : MsgHdr) (payload : Option Mem) (payloadLen : Int32) (s : Sink) :
    Delivers s (emitted (Senders.uckNetSendMsg hdr (payloadBytes payload payloadLen))) fun rounds =>
      uckNetSendMsg rs hdr payload payloadLen rounds s := by
  have hhdr : bytesAt (memOf (MsgHdr.codec.enc hdr)) 0 (Int32.ofNat MsgHdr.codec.size).toInt.toNat =
      MsgHdr.codec.enc hdr := by
    have h := bytesAt_memOf (MsgHdr.codec.enc hdr)
    rwa [MsgHdr.codec.length_enc] at h
  rw [emitted_uckNetSendMsg, ← hhdr]
  refine delivers_orFail rs _ (by decide) fun s' => ?_
  cases payload with
  | none => exact delivers_nil s'
  | some p =>
    by_cases hpos : 0 < payloadLen
    · simp only [if_pos hpos]
      have hle : 0 ≤ payloadLen.toInt := (Int32.lt_iff_toInt_lt.1 hpos).le
      rw [← List.append_nil (payloadBytes _ _)]
      exact delivers_orFail rs p hle delivers_nil
    · simp only [if_neg hpos]
      rw [Int32.lt_iff_toInt_lt, Int32.toInt_zero, not_lt] at hpos
      have hnil : payloadBytes (some p) payloadLen = [] := by
        rw [payloadBytes, Option.elim_some, Int.toNat_of_nonpos hpos, bytesAt_zero]
      rw [hnil]
      exact delivers_nil s'

end Messages

/-! ## The receives of a connection -/

/-- A receive that has got some bytes, with more of them to come on the stream. -/
structure Follows (stream : Nat → Byte) (got inq : List Byte) (t : Progress Source) : Prop where
  done : t.done.toInt = got.length
  buf : bytesAt t.env.buf 0 got.length = got
  inq : bytesFrom stream t.env.taken inq.length = inq

section Connection

variable {rs : Results} {stream : Nat → Byte} {got inq : List Byte} {t : Progress Source} {k : Nat}

theorem toInt_phaseLen (ph : Net.Phase) : (Int32.ofNat ph.len).toInt = ph.len := by
  cases ph <;> rfl

/-- A call that returns the next `k` bytes. -/
theorem Follows.next (h : Follows stream got inq t) {len : Int32} (hpos : 0 < k) (hk : k ≤ inq.length)
    (hlen : (got.length + k : Int) ≤ len.toInt) (hret : (rs.ret t.env.calls (iovLen len t.done)).toInt = k) :
    ∃ t', sockRound (kernelRecvmsg rs stream) len t = .inl t' ∧ Follows stream (got ++ inq.take k) (inq.drop k) t' := by
  have hdone := h.done
  have hlt : t.done < len := by
    rw [Int32.lt_iff_toInt_lt]
    omega
  have hnot : ¬ rs.ret t.env.calls (iovLen len t.done) ≤ 0 := by
    rw [Int32.le_iff_toInt_le, Int32.toInt_zero]
    omega
  have hmax := Int32.toInt_lt len
  have hcount : (rs.ret t.env.calls (iovLen len t.done)).toInt.toNat = k := by rw [hret, Int.toNat_natCast]
  have hlength : (got ++ inq.take k).length = got.length + k := by rw [List.length_append, List.length_take_of_le hk]
  obtain ⟨htake, hdrop⟩ := bytesFrom_cut h.inq hk
  refine ⟨_, sockRound_more t hlt hnot, ?_, ?_, ?_⟩
  · show (t.done + rs.ret t.env.calls (iovLen len t.done)).toInt = _
    rw [toInt_done_add (by omega) (by omega), hlength, hdone, hret, Int.natCast_add]
  · show bytesAt (store t.env.buf t.done.toInt _ stream t.env.taken) 0 _ = _
    rw [hcount, hlength, hdone, bytesAt_add, bytesAt_store_of_le (le_refl _), bytesAt_store, h.buf, htake]
  · show bytesFrom stream (t.env.taken + _) _ = _
    rw [hcount, hdrop]

/-- **The receives of a connection are the rounds of `uck_sock_recv`.** After each the loop has got what the connection
says; when the phase's length is reached, the loop returns it, and the connection goes on with the buffer's bytes. -/
theorem stepRecv_follows {s s' : Net.Conn} {f : Net.Fetch} {ph : Net.Phase} (h : Follows stream got s.inq t)
    (hstep : s.stepRecv f ph got k = some s')
    (hret : (rs.ret t.env.calls (iovLen (Int32.ofNat ph.len) t.done)).toInt = k) :
    ∃ t', sockRound (kernelRecvmsg rs stream) (Int32.ofNat ph.len) t = .inl t' ∧
      Follows stream (got ++ s.inq.take k) s'.inq t' ∧
      (s'.client = .receiving f ph (got ++ s.inq.take k) ∨
        sockRound (kernelRecvmsg rs stream) (Int32.ofNat ph.len) t' = .inr (Int32.ofNat ph.len, t'.env) ∧
          s'.client = f.received (bytesAt t'.env.buf 0 ph.len) ph) := by
  simp only [Net.Conn.stepRecv, Option.ite_none_right_eq_some] at hstep
  obtain ⟨⟨hpos, hk, hle⟩, hstep⟩ := hstep
  have hlen := toInt_phaseLen ph
  obtain ⟨t', hround, hfollows⟩ := h.next hpos hk (by omega) hret
  refine ⟨t', hround, ?_⟩
  split at hstep
  · rename_i hfull
    cases hstep
    have hdone : t'.done = Int32.ofNat ph.len := by
      rw [← Int32.toInt_inj, hfollows.done, hlen, hfull]
    refine ⟨hfollows, .inr ⟨?_, ?_⟩⟩
    · rw [sockRound_end t' (by rw [hdone]; exact Int32.lt_irrefl), hdone]
    · rw [← hfull, hfollows.buf]
  · cases hstep
    exact ⟨hfollows, .inl rfl⟩

end Connection

end UckSmp.SockLoop
