import Mathlib.Algebra.Group.Nat.Defs
import Mathlib.Data.Finset.Card
import UckSmp.Lib.Credit
import UckSmp.Membership.Table

/-!
# The rate limit of incoming messages

`uck_ratelimit.c`: a token bucket for every node that has sent a message, in a table of fixed size. The times of the
calls are counted in ticks from any point on and do not wrap; the code sees them as `jiffies`, 64 bits wide. Calls come
one after the other.

* `spent`: a bucket pays for every message that it lets through.
* `token_bucket_bound`: how many messages of a node get through in a window of time.
* `limited_iff`: when every node whose messages get through has a bucket.
-/

namespace UckSmp.Net

open Lib.Slots
open Lib.Transition
open UckSmp.Membership (uckMaxNodes)

/-! ## Code -/

/-- `struct uck_node_ratelimit`, without its lock. -/
structure NodeRatelimit where
  nodeId : UInt32
  tokens : UInt64
  lastRefill : UInt64
  maxTokens : UInt64
  refillRate : UInt64
  deriving DecidableEq, Repr

/-- `node_limits`, as far as it is in use, and `uck_state.err_ratelimit`. -/
structure Ratelimit where
  limits : List NodeRatelimit := []
  errRatelimit : UInt64 := 0
  deriving DecidableEq, Repr

/-- `time_before(a, b)`. -/
def timeBefore (a b : UInt64) : Bool := Membership.timeAfter b a

/-- `jiffies_to_msecs` of a kernel with 64 bits: the milliseconds of `j` ticks, rounded up, as a number of 32 bits.
Where `HZ` divides 1000 or is a multiple of it, one of the two factors is 1 and the kernel leaves it out. -/
def jiffiesToMsecs (hz : Nat) (j : UInt64) : UInt32 :=
  let num := UInt64.ofNat (1000 / Nat.gcd 1000 hz)
  let den := UInt64.ofNat (hz / Nat.gcd 1000 hz)
  ((num * j + (den - 1)) / den).toUInt32

/-- `uck_ratelimit_refill`. -/
def uckRatelimitRefill (hz : Nat) (now : UInt64) (rl : NodeRatelimit) : NodeRatelimit :=
  if timeBefore now rl.lastRefill then rl
  else
    let elapsedMs := (jiffiesToMsecs hz (now - rl.lastRefill)).toUInt64
    if 0 < elapsedMs then
      let sum := rl.tokens + rl.refillRate * elapsedMs / 1000
      { rl with tokens := if sum < rl.maxTokens then sum else rl.maxTokens, lastRefill := now }
    else rl

/-- A call of `uck_ratelimit_check_net`, at a time and with the module parameter as it is then. -/
structure Call where
  nodeId : UInt32
  now : Nat
  pageReqRate : UInt32 := 1000
  deriving DecidableEq, Repr

def Call.jiffies (c : Call) : UInt64 := UInt64.ofNat c.now

/-- The bucket of a node that was not known. -/
def Call.register (c : Call) : NodeRatelimit :=
  ⟨c.nodeId, c.pageReqRate.toUInt64, c.jiffies, c.pageReqRate.toUInt64, c.pageReqRate.toUInt64⟩

/-- `uck_ratelimit_init`. -/
def uckRatelimitInit : Ratelimit := {}

namespace Ratelimit

variable (hz : Nat) (s : Ratelimit)

/-- The bucket that the loop of `uck_ratelimit_check_net` stops at. -/
def slot (nodeId : UInt32) : Option Nat := slotOf NodeRatelimit.nodeId s.limits nodeId

def bucket (nodeId : UInt32) : Option NodeRatelimit := lookup NodeRatelimit.nodeId s.limits nodeId

/-- `uck_ratelimit_check_net`. -/
def uckRatelimitCheckNet (c : Call) : Bool × Ratelimit :=
  match s.slot c.nodeId with
  | some i =>
    let limits := s.limits.modify i (uckRatelimitRefill hz c.jiffies)
    if limits[i]?.any fun rl => 0 < rl.tokens then
      (true, { s with limits := limits.modify i fun rl => { rl with tokens := rl.tokens - 1 } })
    else (false, { limits, errRatelimit := s.errRatelimit + 1 })
  | none =>
    -- an unknown node is let through, whether it can be registered or not
    if s.limits.length < uckMaxNodes then (true, { s with limits := s.limits ++ [c.register] }) else (true, s)

/-- A call always returns. -/
def step (c : Call) : Option Ratelimit := some (s.uckRatelimitCheckNet hz c).2

end Ratelimit

/-! ## Statement -/

/-- Milliseconds per tick, where `HZ` divides 1000. -/
def tickMs (hz : Nat) : Nat := 1000 / hz

/-- A call for this node that returns true. -/
def Ratelimit.admits (hz : Nat) (nodeId : UInt32) (s : Ratelimit) (c : Call) : Nat :=
  if c.nodeId = nodeId then (s.uckRatelimitCheckNet hz c).1.toNat else 0

/-- How many of the calls for this node return true. -/
def Ratelimit.admitted (hz : Nat) (nodeId : UInt32) (s : Ratelimit) (calls : List Call) : Nat :=
  Lib.Credit.total (Ratelimit.step hz) (Ratelimit.admits hz nodeId) s calls

/-- No bucket holds more than it may. -/
def Ratelimit.Capped (s : Ratelimit) : Prop := ∀ rl ∈ s.limits, rl.tokens ≤ rl.maxTokens

/-- If the call returns true, its node has a bucket after it. -/
def Ratelimit.Limited (hz : Nat) (s : Ratelimit) (c : Call) : Prop :=
  (s.uckRatelimitCheckNet hz c).1 = true → ((s.uckRatelimitCheckNet hz c).2.bucket c.nodeId).isSome = true

/-! ## One bucket -/

/-- The milliseconds since the last refill, as the code computes them at a time. -/
def NodeRatelimit.elapsedMs (hz : Nat) (rl : NodeRatelimit) (now : Nat) : Nat :=
  if timeBefore (UInt64.ofNat now) rl.lastRefill then 0
  else (jiffiesToMsecs hz (UInt64.ofNat now - rl.lastRefill)).toNat

/-- Nothing is rounded where `HZ` divides 1000. -/
theorem toNat_jiffiesToMsecs {hz : Nat} (hhz : hz ∣ 1000) (j : UInt64) :
    (jiffiesToMsecs hz j).toNat = tickMs hz * j.toNat % 2 ^ 32 := by
  have hdvd : (2 : Nat) ^ 32 ∣ 2 ^ 64 := by decide
  have hden : UInt64.ofNat (hz / hz) = 1 := by
    rw [Nat.div_self (Nat.pos_of_dvd_of_pos hhz (by decide))]
    rfl
  have hms : jiffiesToMsecs hz j = (UInt64.ofNat (tickMs hz) * j).toUInt32 := by
    unfold jiffiesToMsecs
    rw [Nat.gcd_eq_right hhz, hden, tickMs]
    simp
  rw [hms, UInt64.toNat_toUInt32, UInt64.toNat_mul, UInt64.toNat_ofNat', Nat.mod_mod_of_dvd _ hdvd,
    Nat.mul_mod, Nat.mod_mod_of_dvd _ hdvd, ← Nat.mul_mod]

/-- What is left of a product with `m` modulo `n` grows by at most `m` times what is added. -/
theorem mul_add_mod_le (m n d k : Nat) : m * (d + k) % n ≤ m * d % n + m * k := by
  rw [Nat.mul_add, Nat.add_mod]
  exact Nat.le_trans (Nat.mod_le _ _) (Nat.add_le_add_left (Nat.mod_le _ _) _)

/-- Not more time goes by for the code than in truth. -/
theorem NodeRatelimit.elapsedMs_le {hz : Nat} (hhz : hz ∣ 1000) (rl : NodeRatelimit) {a b : Nat} (h : a ≤ b) :
    rl.elapsedMs hz b ≤ rl.elapsedMs hz a + tickMs hz * (b - a) := by
  obtain ⟨k, rfl⟩ := Nat.exists_eq_add_of_le h
  have hlt := rl.lastRefill.toNat_lt
  have hsub : ∀ n : Nat, (UInt64.ofNat n - rl.lastRefill).toNat = (n + (2 ^ 64 - rl.lastRefill.toNat)) % 2 ^ 64 := by
    intro n
    rw [UInt64.toNat_sub, UInt64.toNat_ofNat']
    omega
  simp only [elapsedMs, timeBefore, Membership.timeAfter, toNat_jiffiesToMsecs hhz, hsub, decide_eq_true_eq,
    Nat.add_sub_cancel_left]
  generalize 2 ^ 64 - rl.lastRefill.toNat = c
  split
  · exact Nat.zero_le _
  · rename_i hafter
    -- either the difference has not wrapped since, or it is not more than the time since
    have hcases : (a + k + c) % 2 ^ 64 = (a + c) % 2 ^ 64 + k ∨ (a + k + c) % 2 ^ 64 ≤ k := by omega
    rcases hcases with heq | hle
    · rw [if_neg (by omega), heq]
      exact mul_add_mod_le _ _ _ _
    · have hmul := Nat.mul_le_mul_left (tickMs hz) hle
      have hmod := Nat.mod_le (tickMs hz * ((a + k + c) % 2 ^ 64)) (2 ^ 32)
      omega

/-- A bucket after a refill. -/
structure Refilled (hz now : Nat) (rl rl' : NodeRatelimit) : Prop where
  nodeId : rl'.nodeId = rl.nodeId
  maxTokens : rl'.maxTokens = rl.maxTokens
  refillRate : rl'.refillRate = rl.refillRate
  capped : rl'.tokens.toNat ≤ rl.maxTokens.toNat
  elapsed : rl'.elapsedMs hz now = 0
  tokens : 1000 * rl'.tokens.toNat ≤ 1000 * rl.tokens.toNat + rl.refillRate.toNat * rl.elapsedMs hz now

/-- The elapsed time is zero right after a refill. -/
theorem jiffiesToMsecs_self (hz : Nat) (j : UInt64) : (jiffiesToMsecs hz (j - j)).toNat = 0 := by
  have hdiv : ∀ den : UInt64, (den - 1) / den = 0 := by
    intro den
    by_cases hden : den = 0
    · rw [hden, UInt64.div_zero]
    · have hpos : 1 ≤ den :=
        UInt64.le_iff_toNat_le.2 (Nat.one_le_iff_ne_zero.2 fun h => hden (UInt64.toNat_inj.1 h))
      rw [← UInt64.toNat_inj, UInt64.toNat_div, UInt64.toNat_sub_of_le _ _ hpos]
      exact Nat.div_eq_of_lt (Nat.sub_lt hpos Nat.one_pos)
  unfold jiffiesToMsecs
  simp only [UInt64.sub_self, UInt64.mul_zero, UInt64.zero_add, hdiv]
  rfl

/-- A refill adds no more than has accrued, and nothing above the limit. -/
theorem refilled (hz now : Nat) {rl : NodeRatelimit} (h : rl.tokens ≤ rl.maxTokens) :
    Refilled hz now rl (uckRatelimitRefill hz (UInt64.ofNat now) rl) := by
  have hcap := UInt64.le_iff_toNat_le.1 h
  unfold uckRatelimitRefill
  split
  next hbefore =>
    exact ⟨rfl, rfl, rfl, hcap, if_pos hbefore, Nat.le_add_right _ _⟩
  next hafter =>
    have helapsed : rl.elapsedMs hz now = (jiffiesToMsecs hz (UInt64.ofNat now - rl.lastRefill)).toNat := if_neg hafter
    dsimp only
    split
    next hpos =>
      -- neither the product nor the sum can wrap to something larger
      have hsum : (rl.tokens + rl.refillRate * (jiffiesToMsecs hz (UInt64.ofNat now - rl.lastRefill)).toUInt64 /
          1000).toNat ≤ rl.tokens.toNat + rl.refillRate.toNat * rl.elapsedMs hz now / 1000 := by
        rw [helapsed, UInt64.toNat_add, UInt64.toNat_div, UInt64.toNat_mul, UInt32.toNat_toUInt64]
        exact Nat.le_trans (Nat.mod_le _ _) (Nat.add_le_add_left (Nat.div_le_div_right (Nat.mod_le _ _)) _)
      generalize rl.tokens + rl.refillRate * (jiffiesToMsecs hz (UInt64.ofNat now - rl.lastRefill)).toUInt64 / 1000 =
        sum at hsum
      have hmin : (if sum < rl.maxTokens then sum else rl.maxTokens).toNat = min sum.toNat rl.maxTokens.toNat := by
        split
        next hlt => rw [Nat.min_eq_left (Nat.le_of_lt (UInt64.lt_iff_toNat_lt.1 hlt))]
        next hge => rw [Nat.min_eq_right (UInt64.le_iff_toNat_le.1 (UInt64.not_lt.1 hge))]
      refine ⟨rfl, rfl, rfl, ?_, ?_, ?_⟩
      · rw [hmin]
        exact Nat.min_le_right _ _
      · show (if timeBefore (UInt64.ofNat now) (UInt64.ofNat now) then 0 else _) = 0
        rw [jiffiesToMsecs_self, ite_self]
      · rw [hmin]
        omega
    next hzero =>
      have hno : rl.elapsedMs hz now = 0 := by
        rw [helapsed, ← UInt32.toNat_toUInt64]
        exact Nat.eq_zero_of_not_pos hzero
      exact ⟨rfl, rfl, rfl, hcap, hno, Nat.le_add_right _ _⟩

/-- What a bucket is worth at a time, in thousandths of a token: its tokens and what has accrued, up to its limit. -/
def NodeRatelimit.credit (hz : Nat) (rl : NodeRatelimit) (now : Nat) : Nat :=
  min (1000 * rl.maxTokens.toNat) (1000 * rl.tokens.toNat + rl.refillRate.toNat * rl.elapsedMs hz now)

/-- The worth of a bucket grows at its rate. -/
theorem NodeRatelimit.credit_le {hz : Nat} (hhz : hz ∣ 1000) (rl : NodeRatelimit) {a b : Nat} (h : a ≤ b) :
    rl.credit hz b ≤ rl.credit hz a + rl.refillRate.toNat * tickMs hz * (b - a) := by
  have hmul := Nat.mul_le_mul_left rl.refillRate.toNat (rl.elapsedMs_le hhz h)
  rw [Nat.mul_add, ← Nat.mul_assoc] at hmul
  unfold credit
  omega

theorem NodeRatelimit.credit_le_tokens {hz now : Nat} {rl : NodeRatelimit} (h : rl.elapsedMs hz now = 0) :
    rl.credit hz now ≤ 1000 * rl.tokens.toNat := by
  rw [credit, h, Nat.mul_zero, Nat.add_zero]
  exact Nat.min_le_right _ _

/-- A call for a node that has a bucket: it is refilled, and a token is taken out if there is one. -/
def spend (hz : Nat) (c : Call) (rl : NodeRatelimit) : Bool × NodeRatelimit :=
  let rl' := uckRatelimitRefill hz c.jiffies rl
  if 0 < rl'.tokens then (true, { rl' with tokens := rl'.tokens - 1 }) else (false, rl')

/-- A bucket after a call for its node. -/
structure Spent (hz : Nat) (c : Call) (rl : NodeRatelimit) (ok : Bool) (rl' : NodeRatelimit) : Prop where
  nodeId : rl'.nodeId = rl.nodeId
  maxTokens : rl'.maxTokens = rl.maxTokens
  refillRate : rl'.refillRate = rl.refillRate
  capped : rl'.tokens ≤ rl'.maxTokens
  credit : rl'.credit hz c.now + 1000 * ok.toNat ≤ rl.credit hz c.now

/-- **A token bucket pays** for every call that it lets through. -/
theorem spent (hz : Nat) (c : Call) {rl : NodeRatelimit} (h : rl.tokens ≤ rl.maxTokens) :
    Spent hz c rl (spend hz c rl).1 (spend hz c rl).2 := by
  obtain ⟨hid, hmax, hrate, hcap, hel, htok⟩ := refilled hz c.now h
  unfold spend
  rw [Call.jiffies]
  generalize uckRatelimitRefill hz (UInt64.ofNat c.now) rl = rl' at *
  dsimp only
  split
  next hpos =>
    have hpred : (rl'.tokens - 1).toNat = rl'.tokens.toNat - 1 :=
      UInt64.toNat_sub_of_le _ _ hpos
    have hpos : 0 < rl'.tokens.toNat := hpos
    refine ⟨hid, hmax, hrate, ?_, ?_⟩
    · rw [UInt64.le_iff_toNat_le, hpred, hmax]
      omega
    · have hcredit := @NodeRatelimit.credit_le_tokens hz c.now { rl' with tokens := rl'.tokens - 1 } hel
      show NodeRatelimit.credit hz { rl' with tokens := rl'.tokens - 1 } c.now + 1000 * 1 ≤ min _ _
      dsimp only at hcredit ⊢
      omega
  next hzero =>
    refine ⟨hid, hmax, hrate, ?_, ?_⟩
    · rw [UInt64.le_iff_toNat_le, hmax]
      exact hcap
    · have hcredit := NodeRatelimit.credit_le_tokens hel
      show rl'.credit hz c.now + 1000 * 0 ≤ min _ _
      omega

/-! ## The table -/

namespace Ratelimit

variable {hz : Nat} {s : Ratelimit} {c : Call} {id : UInt32} {rl : NodeRatelimit}

def ids (s : Ratelimit) : List UInt32 := s.limits.map NodeRatelimit.nodeId

/-- What a call does. -/
inductive Checks (hz : Nat) (s : Ratelimit) (c : Call) : Bool → Ratelimit → Prop
  | known {i : Nat} {rl : NodeRatelimit} (err : UInt64) (hi : s.slot c.nodeId = some i) (hrl : s.limits[i]? = some rl) :
      Checks hz s c (spend hz c rl).1 ⟨s.limits.set i (spend hz c rl).2, err⟩
  | registered (hnew : s.slot c.nodeId = none) (hroom : s.limits.length < uckMaxNodes) :
      Checks hz s c true { s with limits := s.limits ++ [c.register] }
  | exempt (hnew : s.slot c.nodeId = none) (hfull : uckMaxNodes ≤ s.limits.length) : Checks hz s c true s

theorem checks (hz : Nat) (s : Ratelimit) (c : Call) :
    Checks hz s c (s.uckRatelimitCheckNet hz c).1 (s.uckRatelimitCheckNet hz c).2 := by
  unfold uckRatelimitCheckNet
  cases hi : s.slot c.nodeId with
  | none =>
    dsimp only
    split
    next hroom => exact .registered hi hroom
    next hfull => exact .exempt hi (Nat.not_lt.1 hfull)
  | some i =>
    obtain ⟨rl, hrl, -⟩ := exists_of_slotOf _ hi
    have hmod : (s.limits.modify i (uckRatelimitRefill hz c.jiffies))[i]? =
        some (uckRatelimitRefill hz c.jiffies rl) := by
      rw [List.getElem?_modify_eq, hrl]
      rfl
    have hset : ∀ f : NodeRatelimit → NodeRatelimit, s.limits.modify i f = s.limits.set i (f rl) := by
      intro f
      rw [List.modify_eq_set_getElem?, hrl]
      rfl
    have hknown := fun err => @Checks.known hz s c i rl err hi hrl
    simp only [hmod, Option.any_some, List.modify_modify_eq, decide_eq_true_eq]
    unfold spend at hknown
    dsimp only at hknown
    split
    next hpos =>
      rw [hset]
      simp only [if_pos hpos] at hknown
      exact hknown s.errRatelimit
    next hzero =>
      rw [hset]
      simp only [if_neg hzero] at hknown
      exact hknown (s.errRatelimit + 1)

theorem bucket_of_slot {i : Nat} (hi : s.slot id = some i) (hrl : s.limits[i]? = some rl) : s.bucket id = some rl := by
  rw [bucket, lookup, ← slot, hi, Option.bind_some, hrl]

theorem Checks.capped {ok : Bool} {t : Ratelimit} (hc : Checks hz s c ok t) (h : s.Capped) : t.Capped := by
  cases hc with
  | known err hi hrl =>
    intro x hx
    rcases List.mem_or_eq_of_mem_set hx with hx | rfl
    · exact h x hx
    · exact (spent hz c (h _ (List.mem_of_getElem? hrl))).capped
  | registered hnew hroom =>
    intro x hx
    rcases List.mem_append.1 hx with hx | hx
    · exact h x hx
    · rw [List.mem_singleton.1 hx]
      exact UInt64.le_refl _
  | exempt hnew hfull => exact h

/-- The node has a bucket with this limit and this rate. -/
structure Metered (id : UInt32) (maxTokens refillRate : UInt64) (s : Ratelimit) : Prop where
  capped : s.Capped
  bucket : ∃ rl, s.bucket id = some rl ∧ rl.maxTokens = maxTokens ∧ rl.refillRate = refillRate

/-- The worth of the bucket of a node. -/
def credit (hz : Nat) (id : UInt32) (s : Ratelimit) (now : Nat) : Nat := (s.bucket id).elim 0 (·.credit hz now)

/-- A call keeps the bucket of every node, and the bucket of its own pays for it. -/
theorem Checks.paid {ok : Bool} {t : Ratelimit} (hc : Checks hz s c ok t) {m r : UInt64} (h : Metered id m r s) :
    Metered id m r t ∧
      credit hz id t c.now + 1000 * (if c.nodeId = id then ok.toNat else 0) ≤ credit hz id s c.now := by
  have hcap := hc.capped h.capped
  obtain ⟨rl, hrl, hm, hr⟩ := h.bucket
  -- what is left to show when the bucket is as it was
  have hsame : t.bucket id = some rl → c.nodeId ≠ id → Metered id m r t ∧
      credit hz id t c.now + 1000 * (if c.nodeId = id then ok.toNat else 0) ≤ credit hz id s c.now := by
    intro ht hne
    rw [if_neg hne, Nat.mul_zero, Nat.add_zero, credit, credit, ht, hrl]
    exact ⟨⟨hcap, rl, ht, hm, hr⟩, Nat.le_refl _⟩
  have hnew : s.slot c.nodeId = none → c.nodeId ≠ id := by
    rintro hnone rfl
    rw [bucket, lookup, ← slot, hnone] at hrl
    cases hrl
  cases hc with
  | known err hi hrl' =>
    rename_i rl'
    have hkey : rl'.nodeId = c.nodeId := key_of_slotOf _ hi hrl'
    obtain ⟨hid, hmax, hrate, -, hpaid⟩ := spent hz c (h.capped _ (List.mem_of_getElem? hrl'))
    have hset := lookup_set hi (hid.trans hkey) id
    by_cases heq : c.nodeId = id
    · subst heq
      rw [if_pos rfl] at hset
      obtain rfl : rl = rl' := Option.some.inj (hrl.symm.trans (bucket_of_slot hi hrl'))
      refine ⟨⟨hcap, _, hset, hmax.trans hm, hrate.trans hr⟩, ?_⟩
      rw [credit, bucket, hset, credit, hrl, Option.elim_some, Option.elim_some, if_pos rfl]
      exact hpaid
    · rw [if_neg (Ne.symm heq)] at hset
      exact hsame (hset.trans hrl) heq
  | registered hnone hroom => exact hsame (lookup_append hrl _) (hnew hnone)
  | exempt hnone hfull => exact hsame hrl (hnew hnone)

theorem metered_step {m r : UInt64} {t : Ratelimit} (h : Metered id m r s) (hs : s.step hz c = some t) :
    Metered id m r t ∧ credit hz id t c.now + 1000 * s.admits hz id c ≤ credit hz id s c.now := by
  cases hs
  exact (checks hz s c).paid h

theorem credit_wait (hhz : hz ∣ 1000) {m r : UInt64} (h : Metered id m r s) {a b : Nat} (hab : a ≤ b) :
    credit hz id s b ≤ credit hz id s a + r.toNat * tickMs hz * (b - a) := by
  obtain ⟨rl, hrl, -, rfl⟩ := h.bucket
  rw [credit, credit, hrl]
  exact rl.credit_le hhz hab

theorem credit_le_max {m r : UInt64} (h : Metered id m r s) (now : Nat) : credit hz id s now ≤ 1000 * m.toNat := by
  obtain ⟨rl, hrl, rfl, -⟩ := h.bucket
  rw [credit, hrl]
  exact Nat.min_le_left _ _

/-- **The token bucket bounds** what gets through in a window of `T` milliseconds. -/
theorem admitted_le (hhz : hz ∣ 1000) {m r : UInt64} (h : Metered id m r s) {calls : List Call}
    (hcalls : calls.Pairwise fun c d => c.now ≤ d.now) {a T : Nat}
    (hin : ∀ c ∈ calls, a ≤ tickMs hz * c.now ∧ tickMs hz * c.now ≤ a + T) :
    s.admitted hz id calls ≤ m.toNat + r.toNat * T / 1000 := by
  have hpos : 0 < tickMs hz := Nat.div_pos (Nat.le_of_dvd (by decide) hhz) (Nat.pos_of_dvd_of_pos hhz (by decide))
  cases calls with
  | nil => exact Nat.zero_le _
  | cons c calls =>
    -- from the first call on, in ticks
    have hticks : ∀ d ∈ c :: calls, c.now ≤ d.now ∧ d.now ≤ c.now + T / tickMs hz := by
      intro d hd
      have hfirst : c.now ≤ d.now := by
        rcases List.mem_cons.1 hd with rfl | hd
        · exact Nat.le_refl _
        · exact (List.pairwise_cons.1 hcalls).1 d hd
      have hlast : (d.now - c.now) * tickMs hz ≤ T := by
        have hc := (hin c List.mem_cons_self).1
        have hd := (hin d hd).2
        rw [Nat.mul_comm, Nat.mul_sub]
        omega
      have hdiv := (Nat.le_div_iff_mul_le hpos).2 hlast
      exact ⟨hfirst, by omega⟩
    have htotal : 1000 * s.admitted hz id (c :: calls) ≤
        credit hz id s c.now + r.toNat * tickMs hz * (c.now + T / tickMs hz - c.now) :=
      Lib.Credit.total_le (Metered id m r) (fun s c t hs ht => metered_step hs ht)
        (fun s a b hs hab => credit_wait hhz hs hab) hcalls h (Nat.le_add_right c.now _) hticks
    have hmax : credit hz id s c.now ≤ _ := credit_le_max h c.now
    have hrate : r.toNat * tickMs hz * (c.now + T / tickMs hz - c.now) ≤ r.toNat * T := by
      rw [Nat.add_sub_cancel_left, Nat.mul_assoc]
      exact Nat.mul_le_mul_left _ (Nat.mul_div_le _ _)
    omega

end Ratelimit

/-- **Token buckets.** No bucket ever holds more than its limit, and after a node has got a bucket, no more of its
messages get through in any window of `T` milliseconds than the bucket holds and is refilled with in that time. -/
theorem token_bucket_bound (hz : Nat) (hdvd : hz ∣ 1000) (calls : List Call)
    (hcalls : calls.Pairwise fun c d => c.now ≤ d.now) :
    Always (Ratelimit.step hz) Ratelimit.Capped uckRatelimitInit calls ∧
      ∀ pre win post s, calls = pre ++ (win ++ post) → run (Ratelimit.step hz) uckRatelimitInit pre = some s →
        ∀ id rl, s.bucket id = some rl → ∀ a T, (∀ c ∈ win, a ≤ tickMs hz * c.now ∧ tickMs hz * c.now ≤ a + T) →
          s.admitted hz id win ≤ rl.maxTokens.toNat + rl.refillRate.toNat * T / 1000 := by
  have hinit : Ratelimit.Capped uckRatelimitInit := fun rl h => absurd h List.not_mem_nil
  have hstep : ∀ (s : Ratelimit) (c : Call) (t : Ratelimit), s.Capped → s.step hz c = some t → t.Capped := by
    intro s c t h ht
    cases ht
    exact (Ratelimit.checks hz s c).capped h
  refine ⟨.of_eachStep Ratelimit.Capped (fun s c t h _ => hstep s c t h) (fun _ h => h) hinit
    (EachStep.of_forall (Q := fun _ _ => True) fun _ _ _ => trivial), ?_⟩
  rintro pre win post s rfl hrun id rl hrl a T hin
  have hwin := (List.pairwise_append.1 (List.pairwise_append.1 hcalls).2.1).1
  exact Ratelimit.admitted_le hdvd ⟨run_inv _ hstep hinit hrun, rl, hrl, rfl, rfl⟩ hwin hin

/-- Node 7 sends its first message at tick 0, at three messages a second, and five more within a second; node 9 sends
one in between. -/
def sevenCalls : List Call := [⟨7, 0, 3⟩, ⟨7, 10, 3⟩, ⟨9, 20, 3⟩, ⟨7, 20, 3⟩, ⟨7, 30, 3⟩, ⟨7, 40, 3⟩, ⟨7, 110, 3⟩]

/-- Four of the five get through. -/
theorem sevenCalls_bound : ((Ratelimit.mk [⟨7, 3, 0, 3, 3⟩] 0).admitted 100 7 sevenCalls.tail = 4) ∧
    (Ratelimit.mk [⟨7, 3, 0, 3, 3⟩] 0).admitted 100 7 sevenCalls.tail ≤ 3 + 3 * 1000 / 1000 :=
  ⟨by decide, (token_bucket_bound 100 (by decide) sevenCalls (by decide)).2 [⟨7, 0, 3⟩] sevenCalls.tail [] _ rfl rfl 7
    ⟨7, 3, 0, 3, 3⟩ rfl 100 1000 (by decide)⟩

/-! ## Nodes without a bucket -/

namespace Ratelimit

variable {hz : Nat} {s : Ratelimit} {c : Call}

/-- No node has two buckets, and there are no more than the table has room for. -/
structure Sound (s : Ratelimit) : Prop where
  nodup : s.ids.Nodup
  bound : s.ids.length ≤ uckMaxNodes

theorem slot_eq_none_iff : s.slot c.nodeId = none ↔ c.nodeId ∉ s.ids := slotOf_eq_none_iff

theorem bucket_isSome_iff {id : UInt32} : (s.bucket id).isSome = true ↔ id ∈ s.ids := lookup_isSome_iff

theorem length_ids (s : Ratelimit) : s.ids.length = s.limits.length := List.length_map _

theorem refill_nodeId (hz : Nat) (now : UInt64) (rl : NodeRatelimit) :
    (uckRatelimitRefill hz now rl).nodeId = rl.nodeId := by
  unfold uckRatelimitRefill
  split
  · rfl
  · dsimp only
    split <;> rfl

theorem spend_nodeId (hz : Nat) (c : Call) (rl : NodeRatelimit) : (spend hz c rl).2.nodeId = rl.nodeId := by
  unfold spend
  dsimp only
  split <;> exact refill_nodeId hz _ rl

/-- The nodes of the table after a call. -/
theorem Checks.ids {ok : Bool} {t : Ratelimit} (hc : Checks hz s c ok t) :
    t.ids = if c.nodeId ∉ s.ids ∧ s.ids.length < uckMaxNodes then s.ids ++ [c.nodeId] else s.ids := by
  cases hc with
  | known err hi hrl =>
    have hmem : ¬ (c.nodeId ∉ s.ids ∧ s.ids.length < uckMaxNodes) := fun h => by
      rw [slot_eq_none_iff.2 h.1] at hi
      cases hi
    rw [if_neg hmem]
    exact map_set_eq _ hrl (spend_nodeId hz c _)
  | registered hnew hroom =>
    rw [if_pos ⟨slot_eq_none_iff.1 hnew, (length_ids s).trans_lt hroom⟩, Ratelimit.ids, List.map_append]
    rfl
  | exempt hnew hfull =>
    rw [if_neg fun h => Nat.not_lt.2 hfull ((length_ids s) ▸ h.2)]

theorem check_fst_of_new (hnew : c.nodeId ∉ s.ids) : (s.uckRatelimitCheckNet hz c).1 = true := by
  unfold uckRatelimitCheckNet
  rw [slot_eq_none_iff.2 hnew]
  dsimp only
  split <;> rfl

/-- A call leaves its node with a bucket, if it returns true, exactly if the node has one or there is room for it. -/
theorem limited_iff_room : s.Limited hz c ↔ c.nodeId ∈ s.ids ∨ s.ids.length < uckMaxNodes := by
  rw [Limited, bucket_isSome_iff, (checks hz s c).ids]
  by_cases hmem : c.nodeId ∈ s.ids
  · simp [hmem]
  · by_cases hroom : s.ids.length < uckMaxNodes
    · simp [hmem, hroom]
    · simp [hmem, hroom, check_fst_of_new hmem]

theorem Sound.check (h : s.Sound) (hz : Nat) (c : Call) : (s.uckRatelimitCheckNet hz c).2.Sound := by
  have hids := (checks hz s c).ids
  split at hids
  next hnew =>
    refine ⟨?_, ?_⟩
    · rw [hids, ← List.concat_eq_append]
      exact h.nodup.concat hnew.1
    · rw [hids, List.length_append]
      exact hnew.2
  next => exact ⟨hids ▸ h.nodup, hids ▸ h.bound⟩

/-- The runs in which no node is exempt, from a table that has some nodes in it. -/
theorem limited_run_iff (h : s.Sound) (calls : List Call) : EachStep (step hz) (Limited hz) s calls ↔
    (s.ids ++ calls.map Call.nodeId).toFinset.card ≤ uckMaxNodes := by
  induction calls generalizing s with
  | nil =>
    rw [List.map_nil, List.append_nil, List.toFinset_card_of_nodup h.nodup]
    exact iff_of_true trivial h.bound
  | cons c calls ih =>
    have hcons : EachStep (step hz) (Limited hz) s (c :: calls) ↔
        s.Limited hz c ∧ EachStep (step hz) (Limited hz) (s.uckRatelimitCheckNet hz c).2 calls := by
      simp only [EachStep, step, Option.some.injEq, forall_eq']
    rw [hcons, ih (h.check hz c), limited_iff_room, (checks hz s c).ids]
    by_cases hmem : c.nodeId ∈ s.ids
    · -- a node that is known adds nothing
      have hsame : (s.ids ++ (c :: calls).map Call.nodeId).toFinset = (s.ids ++ calls.map Call.nodeId).toFinset := by
        ext x
        simp only [List.map_cons, List.toFinset_append, List.toFinset_cons, Finset.mem_union, List.mem_toFinset,
          Finset.mem_insert]
        constructor
        · rintro (hx | rfl | hx)
          · exact .inl hx
          · exact .inl hmem
          · exact .inr hx
        · rintro (hx | hx)
          · exact .inl hx
          · exact .inr (.inr hx)
      rw [if_neg fun h => h.1 hmem, hsame]
      exact and_iff_right (.inl hmem)
    · by_cases hroom : s.ids.length < uckMaxNodes
      · rw [if_pos ⟨hmem, hroom⟩, List.append_assoc]
        exact and_iff_right (.inr hroom)
      · -- the table is full: this node is one too many
        refine iff_of_false (fun h => h.1.elim hmem hroom) fun hle => ?_
        have hsub : (c.nodeId :: s.ids).toFinset ⊆ (s.ids ++ (c :: calls).map Call.nodeId).toFinset := by
          intro x hx
          simp only [List.mem_toFinset, List.mem_cons, List.mem_append, List.map_cons] at hx ⊢
          exact hx.elim (fun h => .inr (.inl h)) .inl
        have hcard := Finset.card_le_card hsub
        rw [List.toFinset_card_of_nodup (List.nodup_cons.2 ⟨hmem, h.nodup⟩), List.length_cons] at hcard
        omega

theorem sound_init : uckRatelimitInit.Sound := ⟨List.nodup_nil, Nat.zero_le _⟩

end Ratelimit

/-- **Nobody is exempt from the rate limit** exactly if no more nodes send messages than the table has room for. -/
theorem limited_iff (hz : Nat) (calls : List Call) :
    EachStep (Ratelimit.step hz) (Ratelimit.Limited hz) uckRatelimitInit calls ↔
      (calls.map Call.nodeId).toFinset.card ≤ uckMaxNodes :=
  Ratelimit.limited_run_iff Ratelimit.sound_init calls

/-- The seventeenth node gets through without a bucket. -/
theorem seventeenth_node_exempt :
    ¬ EachStep (Ratelimit.step 100) (Ratelimit.Limited 100) uckRatelimitInit
      ((List.range 17).map fun n => ⟨UInt32.ofNat n, 0, 1⟩) := by
  rw [Ratelimit.limited_run_iff Ratelimit.sound_init]
  decide

end UckSmp.Net
