import Mathlib.Algebra.Ring.Nat
import UckSmp.Net.Ratelimit

/-!
# What refills round off

`uck_ratelimit_refill` credits whole tokens, and the call is then the last refill: the time that was not enough for one
more token is forgotten. It also reads the time since the last refill as a number of milliseconds, of 32 bits, which
are more than went by where `HZ` does not divide 1000.

* `run_poll`: a bucket that is polled gets what has accrued, except for what is `dropped`.
* `refill_keeps_iff`: when the calls credit all that accrues; `polled_every_tick` is a bucket that stays empty.
-/

namespace UckSmp.Net

open Lib.Transition

/-! ## Statement -/

/-- A bucket, and the time of the last call for it. -/
structure Poll where
  rl : NodeRatelimit
  now : Nat
  deriving DecidableEq, Repr

/-- A call of `uck_ratelimit_refill`, some ticks after the one before. -/
def poll (hz : Nat) (s : Poll) (gap : Nat) : Option Poll :=
  some ⟨uckRatelimitRefill hz (UInt64.ofNat (s.now + gap)) s.rl, s.now + gap⟩

/-- `new_tokens`, for a rate of 32 bits. -/
def NodeRatelimit.newTokens (hz : Nat) (rl : NodeRatelimit) (now : Nat) : Nat :=
  rl.refillRate.toNat * rl.elapsedMs hz now / 1000

/-- The bucket has room for the tokens that the call credits. -/
def Poll.HasRoom (hz : Nat) (s : Poll) (gap : Nat) : Prop :=
  s.rl.tokens.toNat + s.rl.newTokens hz (s.now + gap) ≤ s.rl.maxTokens.toNat

instance (hz : Nat) (s : Poll) (gap : Nat) : Decidable (s.HasRoom hz gap) := inferInstanceAs (Decidable (_ ≤ _))

/-- The milliseconds that a number of ticks is taken for, with the fraction `1000 / hz` in lowest terms: they are
rounded up, from what is left in 64 bits, to a number of 32 bits. A number of ticks that is negative as a `long` is
taken for a time to come. -/
def seenMs (hz ticks : Nat) : Nat :=
  if 2 ^ 63 ≤ ticks % 2 ^ 64 then 0
  else (1000 / Nat.gcd 1000 hz * ticks + (hz / Nat.gcd 1000 hz - 1)) % 2 ^ 64 / (hz / Nat.gcd 1000 hz) % 2 ^ 32

/-- What calls at these distances do not credit, when the last refill was `since` ticks before. It is counted in parts
of a token of which there are `hz`, so that `rate` of them accrue in a tick; less than none are dropped where the
milliseconds are more than the ticks. -/
def dropped (hz rate : Nat) : (since : Nat) → (gaps : List Nat) → Int
  | since, [] => rate * since
  | since, gap :: gaps =>
    let ticks := since + gap
    if seenMs hz ticks = 0 then dropped hz rate ticks gaps
    else rate * ticks - hz * (rate * seenMs hz ticks / 1000 : Nat) + dropped hz rate 0 gaps

/-! ## One call -/

/-- `jiffies_to_msecs` over the integers. -/
theorem toNat_jiffiesToMsecs_ofNat {hz : Nat} (hpos : 0 < hz) (hhz : hz < 2 ^ 31) (ticks : Nat) :
    (jiffiesToMsecs hz (UInt64.ofNat ticks)).toNat =
      (1000 / Nat.gcd 1000 hz * ticks + (hz / Nat.gcd 1000 hz - 1)) % 2 ^ 64 / (hz / Nat.gcd 1000 hz) % 2 ^ 32 := by
  have hnum : 1000 / Nat.gcd 1000 hz ≤ 1000 := Nat.div_le_self _ _
  have hden : hz / Nat.gcd 1000 hz ≤ hz := Nat.div_le_self _ _
  have hone : 1 ≤ hz / Nat.gcd 1000 hz :=
    Nat.div_pos (Nat.le_of_dvd hpos (Nat.gcd_dvd_right 1000 hz)) (Nat.gcd_pos_of_pos_right 1000 hpos)
  unfold jiffiesToMsecs
  generalize 1000 / Nat.gcd 1000 hz = num at hnum ⊢
  generalize hz / Nat.gcd 1000 hz = den at hden hone ⊢
  have hsub : (UInt64.ofNat den - 1).toNat = den - 1 := by
    rw [UInt64.toNat_sub, UInt64.toNat_ofNat', UInt64.toNat_one]
    omega
  rw [UInt64.toNat_toUInt32, UInt64.toNat_div, UInt64.toNat_add, UInt64.toNat_mul, hsub, UInt64.toNat_ofNat',
    UInt64.toNat_ofNat', UInt64.toNat_ofNat', Nat.mod_eq_of_lt (by omega : num < 2 ^ 64),
    Nat.mod_eq_of_lt (by omega : den < 2 ^ 64), Nat.mod_add_mod, Nat.add_mod, Nat.mul_mod_mod, ← Nat.add_mod]

/-- The code sees the ticks since the last refill. -/
theorem NodeRatelimit.elapsedMs_eq {hz : Nat} (hpos : 0 < hz) (hhz : hz < 2 ^ 31) {rl : NodeRatelimit} {last : Nat}
    (h : rl.lastRefill = UInt64.ofNat last) (ticks : Nat) : rl.elapsedMs hz (last + ticks) = seenMs hz ticks := by
  have hsub : UInt64.ofNat (last + ticks) - UInt64.ofNat last = UInt64.ofNat ticks := by
    rw [UInt64.ofNat_add, UInt64.add_comm, UInt64.add_sub_cancel]
  simp only [elapsedMs, timeBefore, Membership.timeAfter, h, hsub, UInt64.toNat_ofNat', decide_eq_true_eq, seenMs,
    toNat_jiffiesToMsecs_ofNat hpos hhz]

/-- A call that sees no time go by changes nothing. -/
theorem uckRatelimitRefill_of_eq_zero {hz now : Nat} {rl : NodeRatelimit} (h : rl.elapsedMs hz now = 0) :
    uckRatelimitRefill hz (UInt64.ofNat now) rl = rl := by
  unfold uckRatelimitRefill
  unfold NodeRatelimit.elapsedMs at h
  split
  · rfl
  · rename_i hafter
    rw [if_neg hafter] at h
    have hzero : ¬ 0 < (jiffiesToMsecs hz (UInt64.ofNat now - rl.lastRefill)).toUInt64 := by
      rw [UInt64.lt_iff_toNat_lt, UInt32.toNat_toUInt64, h]
      exact Nat.lt_irrefl 0
    exact if_neg hzero

/-- A call that sees time go by credits the new tokens, if there is room for them. -/
theorem uckRatelimitRefill_of_pos {hz now : Nat} {rl : NodeRatelimit} {rate : UInt32}
    (hrate : rl.refillRate = rate.toUInt64) (hpos : 0 < rl.elapsedMs hz now)
    (hroom : rl.tokens.toNat + rl.newTokens hz now ≤ rl.maxTokens.toNat) :
    ∃ tokens, uckRatelimitRefill hz (UInt64.ofNat now) rl = { rl with tokens, lastRefill := UInt64.ofNat now } ∧
      tokens.toNat = rl.tokens.toNat + rl.newTokens hz now := by
  unfold NodeRatelimit.newTokens at hroom ⊢
  unfold NodeRatelimit.elapsedMs at hpos hroom ⊢
  unfold uckRatelimitRefill
  split at hpos
  · cases hpos
  · rename_i hafter
    rw [if_neg hafter] at hroom ⊢
    rw [if_neg hafter]
    generalize jiffiesToMsecs hz (UInt64.ofNat now - rl.lastRefill) = ms at hpos hroom ⊢
    have hposU : 0 < ms.toUInt64 := by
      rw [UInt64.lt_iff_toNat_lt, UInt32.toNat_toUInt64]
      exact hpos
    -- two numbers of 32 bits: the product does not wrap, and the sum is within the limit
    have hmul : rl.refillRate.toNat * ms.toNat < 2 ^ 64 := by
      rw [hrate, UInt32.toNat_toUInt64]
      exact @Nat.mul_lt_mul'' rate.toNat ms.toNat (2 ^ 32) (2 ^ 32) rate.toNat_lt ms.toNat_lt
    have hmax := rl.maxTokens.toNat_lt
    have hsum : (rl.tokens + rl.refillRate * ms.toUInt64 / 1000).toNat =
        rl.tokens.toNat + rl.refillRate.toNat * ms.toNat / 1000 := by
      rw [UInt64.toNat_add, UInt64.toNat_div, UInt64.toNat_mul, UInt32.toNat_toUInt64, Nat.mod_eq_of_lt hmul]
      exact Nat.mod_eq_of_lt (Nat.lt_of_le_of_lt hroom hmax)
    dsimp only
    rw [if_pos hposU]
    refine ⟨_, rfl, ?_⟩
    split
    · exact hsum
    · rename_i hge
      have hle := UInt64.le_iff_toNat_le.1 (UInt64.not_lt.1 hge)
      omega

/-! ## Every way to poll -/

/-- **What has accrued** is credited or dropped. -/
theorem run_poll {hz : Nat} (hpos : 0 < hz) (hhz : hz < 2 ^ 31) {rate : UInt32} {gaps : List Nat} {s t : Poll}
    {last since : Nat} (hrun : run (poll hz) s gaps = some t) (hroom : EachStep (poll hz) (Poll.HasRoom hz) s gaps)
    (hrate : s.rl.refillRate = rate.toUInt64) (hlast : s.rl.lastRefill = UInt64.ofNat last)
    (hnow : s.now = last + since) :
    (hz * s.rl.tokens.toNat + rate.toNat * (since + gaps.sum) : Nat) =
      hz * t.rl.tokens.toNat + dropped hz rate.toNat since gaps := by
  induction gaps generalizing s last since with
  | nil =>
    cases hrun
    simp [dropped]
  | cons gap gaps ih =>
    obtain ⟨hfits, hroom⟩ := hroom
    have htime : s.now + gap = last + (since + gap) := by omega
    have hseen := NodeRatelimit.elapsedMs_eq hpos hhz hlast (since + gap)
    have hsum : since + (gap :: gaps).sum = since + gap + gaps.sum := by
      rw [List.sum_cons, Nat.add_assoc]
    rw [run_cons rfl, htime] at hrun
    replace hroom := hroom _ rfl
    rw [htime] at hroom
    rw [hsum, dropped]
    by_cases hzero : seenMs hz (since + gap) = 0
    · -- the last refill stays where it was
      rw [uckRatelimitRefill_of_eq_zero (hseen.trans hzero)] at hrun hroom
      rw [if_pos hzero]
      exact (ih hrun hroom hrate hlast rfl :)
    · rw [Poll.HasRoom, htime] at hfits
      obtain ⟨tokens, heq, htokens⟩ :=
        uckRatelimitRefill_of_pos hrate (hseen ▸ Nat.pos_of_ne_zero hzero) hfits
      rw [heq] at hrun hroom
      have hrest := ih hrun hroom hrate rfl (Nat.add_zero _).symm
      rw [if_neg hzero]
      have hnew : s.rl.newTokens hz (last + (since + gap)) = rate.toNat * seenMs hz (since + gap) / 1000 := by
        rw [NodeRatelimit.newTokens, hseen, hrate, UInt32.toNat_toUInt64]
      dsimp only at hrest
      rw [htokens, hnew, Nat.zero_add, Nat.mul_add] at hrest
      rw [Nat.mul_add rate.toNat]
      omega

/-- At whole tokens for each millisecond, as by default, nothing is dropped where `HZ` divides 1000. -/
theorem dropped_eq_zero {hz rate : Nat} (hhz : hz ∣ 1000) (hdvd : 1000 ∣ rate) {gaps : List Nat}
    (hgaps : ∀ gap ∈ gaps, tickMs hz * gap < 2 ^ 32) : dropped hz rate 0 gaps = 0 := by
  have hmul : hz * tickMs hz = 1000 := Nat.mul_div_cancel' hhz
  have hpos : 0 < tickMs hz := Nat.pos_of_ne_zero fun h => by simp [h] at hmul
  obtain ⟨q, rfl⟩ := hdvd
  induction gaps with
  | nil => simp [dropped]
  | cons gap gaps ih =>
    have hgap := hgaps gap List.mem_cons_self
    have hticks : gap < 2 ^ 32 := Nat.lt_of_le_of_lt (Nat.le_mul_of_pos_left gap hpos) hgap
    have hseen : seenMs hz gap = tickMs hz * gap := by
      rw [seenMs, if_neg (by omega), Nat.gcd_eq_right hhz, Nat.div_self (Nat.pos_of_dvd_of_pos hhz (by decide)),
        ← tickMs, Nat.sub_self, Nat.add_zero, Nat.div_one, Nat.mod_eq_of_lt (by omega : tickMs hz * gap < 2 ^ 64),
        Nat.mod_eq_of_lt hgap]
    have hrest := ih fun g hg => hgaps g (List.mem_cons_of_mem _ hg)
    rw [dropped, Nat.zero_add, hseen]
    split
    · rename_i hzero
      obtain rfl : gap = 0 := (Nat.mul_eq_zero.1 hzero).resolve_left (Nat.ne_of_gt hpos)
      exact hrest
    · have hall : hz * (1000 * q * (tickMs hz * gap) / 1000) = 1000 * q * gap := by
        rw [Nat.mul_assoc 1000 q, Nat.mul_div_cancel_left _ (by decide), ← hmul]
        ac_rfl
      rw [hrest, ← Int.natCast_mul, ← Int.natCast_mul, hall]
      omega

theorem refill_exact_of_dvd {hz : Nat} (hhz : hz ∣ 1000) {rate : UInt32} (hdvd : 1000 ∣ rate.toNat)
    {rl : NodeRatelimit} (hrate : rl.refillRate = rate.toUInt64) {start : Nat}
    (hstart : rl.lastRefill = UInt64.ofNat start) {gaps : List Nat} (hgaps : ∀ gap ∈ gaps, tickMs hz * gap < 2 ^ 32)
    {t : Poll} (hrun : run (poll hz) ⟨rl, start⟩ gaps = some t)
    (hroom : EachStep (poll hz) (Poll.HasRoom hz) ⟨rl, start⟩ gaps) :
    hz * t.rl.tokens.toNat = hz * rl.tokens.toNat + rate.toNat * gaps.sum := by
  have hpos : 0 < hz := Nat.pos_of_dvd_of_pos hhz (by decide)
  have hle : hz ≤ 1000 := Nat.le_of_dvd (by decide) hhz
  have h := run_poll hpos (by omega) hrun hroom hrate hstart (Nat.add_zero start).symm
  rw [dropped_eq_zero hhz hdvd hgaps, Nat.zero_add] at h
  dsimp only at h
  omega

/-- **Polling credits all that accrues** exactly when less than one token is dropped: the tokens of a second are
credited in `hz` ticks, so that `rate * ticks / hz` is what accrues in `ticks` ticks. -/
theorem refill_keeps_iff {hz : Nat} (hpos : 0 < hz) (hhz : hz < 2 ^ 31) {rate : UInt32} {rl : NodeRatelimit}
    (hrate : rl.refillRate = rate.toUInt64) {start : Nat} (hstart : rl.lastRefill = UInt64.ofNat start)
    {gaps : List Nat} {t : Poll} (hrun : run (poll hz) ⟨rl, start⟩ gaps = some t)
    (hroom : EachStep (poll hz) (Poll.HasRoom hz) ⟨rl, start⟩ gaps) :
    rl.tokens.toNat + rate.toNat * gaps.sum / hz ≤ t.rl.tokens.toNat ↔ dropped hz rate.toNat 0 gaps < hz := by
  have h := run_poll hpos hhz hrun hroom hrate hstart (Nat.add_zero start).symm
  rw [Nat.zero_add] at h
  have hdiv : rl.tokens.toNat + rate.toNat * gaps.sum / hz =
      (hz * rl.tokens.toNat + rate.toNat * gaps.sum) / hz := (Nat.mul_add_div hpos _ _).symm
  rw [hdiv, ← Nat.lt_succ_iff, Nat.div_lt_iff_lt_mul hpos, Nat.succ_mul, Nat.mul_comm t.rl.tokens.toNat]
  dsimp only at h
  omega

/-- A bucket of 100 tokens a second that is polled every ten milliseconds gets a token each time. -/
theorem refill_keeps_ten_ms :
    ∃ t, run (poll 100) ⟨⟨1, 0, 0, 100, 100⟩, 0⟩ (List.replicate 25 1) = some t ∧ 25 ≤ t.rl.tokens.toNat := by
  have hrun : run (poll 100) ⟨⟨1, 0, 0, 100, 100⟩, 0⟩ (List.replicate 25 1) = some ⟨⟨1, 25, 25, 100, 100⟩, 25⟩ := by
    decide +kernel
  have hroom : EachStep (poll 100) (Poll.HasRoom 100) ⟨⟨1, 0, 0, 100, 100⟩, 0⟩ (List.replicate 25 1) := by
    decide +kernel
  have hdropped : dropped 100 (100 : UInt32).toNat 0 (List.replicate 25 1) < 100 := by decide +kernel
  exact ⟨_, hrun,
    (@refill_keeps_iff 100 (by decide) (by decide) 100 ⟨1, 0, 0, 100, 100⟩ rfl 0 rfl _ _ hrun hroom).2 hdropped⟩

/-- When it is polled every four milliseconds, it stays empty. -/
theorem polled_every_tick :
    ∃ t, run (poll 250) ⟨⟨1, 0, 0, 100, 100⟩, 0⟩ (List.replicate 25 1) = some t ∧
      EachStep (poll 250) (Poll.HasRoom 250) ⟨⟨1, 0, 0, 100, 100⟩, 0⟩ (List.replicate 25 1) ∧ t.rl.tokens = 0 ∧
      100 * (List.replicate 25 1).sum / 250 = 10 := by
  refine ⟨⟨⟨1, 0, 25, 100, 100⟩, 25⟩, ?_, ?_, rfl, ?_⟩
  · decide +kernel
  · decide +kernel
  · decide

end UckSmp.Net
