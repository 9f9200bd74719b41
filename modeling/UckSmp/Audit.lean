import Mathlib.Algebra.Ring.Nat
import Mathlib.Data.List.Induction
import Mathlib.Logic.Function.Basic
import UckSmp.Lib.Transition

/-!
# The audit log

`uck_audit.c`: a ring of 256 entries, written at the remainder of a counter of calls and read backwards from it. The
counter and the indices are of type `int`, so the counter becomes negative after 2 ^ 31 calls, and the remainder of a
negative number is negative or zero. The memory around the array is part of the model. Calls come one after the other.

* `ring_after`: what the ring holds while the counter has not wrapped.
* `keeps_latest_iff`: when the log is right; `show_leaves_ring` is a listing that leaves the array.
-/

namespace UckSmp.Audit

open Lib.Transition

/-! ## Code -/

/-- `UCK_AUDIT_RING_SIZE`. -/
def uckAuditRingSize : Nat := 256

/-- `struct uck_audit_entry`, without `event_type`, which nothing sets. -/
structure AuditEntry where
  timestampNs : UInt64 := 0
  message : List UInt8 := []
  deriving DecidableEq, Repr

/-- What a call writes: the time, and the message as the format and its arguments give it. -/
structure Event where
  timestampNs : UInt64
  text : List UInt8
  deriving DecidableEq, Repr

/-- `vsnprintf` into 128 bytes. -/
def Event.entry (e : Event) : AuditEntry := ⟨e.timestampNs, e.text.take 127⟩

/-- `audit_ring`, with the memory around it, and `audit_ring_head`. -/
structure Log where
  ring : Int32 → AuditEntry := fun _ => {}
  head : Int32 := 0

namespace Log

variable (s : Log)

/-- The index that the next call of `uck_audit_log` writes. -/
def writeIndex : Int32 := (s.head + 1) % 256

/-- `uck_audit_log`, without the kernel's own log. -/
def uckAuditLog (e : Event) : Log := ⟨Function.update s.ring s.writeIndex e.entry, s.head + 1⟩

/-- The index that `uck_proc_audit_show` reads in a round. -/
def readIndex (i : Nat) : Int32 := (s.head - Int32.ofNat i + 256) % 256

/-- `uck_proc_audit_show`: the entries that it prints. -/
def uckProcAuditShow : List AuditEntry :=
  ((List.range uckAuditRingSize).map fun i => s.ring (s.readIndex i)).filter fun e => e.timestampNs ≠ 0

def step (s : Log) (e : Event) : Option Log := some (s.uckAuditLog e)

end Log

/-- The log after some calls. -/
def after (es : List Event) : Log := es.foldl Log.uckAuditLog {}

/-! ## Statement -/

/-- An index of the array. -/
def InRing (idx : Int32) : Prop := 0 ≤ idx ∧ idx < 256

instance (idx : Int32) : Decidable (InRing idx) := inferInstanceAs (Decidable (_ ∧ _))

/-- The calls, and a listing after them, stay in the array, and the listing is the latest events, newest first. -/
structure KeepsLatest (es : List Event) : Prop where
  writes : EachStep Log.step (fun s _ => InRing s.writeIndex) {} es
  reads : ∀ i < uckAuditRingSize, InRing ((after es).readIndex i)
  listing : (after es).uckProcAuditShow = (es.reverse.take uckAuditRingSize).map Event.entry

/-! ## Indices -/

theorem head_foldl (es : List Event) (s : Log) :
    (es.foldl Log.uckAuditLog s).head = s.head + Int32.ofNat es.length := by
  induction es generalizing s with
  | nil => exact (Int32.add_zero _).symm
  | cons e es ih =>
    rw [List.foldl_cons, ih, List.length_cons, Nat.add_comm, Int32.ofNat_add, ← Int32.add_assoc]
    rfl

theorem head_after (es : List Event) : (after es).head = Int32.ofNat es.length :=
  (head_foldl es {}).trans (Int32.zero_add _)

/-- The index of a number that an `int` can hold. -/
theorem index_of_lt {a : Nat} (h : a < 2 ^ 31) : Int32.ofNat a % 256 = Int32.ofNat (a % 256) :=
  (Int32.ofNat_mod h (by decide)).symm

theorem inRing_ofNat {a : Nat} (h : a < 256) : InRing (Int32.ofNat a) := by
  have hint : (Int32.ofNat a).toInt = a := Int32.toInt_ofNat_of_lt (by omega)
  constructor
  · rw [Int32.le_iff_toInt_le, hint]
    exact Int.natCast_nonneg a
  · rw [Int32.lt_iff_toInt_lt, hint]
    exact Int.ofNat_lt.2 h

/-- The index of a number that has become negative, unless it is a multiple of the size. -/
theorem not_inRing_of_le {a : Nat} (hle : 2 ^ 31 ≤ a) (hlt : a < 2 ^ 32) (hmod : a % 256 ≠ 0) :
    ¬ InRing (Int32.ofNat a % 256) := by
  rintro ⟨hnonneg, -⟩
  have hint : (Int32.ofNat a).toInt = -((2 ^ 32 - a : Nat) : Int) := by
    rw [Int32.toInt_ofNat', Int.bmod_def]
    have hsize : Int32.size = 2 ^ 32 := rfl
    rw [hsize]
    split <;> omega
  rw [Int32.le_iff_toInt_le, Int32.toInt_mod, hint, Int.neg_tmod] at hnonneg
  have hrem : (((2 ^ 32 - a : Nat) : Int).tmod (256 : Int32).toInt) = ((2 ^ 32 - a) % 256 : Nat) := by
    rw [Int.tmod_eq_emod_of_nonneg (Int.natCast_nonneg _)]
    rfl
  rw [hrem] at hnonneg
  have hzero : (0 : Int32).toInt = 0 := rfl
  omega

/-- What is read is counted back from the last call. -/
theorem readIndex_after (es : List Event) {i : Nat} (hi : i ≤ 256) :
    (after es).readIndex i = Int32.ofNat (es.length + 256 - i) % 256 := by
  have hadd : Int32.ofNat (es.length + 256 - i) + Int32.ofNat i = Int32.ofNat es.length + 256 := by
    rw [← Int32.ofNat_add, Nat.sub_add_cancel (by omega), Int32.ofNat_add]
    rfl
  have hsub : Int32.ofNat es.length - Int32.ofNat i + 256 = Int32.ofNat (es.length + 256 - i) := by
    apply (Int32.add_left_inj (Int32.ofNat i)).1
    rw [Int32.add_assoc, Int32.add_comm 256, ← Int32.add_assoc, Int32.sub_add_cancel]
    exact hadd.symm
  rw [Log.readIndex, head_after, hsub]

/-- As long as the counter has room for one more round, the indices that are read are those of the last 256 calls. -/
theorem readIndex_of_le {es : List Event} (hes : es.length ≤ 2 ^ 31 - 256) {i : Nat} (hi : i < 256) :
    (after es).readIndex i = Int32.ofNat ((es.length + 256 - i) % 256) := by
  rw [readIndex_after es (Nat.le_of_lt hi)]
  by_cases hlt : es.length + 256 - i < 2 ^ 31
  · exact index_of_lt hlt
  · -- the sum is the first negative number, which is a multiple of the size
    have heq : es.length + 256 - i = 2 ^ 31 := by omega
    rw [heq]
    decide

/-- The calls write in the array as long as the counter has not become negative by more than one. -/
theorem writes_iff (es : List Event) (s : Log) (n : Nat) (hs : s.head = Int32.ofNat n) :
    EachStep Log.step (fun s _ => InRing s.writeIndex) s es ↔
      ∀ k < es.length, InRing (Int32.ofNat (n + k + 1) % 256) := by
  induction es generalizing s n with
  | nil => exact iff_of_true trivial fun k hk => absurd hk (Nat.not_lt_zero k)
  | cons e es ih =>
    have hhead : s.head + 1 = Int32.ofNat (n + 1) := by
      rw [hs, Int32.ofNat_add]
      rfl
    have hindex : s.writeIndex = Int32.ofNat (n + 0 + 1) % 256 := congrArg (· % 256) hhead
    have hrest := ih (s.uckAuditLog e) (n + 1) hhead
    constructor
    · rintro ⟨hfirst, hes⟩ k hk
      cases k with
      | zero =>
        rw [← hindex]
        exact hfirst
      | succ k =>
        have hnext := hrest.1 (hes _ rfl) k (Nat.lt_of_succ_lt_succ hk)
        rwa [Nat.add_right_comm n 1 k] at hnext
    · intro h
      refine ⟨?_, ?_⟩
      · have hfirst := h 0 (Nat.zero_lt_succ _)
        rwa [← hindex] at hfirst
      · rintro t ⟨⟩
        apply hrest.2
        intro k hk
        rw [Nat.add_right_comm n 1 k]
        exact h (k + 1) (Nat.succ_lt_succ hk)

/-! ## The ring -/

theorem after_append (es : List Event) (e : Event) : after (es ++ [e]) = (after es).uckAuditLog e := by
  rw [after, List.foldl_append]
  rfl

theorem ofNat_inj_of_lt {a b : Nat} (ha : a < 256) (hb : b < 256) : Int32.ofNat a = Int32.ofNat b ↔ a = b := by
  rw [← Int32.toInt_inj, Int32.toInt_ofNat_of_lt (by omega), Int32.toInt_ofNat_of_lt (by omega), Int.ofNat_inj]

/-- **The ring** holds the last 256 events, counted back from the last call. -/
theorem ring_after (es : List Event) (hes : es.length < 2 ^ 31) {i : Nat} (hi : i < 256) :
    (after es).ring (Int32.ofNat ((es.length + 256 - i) % 256)) = (es.reverse[i]?.map Event.entry).getD {} := by
  induction es using List.reverseRecOn generalizing i with
  | nil => rfl
  | append_singleton es e ih =>
    rw [List.length_append, List.length_singleton] at hes ⊢
    have hwrite : (after es).writeIndex = Int32.ofNat ((es.length + 1) % 256) := by
      rw [← index_of_lt hes, Log.writeIndex, head_after, Int32.ofNat_add]
      rfl
    rw [after_append, Log.uckAuditLog, hwrite, List.reverse_append, List.reverse_singleton, List.singleton_append]
    cases i with
    | zero =>
      have hsame : (es.length + 1 + 256 - 0) % 256 = (es.length + 1) % 256 := by omega
      rw [hsame]
      exact Function.update_self ..
    | succ i =>
      -- another cell than the one that is written
      have hne : (es.length + 1 + 256 - (i + 1)) % 256 ≠ (es.length + 1) % 256 := by omega
      have hback : es.length + 1 + 256 - (i + 1) = es.length + 256 - i := by omega
      have hother : Int32.ofNat ((es.length + 1 + 256 - (i + 1)) % 256) ≠ Int32.ofNat ((es.length + 1) % 256) :=
        mt (ofNat_inj_of_lt (Nat.mod_lt _ (by decide)) (Nat.mod_lt _ (by decide))).1 hne
      show Function.update (after es).ring _ _ _ = _
      rw [Function.update_of_ne hother, hback, ih (Nat.lt_of_succ_lt hes) (Nat.lt_of_succ_lt hi),
        List.getElem?_cons_succ]

/-- The first elements of a list, with a default behind its end that is filtered out. -/
theorem filter_map_range_getD {α β : Type*} {p : β → Bool} {d : β} (hd : p d = false) (f : α → β) (l : List α)
    (n : Nat) :
    ((List.range n).map fun i => (l[i]?.map f).getD d).filter p = ((l.take n).map f).filter p := by
  induction n with
  | zero => rfl
  | succ n ih =>
    rw [List.range_succ, List.map_append, List.filter_append, ih, List.take_add_one, List.map_append,
      List.filter_append]
    cases hn : l[n]? with
    | none => simp [hn, hd]
    | some a => simp [hn]

/-- What is listed, while the counter has room: the latest events, except for those without a time. -/
theorem uckProcAuditShow_after {es : List Event} (hes : es.length ≤ 2 ^ 31 - 256) :
    (after es).uckProcAuditShow =
      ((es.reverse.take uckAuditRingSize).map Event.entry).filter fun e => e.timestampNs ≠ 0 := by
  have hcell : ∀ i ∈ List.range uckAuditRingSize, (after es).ring ((after es).readIndex i) =
      (es.reverse[i]?.map Event.entry).getD {} := by
    intro i hi
    have hlt : i < 256 := List.mem_range.1 hi
    rw [readIndex_of_le hes hlt, ring_after es (by omega) hlt]
  rw [Log.uckProcAuditShow, List.map_congr_left hcell]
  exact filter_map_range_getD (by decide) Event.entry _ _

/-! ## Every number of calls -/

/-- After more calls than that, an index is not in the array. -/
theorem length_le_of_keepsLatest {es : List Event} (h : KeepsLatest es) : es.length ≤ 2 ^ 31 - 256 := by
  by_contra hlong
  have hreads : ∀ i < 256, InRing (Int32.ofNat (es.length + 256 - i) % 256) := by
    intro i hi
    rw [← readIndex_after es (Nat.le_of_lt hi)]
    exact h.reads i hi
  have hwrites := (writes_iff es {} 0 rfl).1 h.writes
  rcases Nat.lt_trichotomy es.length (2 ^ 31) with hlt | heq | hgt
  · -- the first round of the listing
    exact not_inRing_of_le (by omega) (by omega) (by omega) (hreads 0 (by decide))
  · -- the second one: in the first, the sum is a multiple of the size
    exact not_inRing_of_le (by omega) (by omega) (by omega) (hreads 1 (by decide))
  · -- call number 2 ^ 31 + 1
    exact not_inRing_of_le (by decide) (by decide) (by decide) (hwrites (2 ^ 31) hgt)

/-- **The audit log keeps the latest events** exactly while there were at most 2 ^ 31 - 256 calls, if none of the
events that are to be listed has the time zero. -/
theorem keeps_latest_iff (es : List Event) :
    KeepsLatest es ↔
      es.length ≤ 2 ^ 31 - 256 ∧ ∀ e ∈ es.reverse.take uckAuditRingSize, e.timestampNs ≠ 0 := by
  have hall : (∀ e ∈ es.reverse.take uckAuditRingSize, e.timestampNs ≠ 0) ↔
      ∀ x ∈ (es.reverse.take uckAuditRingSize).map Event.entry, decide (x.timestampNs ≠ 0) = true := by
    simp only [List.forall_mem_map, decide_eq_true_eq]
    rfl
  rw [hall, ← List.filter_eq_self]
  constructor
  · intro h
    have hlen := length_le_of_keepsLatest h
    exact ⟨hlen, (uckProcAuditShow_after hlen).symm.trans h.listing⟩
  · rintro ⟨hlen, hfilter⟩
    refine ⟨?_, ?_, ?_⟩
    · rw [writes_iff es {} 0 rfl]
      intro k hk
      rw [index_of_lt (by omega)]
      exact inRing_ofNat (Nat.mod_lt _ (by decide))
    · intro i hi
      rw [readIndex_of_le hlen hi]
      exact inRing_ofNat (Nat.mod_lt _ (by decide))
    · exact (uckProcAuditShow_after hlen).trans hfilter

/-- After 2 ^ 31 - 255 calls, a listing begins in front of the array. -/
theorem show_leaves_ring :
    (after (List.replicate (2 ^ 31 - 255) ⟨1, []⟩)).readIndex 0 = -255 ∧
      ¬ KeepsLatest (List.replicate (2 ^ 31 - 255) ⟨1, []⟩) := by
  constructor
  · rw [readIndex_after _ (by decide), List.length_replicate]
    decide
  · intro h
    have hlen := length_le_of_keepsLatest h
    rw [List.length_replicate] at hlen
    omega

/-- Call number 2 ^ 31 + 1 writes in front of the array. -/
example : (after (List.replicate (2 ^ 31) ⟨1, []⟩)).writeIndex = -255 := by
  rw [Log.writeIndex, head_after, List.length_replicate]
  decide

end UckSmp.Audit
