import UckSmp.Migrate.Receive

/-!
# Migration when the connection fails

`uck_send_process` looks at the result of one send, that of the state; those of the pages and of the last message are
dropped. The receiver launches the restore stub however its loop ends. So the source kills the process as soon as its
state is sent, and the destination restores it with whatever pages arrived.

* `Atomic`: the process stays at the source, or is restored with all its pages and killed at the source.
* `atomic_iff`: the points of failure at which it is.
* `process_without_its_page`: one at which it is not.
-/

namespace UckSmp.Migrate

open Lib

/-- What the source finds: whether the destination is the node itself, the CPU features (none for a node it does not
know) and whether it is or can be connected. -/
structure Source where
  destIsLocal : Bool
  localFeatures : UInt64
  destFeatures : Option UInt64
  connects : Bool
  kv : Nat → Bool

/-- The destination: whether its rate limiter lets the message through, its allocator, and whether the state file can
be written and the stub started. -/
structure Destination where
  admits : Bool
  kv : Nat → Bool
  writes : Bool
  starts : Bool

/-- The point at which the connection fails: the bytes that the source could send and those that the destination
received. -/
structure Failure where
  sent : Nat
  got : Nat
  got_le : got ≤ sent

/-- What has become of the process at the source. -/
inductive Fate
  | running
  | killed
  deriving DecidableEq, Repr

/-- How a migration ends: whether `uck_migrate_process` returned an error, the process at the source, and the pages of
the restore that the destination launched. -/
structure Outcome where
  error : Bool
  source : Fate
  launched : Option (List (UInt64 × Page))
  deriving DecidableEq

/-- The check of the CPU features; a node that is not known passes. -/
def Source.featuresOk (a : Source) : Bool := a.destFeatures.all fun d => a.localFeatures &&& d == a.localFeatures

/-- `uck_launch_restored_process` on what was received. -/
def Destination.launch (b : Destination) (inc : Incoming) : Option (List (UInt64 × Page)) :=
  if b.writes && b.starts then some inc.pages else none

/-- What the destination makes of the bytes that arrive. -/
def Destination.handle (b : Destination) (bs : List Byte) : Option (List (UInt64 × Page)) :=
  if b.admits then (receive b.kv bs).bind b.launch else none

/-- `uck_migrate_process` and the destination's handler, with a connection that fails at `f`. -/
def uckMigrateProcess (a : Source) (b : Destination) (f : Failure) (s : Snapshot) : Outcome :=
  if a.destIsLocal then ⟨true, .running, none⟩
  else if !a.featuresOk then ⟨true, .running, none⟩
  else match uckCheckpointProcess a.kv s with
    | none => ⟨true, .running, none⟩
    | some buf =>
      if a.destFeatures.isNone || !a.connects then ⟨true, .running, none⟩
      else
        -- what arrives of the transfer, and what the destination does with it
        let launched := b.handle ((uckSendProcess s.srcNode buf s.pages).take f.got)
        if f.sent < (stateMsg s.srcNode buf).length then ⟨true, .running, launched⟩
        else ⟨false, .killed, launched⟩

/-- All or nothing. -/
def Atomic (s : Snapshot) (o : Outcome) : Prop :=
  (o.error = true ∧ o.source = .running ∧ o.launched = none) ∨
    (o.error = false ∧ o.source = .killed ∧ o.launched = some s.pages)

/-- The source gives up before it sends anything. -/
def Refused (a : Source) (s : Snapshot) : Prop :=
  a.destIsLocal = true ∨ a.featuresOk = false ∨ a.kv s.buf.length = false ∨ a.destFeatures = none ∨ a.connects = false

/-- The destination takes the message, has memory for the state and for every page and can start the stub. -/
def Destination.Ready (b : Destination) (s : Snapshot) : Prop :=
  b.admits = true ∧ (b.kv (256 * pageRecord.size) = true ∧ b.kv s.descs.length = true) ∧
    roomFor b.kv s.pages.length 0 256 = s.pages.length ∧ b.writes = true ∧ b.starts = true

section Atomicity

variable {a : Source} {b : Destination} {f : Failure} {s : Snapshot}

theorem length_stateMsg (s : Snapshot) : (stateMsg s.srcNode s.buf).length = 40 + s.buf.length := by
  rw [stateMsg, List.length_append, MsgHdr.codec.length_enc, MsgHdr.codec_size]

theorem uckMigrateProcess_refused (h : Refused a s) : uckMigrateProcess a b f s = ⟨true, .running, none⟩ := by
  unfold uckMigrateProcess
  by_cases h1 : a.destIsLocal = true
  · rw [if_pos h1]
  · rw [if_neg h1]
    by_cases h2 : a.featuresOk = true
    · rw [if_neg (by simp [h2])]
      by_cases h3 : a.kv s.buf.length = true
      · have hck : uckCheckpointProcess a.kv s = some s.buf := if_pos h3
        have h4 : (a.destFeatures.isNone || !a.connects) = true := by
          rcases h with h | h | h | h | h
          · exact absurd h h1
          · rw [h] at h2; cases h2
          · rw [h] at h3; cases h3
          · simp [h]
          · simp [h]
        rw [hck]
        exact if_pos h4
      · have hck : uckCheckpointProcess a.kv s = none := if_neg h3
        rw [hck]
    · rw [if_pos (by simpa using h2)]

/-- A migration that is not refused: the state decides for the source, what arrives for the destination. -/
theorem uckMigrateProcess_sent (h : ¬ Refused a s) :
    uckMigrateProcess a b f s =
      let launched := b.handle ((uckSendProcess s.srcNode s.buf s.pages).take f.got)
      if f.sent < 40 + s.buf.length then ⟨true, .running, launched⟩ else ⟨false, .killed, launched⟩ := by
  simp only [Refused, not_or, Bool.not_eq_true, Bool.not_eq_false] at h
  obtain ⟨h1, h2, h3, h4, h5⟩ := h
  have hck : uckCheckpointProcess a.kv s = some s.buf := if_pos h3
  have hd : a.destFeatures.isNone = false := by
    cases hf : a.destFeatures with
    | none => exact absurd hf h4
    | some d => rfl
  unfold uckMigrateProcess
  rw [if_neg (by simp [h1]), if_neg (by simp [h2]), hck]
  simp only [hd, h5, length_stateMsg]
  rfl

/-- Nothing is launched before the whole state is there. -/
theorem handle_none (hs : s.buf.length < 2 ^ 32) {r : Nat} (hr : r < 40 + s.buf.length) :
    b.handle ((uckSendProcess s.srcNode s.buf s.pages).take r) = none := by
  rw [Destination.handle, receive_none s.srcNode s hs (Or.inl hr), Option.bind_none, ite_self]

/-- The destination launches the process with all its pages exactly if everything before the last message arrives and
it is ready. -/
theorem launched_all_iff (hs : s.buf.length < 2 ^ 32) (r : Nat) :
    b.handle ((uckSendProcess s.srcNode s.buf s.pages).take r) = some s.pages ↔
      40 + s.buf.length + 4136 * s.pages.length ≤ r ∧ b.Ready s := by
  by_cases hlow : r < 40 + s.buf.length ∨ ¬ (b.kv (256 * pageRecord.size) = true ∧ b.kv s.descs.length = true)
  · rw [Destination.handle, receive_none s.srcNode s hs hlow, Option.bind_none, ite_self]
    constructor
    · intro h; cases h
    · rintro ⟨hr, hready⟩
      rcases hlow with hlow | hlow
      · omega
      · exact absurd hready.2.1 hlow
  · rw [not_or, not_not, Nat.not_lt] at hlow
    obtain ⟨hr, halloc⟩ := hlow
    obtain ⟨j, rfl⟩ := Nat.exists_eq_add_of_le hr
    obtain ⟨cap, hrecv⟩ := receive_some s.srcNode s hs halloc j
    have hroom := roomFor_le b.kv s.pages.length 0 256
    have htake : s.pages.take (min (j / 4136) (roomFor b.kv s.pages.length 0 256)) = s.pages ↔
        s.pages.length ≤ j / 4136 ∧ roomFor b.kv s.pages.length 0 256 = s.pages.length := by
      constructor
      · intro h
        have hlen := congrArg List.length h
        rw [List.length_take] at hlen
        omega
      · rintro ⟨h1, h2⟩
        exact List.take_of_length_le (by omega)
    rw [Nat.add_assoc, Destination.handle, hrecv, Option.bind_some, Destination.launch]
    constructor
    · intro h
      split at h
      · rename_i hadm
        split at h
        · rename_i hb
          rw [Bool.and_eq_true] at hb
          obtain ⟨hj, hk⟩ := htake.1 (Option.some.inj h)
          exact ⟨by omega, hadm, halloc, hk, hb⟩
        · cases h
      · cases h
    · rintro ⟨hr, hadm, -, hk, hw, hst⟩
      rw [if_pos hadm, if_pos (by simp [hw, hst])]
      exact congrArg some (htake.2 ⟨by omega, hk⟩)

/-- **When migration is atomic**: the source gave up or could not send the whole state, or the destination received
everything up to the last message and could restore it. `kvmalloc` grants no size above `INT_MAX`. -/
theorem atomic_iff (a : Source) (hkv : ∀ n, a.kv n = true → n < 2 ^ 31) (b : Destination) (f : Failure) (s : Snapshot) :
    Atomic s (uckMigrateProcess a b f s) ↔
      Refused a s ∨ f.sent < 40 + s.buf.length ∨
        (40 + s.buf.length + 4136 * s.pages.length ≤ f.got ∧ b.Ready s) := by
  by_cases href : Refused a s
  · rw [uckMigrateProcess_refused href]
    exact ⟨fun _ => Or.inl href, fun _ => Or.inl ⟨rfl, rfl, rfl⟩⟩
  · have hbuf : a.kv s.buf.length = true := by
      simp only [Refused, not_or, Bool.not_eq_false] at href
      exact href.2.2.1
    have hs : s.buf.length < 2 ^ 32 := Nat.lt_trans (hkv _ hbuf) (by decide)
    have hgot := f.got_le
    rw [uckMigrateProcess_sent href]
    by_cases hsent : f.sent < 40 + s.buf.length
    · have hnone : b.handle ((uckSendProcess s.srcNode s.buf s.pages).take f.got) = none := handle_none hs (by omega)
      simp only
      rw [if_pos hsent, hnone]
      exact ⟨fun _ => Or.inr (Or.inl hsent), fun _ => Or.inl ⟨rfl, rfl, rfl⟩⟩
    · simp only
      rw [if_neg hsent]
      simp only [Atomic, Bool.false_eq_true, false_and, false_or, true_and, href, hsent]
      exact launched_all_iff hs f.got

end Atomicity

/-! ## A process that loses its page -/

/-- A process with one thread and the page of zeros at `0x1000`. -/
def onePage : Snapshot :=
  ⟨1, 7, zeroRegs, [], [], [⟨7, zeroRegs⟩], one_thread_ne, [(0x1000, 0)]⟩

theorem length_onePage : onePage.buf.length = 368 := by
  rw [length_buf, length_descs]
  rfl

/-- Nodes with enough memory. -/
def anySource : Source := ⟨false, 0, some 0, true, fun n => decide (n < 2 ^ 31)⟩

def anyDestination : Destination := ⟨true, fun n => decide (n < 2 ^ 31), true, true⟩

theorem not_refused : ¬ Refused anySource onePage := by
  unfold Refused
  rw [length_onePage]
  decide

/-- The state is 408 bytes with its header, the page 4136 more. -/
theorem process_with_its_page :
    Atomic onePage (uckMigrateProcess anySource anyDestination ⟨4544, 4544, Nat.le_refl _⟩ onePage) := by
  refine (atomic_iff anySource (fun _ h => of_decide_eq_true h) anyDestination _ onePage).2 (Or.inr (Or.inr ⟨?_, ?_⟩))
  · rw [length_onePage]
    decide
  · refine ⟨rfl, ⟨by decide, ?_⟩, by decide, rfl, rfl⟩
    rw [length_descs]
    decide

/-- The connection fails when the state has arrived: the source kills the process, the destination restores it without
its page. -/
theorem process_without_its_page :
    ¬ Atomic onePage (uckMigrateProcess anySource anyDestination ⟨408, 408, Nat.le_refl _⟩ onePage) := by
  have hs : onePage.buf.length < 2 ^ 32 := by rw [length_onePage]; decide
  rw [uckMigrateProcess_sent not_refused]
  simp only [length_onePage]
  rw [if_neg (by decide)]
  rintro (⟨h, -⟩ | ⟨-, -, h⟩)
  · cases h
  · simp only at h
    rw [launched_all_iff hs] at h
    have hall := h.1
    rw [length_onePage] at hall
    exact absurd hall (by decide)

end UckSmp.Migrate
