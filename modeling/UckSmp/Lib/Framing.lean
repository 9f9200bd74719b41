import UckSmp.Lib.Codec

/-!
# Framing

Messages on a byte stream: a header of fixed size that says how many bytes of payload follow it. A `Frame` is a message
whose payload has the length that its header says.

* `Framing.Whole`: the bytes are a sequence of complete messages; `Whole.snoc` adds one, `Whole.next` takes one off.
* `Framing.receive`: a receiver that reads a header, then as many bytes as it likes, then the next header. What it does
  with a header may depend on how many headers it read and on a mode, and it may stop.
* `Framing.follows_iff`: a receiver reads the headers of the messages, and no others, exactly if it reads each payload
  to its end; of the last one it may leave less than a header.
-/

namespace Lib

variable {η μ : Type*}

/-- A header and the length of the payload that follows it. -/
structure Framing (η : Type*) where
  codec : Codec η
  len : η → Nat
  size_pos : 0 < codec.size

namespace Framing

variable (F : Framing η)

/-- A complete message. -/
structure Frame where
  hdr : η
  payload : List Byte
  length_payload : payload.length = F.len hdr

variable {F}

def Frame.bytes (m : F.Frame) : List Byte := F.codec.enc m.hdr ++ m.payload

/-- The bytes of a sequence of messages. -/
def stream (ms : List F.Frame) : List Byte := ms.flatMap Frame.bytes

@[simp] theorem stream_nil : stream ([] : List F.Frame) = [] := rfl

theorem stream_cons (m : F.Frame) (ms : List F.Frame) :
    stream (m :: ms) = F.codec.enc m.hdr ++ (m.payload ++ stream ms) := by
  rw [stream, List.flatMap_cons, Frame.bytes, List.append_assoc]
  rfl

theorem length_stream_cons (m : F.Frame) (ms : List F.Frame) :
    (stream (m :: ms)).length = F.codec.size + (m.payload.length + (stream ms).length) := by
  rw [stream_cons, List.length_append, List.length_append, F.codec.length_enc]

/-! ## Complete messages -/

variable (F) in
/-- The bytes are a sequence of complete messages. -/
def Whole (bs : List Byte) : Prop := ∃ ms : List F.Frame, bs = stream ms

theorem Whole.nil : F.Whole [] := ⟨[], rfl⟩

theorem Whole.snoc {bs : List Byte} (h : F.Whole bs) (m : F.Frame) : F.Whole (bs ++ m.bytes) := by
  obtain ⟨ms, rfl⟩ := h
  exact ⟨ms ++ [m], by simp [stream]⟩

/-- The first message is what the first header says, and what follows is whole again. -/
theorem Whole.next {bs : List Byte} (h : F.Whole bs) (hne : bs ≠ []) :
    F.codec.size + F.len (F.codec.dec bs) ≤ bs.length ∧
      F.Whole (bs.drop (F.codec.size + F.len (F.codec.dec bs))) := by
  obtain ⟨ms, rfl⟩ := h
  cases ms with
  | nil => exact absurd rfl hne
  | cons m ms =>
    have hdec : F.codec.dec (stream (m :: ms)) = m.hdr := by rw [stream_cons, F.codec.dec_enc]
    rw [hdec, length_stream_cons, ← m.length_payload]
    constructor
    · omega
    · refine ⟨ms, ?_⟩
      rw [stream_cons, ← List.append_assoc, List.drop_left' (by rw [List.length_append, F.codec.length_enc])]

/-! ## Receivers -/

/-- What a receiver does with a header: whether the message passes its checks, whether it is handed on, how many bytes
behind the header are read, and the mode in which the next header is read, if any is. -/
structure Turn (μ : Type*) where
  passed : Bool
  handed : Bool
  reads : Nat
  next : Option μ

/-- A header that was read at a position of the stream, and what became of it. -/
structure Read (η : Type*) where
  pos : Nat
  hdr : η
  passed : Bool
  handed : Bool

variable (F) in
/-- The headers that a receiver reads from the bytes that are left, `k` headers having been read. -/
def receive (turn : Nat → μ → η → Turn μ) (k pos : Nat) (mode : μ) (bs : List Byte) : List (Read η) :=
  if bs.length < F.codec.size then []
  else
    let hdr := F.codec.dec bs
    let t := turn k mode hdr
    ⟨pos, hdr, t.passed, t.handed⟩ ::
      match t.next with
      | none => []
      | some mode =>
        receive turn (k + 1) (pos + F.codec.size + t.reads) mode (bs.drop (F.codec.size + t.reads))
termination_by bs.length
decreasing_by
  have hpos := F.size_pos
  rw [List.length_drop]
  omega

/-- The positions and the headers of the messages. -/
def heads (pos : Nat) : List F.Frame → List (Nat × η)
  | [] => []
  | m :: ms => (pos, m.hdr) :: heads (pos + F.codec.size + m.payload.length) ms

/-- The headers read are those of the messages, in order, and those that pass are handed on. -/
def Follows (rs : List (Read η)) (pos : Nat) (ms : List F.Frame) : Prop :=
  rs.map (fun r => (r.pos, r.hdr)) = heads pos ms ∧ ∀ r ∈ rs, r.handed = r.passed

/-- Every payload is read to its end, except that less than a header may be left of the last one. -/
def Kept (turn : Nat → μ → η → Turn μ) : Nat → μ → List F.Frame → Prop
  | _, _, [] => True
  | k, mode, m :: ms =>
    let t := turn k mode m.hdr
    t.handed = t.passed ∧
      ((ms = [] ∧ (t.next = none ∨ m.payload.length < t.reads + F.codec.size)) ∨
        (t.reads = m.payload.length ∧ ∃ mode', t.next = some mode' ∧ Kept turn (k + 1) mode' ms))

section Receive

variable {turn : Nat → μ → η → Turn μ} {k pos : Nat} {mode : μ}

theorem receive_short {bs : List Byte} (h : bs.length < F.codec.size) : F.receive turn k pos mode bs = [] := by
  rw [receive, if_pos h]

theorem receive_long (turn : Nat → μ → η → Turn μ) (k pos : Nat) (mode : μ) {bs : List Byte}
    (h : ¬ bs.length < F.codec.size) :
    ∃ r rs, F.receive turn k pos mode bs = r :: rs ∧ r.pos = pos := by
  rw [receive, if_neg h]
  exact ⟨_, _, rfl, rfl⟩

theorem receive_stream_cons (m : F.Frame) (ms : List F.Frame) :
    F.receive turn k pos mode (stream (m :: ms)) =
      ⟨pos, m.hdr, (turn k mode m.hdr).passed, (turn k mode m.hdr).handed⟩ ::
        match (turn k mode m.hdr).next with
        | none => []
        | some mode' => F.receive turn (k + 1) (pos + F.codec.size + (turn k mode m.hdr).reads) mode'
            ((m.payload ++ stream ms).drop (turn k mode m.hdr).reads) := by
  have hlong : ¬ (stream (m :: ms)).length < F.codec.size := by
    rw [length_stream_cons]
    omega
  rw [receive, if_neg hlong, stream_cons, F.codec.dec_enc]
  simp only [← List.drop_drop, List.drop_left' (F.codec.length_enc m.hdr)]

/-- A message whose payload is read to its end. -/
theorem receive_read {m : F.Frame} {passed handed : Bool} {mode' : μ}
    (h : turn k mode m.hdr = ⟨passed, handed, m.payload.length, some mode'⟩) (ms : List F.Frame) :
    F.receive turn k pos mode (stream (m :: ms)) =
      ⟨pos, m.hdr, passed, handed⟩ ::
        F.receive turn (k + 1) (pos + F.codec.size + m.payload.length) mode' (stream ms) := by
  rw [receive_stream_cons, h]
  simp only [List.drop_left]

theorem follows_nil_iff {ms : List F.Frame} : Follows [] pos ms ↔ ms = [] := by
  cases ms with
  | nil => simp [Follows, heads]
  | cons m ms => simp [Follows, heads]

theorem follows_cons_iff {r : Read η} {rs : List (Read η)} {m : F.Frame} {ms : List F.Frame} :
    Follows (r :: rs) pos (m :: ms) ↔
      (r.pos = pos ∧ r.hdr = m.hdr) ∧ r.handed = r.passed ∧
        Follows rs (pos + F.codec.size + m.payload.length) ms := by
  simp only [Follows, heads, List.map_cons, List.cons.injEq, Prod.mk.injEq, List.forall_mem_cons]
  constructor
  · rintro ⟨⟨hr, hrs⟩, hh, hall⟩
    exact ⟨hr, hh, hrs, hall⟩
  · rintro ⟨hr, hh, hrs, hall⟩
    exact ⟨⟨hr, hrs⟩, hh, hall⟩

/-- A receiver that is out of step with the messages is so for good, unless nothing is left to read. -/
theorem follows_displaced_iff {bs : List Byte} {ms : List F.Frame} {pos' : Nat} (hne : pos' ≠ pos) :
    Follows (F.receive turn k pos' mode bs) pos ms ↔ bs.length < F.codec.size ∧ ms = [] := by
  by_cases hlen : bs.length < F.codec.size
  · rw [receive_short hlen, follows_nil_iff]
    simp [hlen]
  · obtain ⟨r, rs, hrec, hpos⟩ := receive_long turn k pos' mode hlen
    rw [hrec]
    simp only [hlen, false_and, iff_false]
    cases ms with
    | nil => simp [Follows, heads]
    | cons m ms =>
      rw [follows_cons_iff, hpos]
      exact fun h => hne h.1.1

/-- **Keeping in step**: the headers read are those of the messages exactly if the payloads are read to their ends. -/
theorem follows_iff (ms : List F.Frame) :
    Follows (F.receive turn k pos mode (stream ms)) pos ms ↔ Kept turn k mode ms := by
  induction ms generalizing k pos mode with
  | nil =>
    rw [stream_nil, receive_short (show ([] : List Byte).length < _ from F.size_pos), follows_nil_iff]
    simp [Kept]
  | cons m ms ih =>
    rw [receive_stream_cons, follows_cons_iff, Kept]
    simp only [true_and, and_self]
    refine and_congr_right fun _ => ?_
    cases hnext : (turn k mode m.hdr).next with
    | none => simp [follows_nil_iff]
    | some mode' =>
      by_cases hreads : (turn k mode m.hdr).reads = m.payload.length
      · -- in step: the rest of the messages is what is left
        rw [hreads, List.drop_left, ih]
        simp only [reduceCtorEq, false_or, true_and, Option.some.injEq, exists_eq_left']
        constructor
        · exact .inr
        · rintro (⟨rfl, -⟩ | hk)
          · trivial
          · exact hk
      · rw [follows_displaced_iff (by omega)]
        simp only [hreads, false_and, or_false, reduceCtorEq, false_or, List.length_drop, List.length_append]
        constructor
        · rintro ⟨hlen, rfl⟩
          refine ⟨rfl, ?_⟩
          simp only [stream_nil, List.length_nil] at hlen
          omega
        · rintro ⟨rfl, hlen⟩
          refine ⟨?_, rfl⟩
          have hpos := F.size_pos
          simp only [stream_nil, List.length_nil]
          omega

end Receive

end Framing

end Lib
