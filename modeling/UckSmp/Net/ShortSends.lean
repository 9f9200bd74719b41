import UckSmp.Lib.PartialWrites
import UckSmp.Net.SockLoop

/-!
# Sends that the kernel takes in pieces

`uck_sock_send` hands a chunk to the kernel in as many calls as it takes, and other senders run between the calls. Here
every call is a step of its own, for the senders of `UckSmp.Senders`. No call fails.

- `sockRound_piece`: a round of `uck_sock_send` is such a step.
- `sends_in_pieces_whole`: as long as no page request is cut or cuts, the connection is at any time what the senders
  with undivided sends would have written, up to the chunk in hand, and the messages stay whole.
-/

namespace UckSmp.ShortSends

open Lib Lib.PartialWrites Lib.Transition Senders

abbrev Pipe := State Op Chunk Byte

/-- The senders of a node, call by call of `kernel_sendmsg`. -/
def pipeStep (self : UInt32) : Pipe → Event Op → Option Pipe := step (Op.code self) Chunk.bytes

/-- What a sender has still to write before its message is complete. -/
def pending (x : Thread Op Chunk) : List Byte :=
  match x.todo with
  | .emit c :: todo => if x.done = 0 then owed x.todo else c.bytes.drop x.done ++ owed todo
  | _ => owed x.todo

/-- What is on the connection, with what is pending, is a sequence of complete messages. -/
def PiecesWhole (s : Pipe) : Prop := MsgHdr.framing.Whole (s.out ++ s.threads.flatMap pending)

/-- Neither is a page request sent into another message nor anything into a page request, or into a job request or
result between its header and its payload. -/
def Uncut (s : Pipe) : Event Op → Prop
  | .piece i _ => ∀ x ∈ s.threads[i]?, ∀ t ∈ s.threads.eraseIdx i,
      (x.op.bare = true ∨ t.op.bare = true → t.done = 0) ∧ (x.op.bare = true ∨ t.op.split = true → owed t.todo = [])
  | _ => True

instance (s : Pipe) : (e : Event Op) → Decidable (Uncut s e)
  | .start _ => .isTrue trivial
  | .act _ => .isTrue trivial
  | .piece i _ => inferInstanceAs (Decidable (∀ x ∈ s.threads[i]?, _))

/-! ## A round of the loop -/

section Round

open SockLoop

variable {self : UInt32} {s : Pipe} {i : Nat} {op : Op} {held : Bool} {c : Chunk} {todo : Code}

theorem bytesAt_memOf_part {bs : List Byte} {n k : Nat} (h : n + k ≤ bs.length) :
    bytesAt (memOf bs) n k = (bs.drop n).take k := by
  apply List.ext_getElem
  · simp
    omega
  · intro j hj _
    simp only [length_bytesAt] at hj
    have hlt : n + j < bs.length := by omega
    have hnat : ((n : Int) + j).toNat = n + j := by omega
    simp [bytesAt, memOf, hnat, hlt]

/-- A call that transfers something is a piece, and writes what the loop hands to the kernel. -/
theorem sockRound_piece {rs : Results} {len : Int32} {t t' : Progress Sink} (hlen : len.toInt = c.bytes.length)
    (h0 : 0 ≤ t.done.toInt) (hi : s.threads[i]? = some ⟨op, held, .emit c :: todo, t.done.toInt.toNat⟩)
    (hout : s.out = t.env.stream) (hr : sockRound (kernelSendmsg rs (memOf c.bytes)) len t = .inl t') :
    ∃ k u, pipeStep self s (.piece i k) = some u ∧ u.out = t'.env.stream ∧
      t'.done.toInt.toNat = t.done.toInt.toNat + k := by
  obtain ⟨size, hpos, henv, hdone, hle⟩ := sockRound_inl (fun _ _ _ => rs.ret_le _ _) h0 hr
  obtain ⟨n, hn⟩ := Int.eq_ofNat_of_zero_le h0
  obtain ⟨k, hk⟩ := Int.eq_ofNat_of_zero_le hpos.le
  have hfits : n + k ≤ c.bytes.length := by omega
  rw [hn, Int.toNat_natCast] at hi
  have hstep : pipeStep self s (.piece i k) =
      some ⟨s.threads.set i (Thread.advance Chunk.bytes ⟨op, held, .emit c :: todo, n⟩ c todo k),
        s.out ++ (c.bytes.drop n).take k⟩ := by
    have hguard : (0 < k ∨ c.bytes = []) ∧ n + k ≤ c.bytes.length := ⟨.inl (by omega), hfits⟩
    simp only [pipeStep, step, hi, if_pos hguard]
  refine ⟨k, _, hstep, ?_, by omega⟩
  rw [hn] at henv hk
  simp only [henv, kernelSendmsg] at hk ⊢
  rw [hk, Int.toNat_natCast, hout, bytesAt_memOf_part hfits]

end Round

/-! ## The invariant -/

/-- While a sender is inside a chunk, no other one is, or owes a payload. -/
def Lone (ts : List (Thread Op Chunk)) : Prop :=
  ∀ (i j : Nat) (x y : Thread Op Chunk), ts[i]? = some x → ts[j]? = some y → 0 < x.done → j ≠ i →
    y.done = 0 ∧ owed y.todo = []

section Lone

variable {ts : List (Thread Op Chunk)} {i : Nat} {x x' y : Thread Op Chunk}

theorem Lone.append (h : Lone ts) (hd : y.done = 0) (ho : owed y.todo = []) : Lone (ts ++ [y]) := by
  have hcases : ∀ (k : Nat) (z : Thread Op Chunk), (ts ++ [y])[k]? = some z → ts[k]? = some z ∨ z = y := by
    intro k z hz
    rw [List.getElem?_append] at hz
    split at hz
    · exact .inl hz
    · exact .inr (List.mem_singleton.1 (List.mem_of_getElem? hz))
  intro a b v w hv hw hpos hne
  rcases hcases b w hw with hw | rfl
  · rcases hcases a v hv with hv | rfl
    · exact h a b v w hv hw hpos hne
    · omega
  · exact ⟨hd, ho⟩

/-- A thread that is not inside a chunk afterwards, and owes what it owed. -/
theorem Lone.set (h : Lone ts) (hi : ts[i]? = some x) (hd : x'.done = 0) (ho : owed x'.todo = owed x.todo) :
    Lone (ts.set i x') := by
  intro a b v w hv hw hpos hne
  rw [List.getElem?_set] at hv hw
  split at hv
  · split at hv
    · cases hv
      omega
    · cases hv
  · split at hw
    · rename_i hib
      subst hib
      split at hw
      · cases hw
        exact ⟨hd, ho.trans (h a i v x hv hi hpos hne).2⟩
      · cases hw
    · exact h a b v w hv hw hpos hne

/-- A thread beside which nobody is inside a chunk or owes a payload. -/
theorem Lone.set_of_others (h : ∀ j y, j ≠ i → ts[j]? = some y → y.done = 0 ∧ owed y.todo = []) :
    Lone (ts.set i x') := by
  intro a b v w hv hw hpos hne
  by_cases hai : a = i
  · subst hai
    rw [List.getElem?_set_ne (Ne.symm hne)] at hw
    exact h b w hne hw
  · rw [List.getElem?_set_ne (Ne.symm hai)] at hv
    have hdone := (h a v hai hv).1
    omega

end Lone

/-- The senders with undivided sends, and who is inside a chunk. -/
structure Sent (node : UInt32) (s : Pipe) (u : Wire) : Prop where
  reached : Reaches (Writers.step (Op.code node)) {} u
  simulates : Simulates Chunk.bytes s u
  sound : Sound u
  inside : ∀ x ∈ s.threads, 0 < x.done → sends x.todo = true
  lone : Lone s.threads

section Sent

variable {node : UInt32} {s t : Pipe} {u : Wire} {e : Event Op} {i k : Nat} {x : Thread Op Chunk}

theorem Sent.init (node : UInt32) : Sent node {} {} where
  reached := .refl _
  simulates := .init
  sound := .init
  inside _ hx := by cases hx
  lone _ _ _ _ hx := by cases hx

theorem Sent.mem (h : Sent node s u) (hx : x ∈ s.threads) : x.toThread ∈ u.threads := by
  rw [h.simulates.threads]
  exact List.mem_map_of_mem hx

/-- A sender that takes the lock holds it while it sends. -/
theorem Sent.held (h : Sent node s u) (hx : x ∈ s.threads) (hb : x.op.bare = false) (hs : sends x.todo = true) :
    x.held = true := by
  have huses : Uses (!x.op.bare) (!x.op.split) x.held x.todo := h.sound.uses _ (h.mem hx)
  obtain ⟨op, held, todo, done⟩ := x
  match todo, hs with
  | .emit c :: todo, _ => exact huses.1 (by simp [hb])

/-- The lock, and the guard for the page requests, keep everyone else out of a chunk. -/
theorem Sent.alone (h : Sent node s u) (hg : Uncut s (.piece i k)) (hi : s.threads[i]? = some x)
    (hs : sends x.todo = true) {j : Nat} {y : Thread Op Chunk} (hj : j ≠ i) (hy : s.threads[j]? = some y) :
    y.done = 0 := by
  have hother : y ∈ s.threads.eraseIdx i := List.mem_eraseIdx_iff_getElem?.2 ⟨j, hj, hy⟩
  by_cases hb : x.op.bare = true ∨ y.op.bare = true
  · exact (hg x hi y hother).1 hb
  · simp only [not_or, Bool.not_eq_true] at hb
    refine alone_of_held h.simulates h.sound.exclusive hi (h.held (List.mem_of_getElem? hi) hb.1 hs) hy ?_ hj
    intro hpos
    have hmem := List.mem_of_getElem? hy
    exact h.held hmem hb.2 (h.inside y hmem hpos)

/-- The guard of the senders with undivided sends. -/
theorem Sent.undisturbed (h : Sent node s u) (hg : Uncut s (.piece i k)) : Undisturbed u (.act i) := by
  intro x' hx' hs t' ht' hcase
  obtain ⟨j, hj, hy'⟩ := List.mem_eraseIdx_iff_getElem?.1 ht'
  rw [h.simulates.threads, List.getElem?_map] at hx' hy'
  obtain ⟨x, hx, rfl⟩ := Option.map_eq_some_iff.1 hx'
  obtain ⟨y, hy, rfl⟩ := Option.map_eq_some_iff.1 hy'
  exact (hg x hx y (List.mem_eraseIdx_iff_getElem?.2 ⟨j, hj, hy⟩)).2 hcase

/-- A sender that writes finds no other one inside a chunk, and every other message finished. -/
theorem Sent.others (h : Sent node s u) (hg : Uncut s (.piece i k)) (hi : s.threads[i]? = some x)
    (hs : sends x.todo = true) (j : Nat) (y : Thread Op Chunk) (hj : j ≠ i) (hy : s.threads[j]? = some y) :
    y.done = 0 ∧ owed y.todo = [] := by
  refine ⟨h.alone hg hi hs hj hy, ?_⟩
  have hquiet := h.sound.quiet (h.undisturbed hg) (h.simulates.get hi) hs
    fun hb => h.held (List.mem_of_getElem? hi) hb hs
  have hnil := hquiet j hj
  rwa [getD_debts (h.simulates.get hy)] at hnil

/-! ## Steps -/

theorem undisturbed_of_not_sends {y : Writers.Thread Op Chunk} (hi : u.threads[i]? = some y)
    (hs : sends y.todo = false) : Undisturbed u (.act i) := by
  intro x hx hsends
  cases hi.symm.trans hx
  rw [hs] at hsends
  cases hsends

/-- The guard gives both guards of the simulation: nobody else is inside a chunk, -/
theorem Sent.alone_step (h : Sent node s u) (hg : Uncut s e) (hs : pipeStep node s e = some t) : Alone s e := by
  cases Step.of_step hs with
  | start op => trivial
  | lock hi hfree => trivial
  | unlock hi => trivial
  | part hi hlt => exact fun j y hj hy => h.alone hg hi rfl hj hy
  | last hi heq => exact fun j y hj hy => h.alone hg hi rfl hj hy

/-- and the undivided send disturbs no message. -/
theorem Sent.undisturbed_step (h : Sent node s u) (hg : Uncut s e) (hs : pipeStep node s e = some t) :
    ∀ ev ∈ atomic Chunk.bytes s e, Undisturbed u ev := by
  intro ev hev
  cases Step.of_step hs with
  | start op =>
    cases hev
    trivial
  | lock hi hfree =>
    cases hev
    exact undisturbed_of_not_sends (h.simulates.get hi) rfl
  | unlock hi =>
    cases hev
    exact undisturbed_of_not_sends (h.simulates.get hi) rfl
  | part hi hlt => simp [atomic, hi, Nat.ne_of_lt hlt] at hev
  | last hi heq =>
    simp only [atomic, hi, if_pos heq, Option.mem_def, Option.some.injEq] at hev
    subst hev
    exact h.undisturbed hg

theorem Sent.simulates_step (h : Sent node s u) (hg : Uncut s e) (hs : pipeStep node s e = some t) :
    ∃ v, Reaches (Writers.step (Op.code node)) {} v ∧ Simulates Chunk.bytes t v ∧ Sound v := by
  obtain ⟨v, hrun, hsim⟩ := h.simulates.step (h.alone_step hg hs) hs
  refine ⟨v, h.reached.trans ⟨_, hrun⟩, hsim, ?_⟩
  have hund := h.undisturbed_step hg hs
  cases hat : atomic Chunk.bytes s e with
  | none =>
    rw [hat] at hrun
    cases hrun
    exact h.sound
  | some ev =>
    rw [hat] at hrun
    obtain ⟨w, hw, hrun⟩ := Option.bind_eq_some_iff.1 hrun
    cases hrun
    exact step_sound h.sound (hund ev hat) hw

theorem Sent.step (h : Sent node s u) (hg : Uncut s e) (hs : pipeStep node s e = some t) : ∃ v, Sent node t v := by
  obtain ⟨v, hreach, hsim, hsound⟩ := h.simulates_step hg hs
  suffices hrest : (∀ x ∈ t.threads, 0 < x.done → sends x.todo = true) ∧ Lone t.threads from
    ⟨v, hreach, hsim, hsound, hrest.1, hrest.2⟩
  have hset : ∀ {i : Nat} {x' : Thread Op Chunk}, (0 < x'.done → sends x'.todo = true) →
      ∀ y ∈ s.threads.set i x', 0 < y.done → sends y.todo = true := by
    intro i x' hnew y hy
    rcases List.mem_or_eq_of_mem_set hy with hy | rfl
    · exact h.inside y hy
    · exact hnew
  cases Step.of_step hs with
  | start op =>
    refine ⟨fun y hy hpos => ?_, h.lone.append rfl (owed_code node op)⟩
    rcases List.mem_append.1 hy with hy | hy
    · exact h.inside y hy hpos
    · rw [List.mem_singleton.1 hy] at hpos
      exact absurd hpos (Nat.lt_irrefl 0)
  | lock hi hfree => exact ⟨hset fun hpos => absurd hpos (Nat.lt_irrefl 0), h.lone.set hi rfl rfl⟩
  | unlock hi => exact ⟨hset fun hpos => absurd hpos (Nat.lt_irrefl 0), h.lone.set hi rfl rfl⟩
  | part hi hlt => exact ⟨hset fun _ => rfl, .set_of_others (h.others hg hi rfl)⟩
  | last hi heq => exact ⟨hset fun hpos => absurd hpos (Nat.lt_irrefl 0), .set_of_others (h.others hg hi rfl)⟩

/-! ## The stream -/

/-- The chunk in hand is part of a message that its sender completes. -/
theorem whole_emit {bs : List Byte} {c : Chunk} {todo : Code} (hf : Framed (.emit c :: todo))
    (h : MsgHdr.framing.Whole (bs ++ owed (.emit c :: todo))) :
    MsgHdr.framing.Whole (bs ++ (c.bytes ++ owed todo)) := by
  cases c with
  | head hdr =>
    have hsnoc := h.snoc ⟨hdr, owed todo, hf.1⟩
    rwa [owed, List.append_nil] at hsnoc
  | body bs' => rwa [hf.1.2, List.append_nil]

theorem exists_emit_of_sends {c : Code} (h : sends c = true) : ∃ a d, c = .emit a :: d := by
  cases c with
  | nil => cases h
  | cons act d =>
    cases act with
    | emit a => exact ⟨a, d, rfl⟩
    | _ => cases h

theorem Sent.whole (h : Sent node s u) : PiecesWhole s := by
  have hwhole := h.sound.whole
  unfold MessagesWhole written at hwhole
  unfold PiecesWhole
  rw [h.simulates.out]
  by_cases hin : ∃ (i : Nat) (x : Thread Op Chunk), s.threads[i]? = some x ∧ 0 < x.done
  · obtain ⟨i, x, hi, hpos⟩ := hin
    have hothers := fun j y hj hy => h.lone i j x y hi hy hpos hj
    have hquiet : Quiet (debts u) i := by
      intro j hj
      cases hy : s.threads[j]? with
      | none => simp [debts, h.simulates.threads, List.getD_eq_getElem?_getD, hy]
      | some y => exact (getD_debts (h.simulates.get hy)).trans (hothers j y hj hy).2
    rw [flatten_of_quiet hquiet, getD_debts (h.simulates.get hi)] at hwhole
    have hmem := List.mem_of_getElem? hi
    have hframed : Framed x.todo := h.sound.framed _ (h.mem hmem)
    have hpending : s.threads.flatMap pending = pending x := flatMap_of_alone hi fun j y hj hy => by
      obtain ⟨hd, ho⟩ := hothers j y hj hy
      unfold pending
      split
      · rw [if_pos hd, ho]
      · exact ho
    rw [hpending, flatMap_of_alone hi fun j y hj hy => inHand_of_done_eq_zero (hothers j y hj hy).1]
    obtain ⟨op, held, todo, done⟩ := x
    obtain ⟨c, todo', rfl⟩ := exists_emit_of_sends (h.inside _ hmem hpos)
    have hcut : inHand Chunk.bytes ⟨op, held, .emit c :: todo', done⟩ ++ pending ⟨op, held, .emit c :: todo', done⟩ =
        c.bytes ++ owed todo' := by
      simp only [inHand, pending, if_neg (Nat.ne_of_gt hpos), ← List.append_assoc, List.take_append_drop]
    rw [List.append_assoc, hcut]
    exact whole_emit hframed hwhole
  · have hidle : ∀ x ∈ s.threads, x.done = 0 := by
      intro x hx
      obtain ⟨i, hi⟩ := List.mem_iff_getElem?.1 hx
      by_contra hne
      exact hin ⟨i, x, hi, Nat.pos_of_ne_zero hne⟩
    have hhand : s.threads.flatMap (inHand Chunk.bytes) = [] := by
      rw [List.flatMap_eq_nil_iff]
      exact fun x hx => inHand_of_done_eq_zero (hidle x hx)
    have hpending : s.threads.flatMap pending = (debts u).flatten := by
      rw [debts, h.simulates.threads, List.map_map, ← List.flatMap_def]
      refine List.flatMap_congr fun x hx => ?_
      unfold pending
      split
      · rw [if_pos (hidle x hx)]
        rfl
      · rfl
    rw [hhand, hpending, List.append_nil]
    exact hwhole

/-- **Sends in pieces**: however the kernel cuts the sends and however the senders interleave, the connection holds what
a run of the senders with undivided sends has written, followed by the written part of the chunk in hand, and the
messages on it are whole up to what is pending. -/
theorem sends_in_pieces_whole (node : UInt32) {es : List (Event Op)}
    (hg : EachStep (pipeStep node) Uncut {} es) :
    Always (pipeStep node) (fun s => PiecesWhole s ∧
      ∃ u, Reaches (Writers.step (Op.code node)) {} u ∧ Simulates Chunk.bytes s u) {} es := by
  refine Always.of_eachStep (fun s => ∃ u, Sent node s u) ?_ ?_ ⟨{}, .init node⟩ hg
  · rintro s e t ⟨u, h⟩ hg hs
    exact h.step hg hs
  · rintro s ⟨u, h⟩
    exact ⟨h.whole, u, h.reached, h.simulates⟩

/-- A heartbeat in four pieces, with another one waiting for the lock. -/
def heartbeatInPieces : List (Event Op) :=
  [.start (.heartbeat ⟨List.replicate 72 5, rfl⟩), .act 0, .piece 0 30, .start (.heartbeat ⟨List.replicate 72 6, rfl⟩),
    .piece 0 10, .piece 0 71, .piece 0 1, .act 0, .act 1, .piece 1 40]

theorem heartbeatInPieces_whole :
    (run (pipeStep 1) {} heartbeatInPieces).isSome = true ∧
      Always (pipeStep 1) (fun s => PiecesWhole s ∧
        ∃ u, Reaches (Writers.step (Op.code 1)) {} u ∧ Simulates Chunk.bytes s u) {} heartbeatInPieces :=
  ⟨by decide, sends_in_pieces_whole 1 (by decide)⟩

end Sent

end UckSmp.ShortSends
