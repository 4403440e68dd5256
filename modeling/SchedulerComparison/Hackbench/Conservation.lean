import Mathlib.Algebra.Order.BigOperators.Group.Finset
import Mathlib.Tactic.Linarith
import Mathlib.Tactic.Ring
import SchedulerComparison.Hackbench.Packets

/-!
# When hackbench conserves its messages

`conserves_iff` shows that either copy of hackbench conserves its messages exactly when
`num_fds * loops`, over the integers, is below `2^32`. Up to there `num_packets` is that product
in both copies and the receiver's 32-bit counter reaches it. From there on the counter of
`hackbench/` never does, and a receiver waits on an empty pipe for ever; and the product of
`toy/` wraps, and a receiver leaves too early.

`Inv` relates each control point to the bytes that went through the pipes, for all parameters and
both copies; the case distinction is made in the states in which nothing can move
(`stuck_sender`, `stuck_receiver`).
-/

open Transition Finset

namespace Hackbench.Packets

/-! ## Counters -/

section
variable {p : Params}

theorem Params.numFds_pos (p : Params) : 0 < p.numFds.toNat := by
  have := UInt32.le_iff_toNat_le.1 p.one_le_numFds
  exact this

theorem Params.datasize_pos (p : Params) : 0 < p.datasize.toNat := by
  have := UInt32.le_iff_toNat_le.1 p.one_le_datasize
  exact this

/-- The product of two 32-bit numbers fits 64 bits. -/
theorem numPackets_hackbench (p : Params) :
    (Copy.numPackets p .hackbench).toNat = p.numFds.toNat * p.loops.toNat := by
  have h : p.numFds.toNat * p.loops.toNat < 2 ^ 32 * 2 ^ 32 :=
    Nat.mul_lt_mul'' p.numFds.toNat_lt p.loops.toNat_lt
  rw [Copy.numPackets, UInt64.toNat_mul, UInt32.toNat_toUInt64, UInt32.toNat_toUInt64]
  exact Nat.mod_eq_of_lt h

theorem numPackets_toy (p : Params) :
    (Copy.numPackets p .toy).toNat = p.numFds.toNat * p.loops.toNat % 2 ^ 32 := by
  rw [Copy.numPackets, UInt32.toNat_toUInt64, UInt32.toNat_mul]

/-- Below `2^32` both copies compute the product. -/
theorem numPackets_of_lt {c : Copy} (h : p.numFds.toNat * p.loops.toNat < 2 ^ 32) :
    (c.numPackets p).toNat = p.numFds.toNat * p.loops.toNat := by
  cases c with
  | hackbench => exact numPackets_hackbench p
  | toy => rw [numPackets_toy]; exact Nat.mod_eq_of_lt h

/-! ## The invariant -/

/-- The counters of a sender are in range. -/
def SenderPoint.InRange (p : Params) : SenderPoint → Prop
  | .outer i => i.toNat ≤ p.loops.toNat
  | .inner i j => i.toNat < p.loops.toNat ∧ j.toNat ≤ p.numFds.toNat
  | .write i j done =>
    i.toNat < p.loops.toNat ∧ j.toNat < p.numFds.toNat ∧ done < p.datasize.toNat
  | .returned => True

/-- What a receiver at a control point has read. Its counter is the number of packets, modulo
`2^32`. -/
def ReceiverPoint.HasRead (p : Params) (numPackets bytes : Nat) : ReceiverPoint → Prop
  | .loop i => ∃ m, bytes = m * p.datasize.toNat ∧ m % 2 ^ 32 = i.toNat ∧
      (numPackets < 2 ^ 32 → m ≤ numPackets)
  | .read i done => ∃ m, bytes = m * p.datasize.toNat + done ∧ done < p.datasize.toNat ∧
      m % 2 ^ 32 = i.toNat ∧ (numPackets < 2 ^ 32 → m < numPackets)
  | .left => numPackets < 2 ^ 32 ∧ bytes = numPackets * p.datasize.toNat

/-- The control points and the bytes of a group agree. -/
structure Inv (c : Copy) (p : Params) (g : Group) : Prop where
  senders : ∀ q < p.numFds.toNat, (g.senders q).InRange p
  written : ∀ r < p.numFds.toNat,
    g.written r = ∑ q ∈ range p.numFds.toNat, (g.senders q).sent p r
  receivers : ∀ r < p.numFds.toNat,
    (g.receivers r).HasRead p (c.numPackets p).toNat (g.consumed r)
  consumed : ∀ r < p.numFds.toNat, g.consumed r ≤ g.written r

/-- What is left to do for a sender: each byte it has to write, and the steps between. -/
def SenderPoint.rest (p : Params) : SenderPoint → Nat
  | .outer i => 4 * ((p.loops.toNat - i.toNat) * p.numFds.toNat * p.datasize.toNat) +
      2 * (p.loops.toNat - i.toNat) + 2
  | .inner i j => 4 * ((p.loops.toNat - i.toNat - 1) * p.numFds.toNat * p.datasize.toNat +
      (p.numFds.toNat - j.toNat) * p.datasize.toNat) + 2 * (p.loops.toNat - i.toNat) + 1
  | .write i j done => 4 * ((p.loops.toNat - i.toNat - 1) * p.numFds.toNat * p.datasize.toNat +
      (p.numFds.toNat - j.toNat - 1) * p.datasize.toNat + (p.datasize.toNat - done)) +
      2 * (p.loops.toNat - i.toNat)
  | .returned => 0

/-- A loop head of a sender keeps what it has sent, and is a step forward. -/
theorem SenderPoint.next_spec {x y : SenderPoint} (hx : x.InRange p) (hy : x.next p = some y) :
    y.InRange p ∧ (∀ r < p.numFds.toNat, y.sent p r = x.sent p r) ∧ y.rest p < x.rest p := by
  cases x with
  | write | returned => cases hy
  | outer i =>
    have hx : i.toNat ≤ p.loops.toNat := hx
    simp only [SenderPoint.next, Option.some.injEq] at hy
    split at hy
    · next hi =>
      subst hy
      have hi := UInt32.lt_iff_toNat_lt.1 hi
      refine ⟨⟨hi, Nat.zero_le _⟩, fun r _ => ?_, ?_⟩
      · simp only [SenderPoint.sent, UInt32.toNat_zero, Nat.not_lt_zero, if_false, Nat.add_zero]
      · obtain ⟨a, ha⟩ := Nat.exists_eq_add_of_lt hi
        have h1 : p.loops.toNat - i.toNat = a + 1 := by omega
        simp only [SenderPoint.rest, h1, Nat.add_sub_cancel, UInt32.toNat_zero, Nat.sub_zero]
        have : (a + 1) * p.numFds.toNat * p.datasize.toNat =
            a * p.numFds.toNat * p.datasize.toNat + p.numFds.toNat * p.datasize.toNat := by ring
        omega
    · next hi =>
      subst hy
      have heq : i.toNat = p.loops.toNat := Nat.le_antisymm hx (toNat_le_of_not_lt hi)
      refine ⟨trivial, fun r _ => ?_, ?_⟩
      · simp only [SenderPoint.sent, heq]
      · simp only [SenderPoint.rest]
        omega
  | inner i j =>
    obtain ⟨hi, hj⟩ := hx
    simp only [SenderPoint.next, Option.some.injEq] at hy
    split at hy
    · next hlt =>
      subst hy
      have hlt := UInt32.lt_iff_toNat_lt.1 hlt
      refine ⟨⟨hi, hlt, p.datasize_pos⟩, fun r _ => ?_, ?_⟩
      · simp only [SenderPoint.sent, ite_self]
      · obtain ⟨b, hb⟩ := Nat.exists_eq_add_of_lt hlt
        have h1 : p.numFds.toNat - j.toNat = b + 1 := by omega
        simp only [SenderPoint.rest, h1, Nat.add_sub_cancel, Nat.sub_zero, Nat.succ_mul]
        omega
    · next hlt =>
      subst hy
      have heq : j.toNat = p.numFds.toNat := Nat.le_antisymm hj (toNat_le_of_not_lt hlt)
      have hsucc := toNat_succ hi
      refine ⟨?_, fun r hr => ?_, ?_⟩
      · show (i + 1).toNat ≤ p.loops.toNat
        omega
      · simp only [SenderPoint.sent, hsucc, heq, if_pos hr, Nat.succ_mul]
      · have h1 : p.loops.toNat - (i.toNat + 1) = p.loops.toNat - i.toNat - 1 := by omega
        simp only [SenderPoint.rest, hsucc, heq, h1, Nat.sub_self, Nat.zero_mul, Nat.add_zero]
        omega

/-- A write of `n` bytes to pipe `j`. -/
theorem SenderPoint.wrote_spec {i j : UInt32} {done n : Nat} (hx : InRange p (.write i j done))
    (h0 : 0 < n) (hn : n ≤ p.datasize.toNat - done) :
    (wrote p i j done n).InRange p ∧
      (wrote p i j done n).sent p j.toNat = sent p j.toNat (.write i j done) + n ∧
      (∀ r ≠ j.toNat, (wrote p i j done n).sent p r = sent p r (.write i j done)) ∧
      (wrote p i j done n).rest p < rest p (.write i j done) := by
  obtain ⟨hi, hj, hd⟩ := hx
  unfold wrote
  split
  · next hlt =>
    refine ⟨⟨hi, hj, hlt⟩, ?_, fun r hr => ?_, ?_⟩
    · simp only [sent, lt_irrefl, if_false, if_true]
      omega
    · simp only [sent, if_neg hr]
    · simp only [rest]
      omega
  · next hlt =>
    have hsucc := toNat_succ hj
    have hfull : done + n = p.datasize.toNat := by omega
    refine ⟨⟨hi, ?_⟩, ?_, fun r hr => ?_, ?_⟩
    · omega
    · simp only [sent, hsucc, lt_irrefl, if_false, if_true, Nat.lt_succ_self]
      omega
    · have hiff : r < j.toNat + 1 ↔ r < j.toNat := by omega
      simp only [sent, hsucc, if_neg hr, hiff]
    · have h1 : p.numFds.toNat - (j.toNat + 1) = p.numFds.toNat - j.toNat - 1 := by omega
      simp only [rest, hsucc, h1]
      omega

/-- The loop head of a receiver. -/
theorem ReceiverPoint.next_spec {numPackets : UInt64} {bytes : Nat} {x y : ReceiverPoint}
    (hx : x.HasRead p numPackets.toNat bytes) (hy : x.next numPackets = some y) :
    y.HasRead p numPackets.toNat bytes := by
  cases x with
  | read | left => cases hy
  | loop i =>
    obtain ⟨m, hb, hm, hle⟩ := hx
    simp only [ReceiverPoint.next, Option.some.injEq] at hy
    have hi := i.toNat_lt
    split at hy
    · next hlt =>
      subst hy
      have hlt := UInt64.lt_iff_toNat_lt.1 hlt
      rw [UInt32.toNat_toUInt64] at hlt
      refine ⟨m, by omega, p.datasize_pos, hm, fun hnp => ?_⟩
      have := hle hnp
      omega
    · next hlt =>
      subst hy
      have hlt : ¬ i.toNat < numPackets.toNat := fun h =>
        hlt (UInt64.lt_iff_toNat_lt.2 (by rwa [UInt32.toNat_toUInt64]))
      have hnp : numPackets.toNat < 2 ^ 32 := by omega
      have hle := hle hnp
      have heq : m = numPackets.toNat := by omega
      exact ⟨hnp, by rw [hb, heq]⟩

/-- A read of `n` bytes. -/
theorem ReceiverPoint.got_spec {numPackets bytes done n : Nat} {i : UInt32}
    (hx : HasRead p numPackets bytes (.read i done)) (hn : n ≤ p.datasize.toNat - done) :
    (got p i done n).HasRead p numPackets (bytes + n) := by
  obtain ⟨m, hb, hd, hm, hlt⟩ := hx
  unfold got
  split
  · next h => exact ⟨m, by omega, h, hm, hlt⟩
  · next h =>
    have hfull : done + n = p.datasize.toNat := by omega
    refine ⟨m + 1, ?_, ?_, fun hnp => hlt hnp⟩
    · rw [hb, Nat.succ_mul]
      omega
    · have h1 : (1 : UInt32).toNat = 1 := rfl
      rw [UInt32.toNat_add, h1, ← hm]
      omega

end

/-! ## Steps -/

section
variable {c : Copy} {p : Params} {g g' : Group} {e : Event} {q r : Nat}

/-- The moves of a group. -/
inductive Moves (c : Copy) (p : Params) (g : Group) : Group → Prop
  | senderLoop {q : Nat} {y : SenderPoint} (hq : q < p.numFds.toNat)
      (hy : (g.senders q).next p = some y) :
      Moves c p g { g with senders := Function.update g.senders q y }
  | senderWrite {q : Nat} {i j : UInt32} {done n : Nat} (hq : q < p.numFds.toNat)
      (hx : g.senders q = .write i j done) (h0 : 0 < n) (hn : n ≤ p.datasize.toNat - done) :
      Moves c p g { g with
        senders := Function.update g.senders q (.wrote p i j done n)
        written := Function.update g.written j.toNat (g.written j.toNat + n) }
  | receiverLoop {q : Nat} {y : ReceiverPoint} (hq : q < p.numFds.toNat)
      (hy : (g.receivers q).next (c.numPackets p) = some y) :
      Moves c p g { g with receivers := Function.update g.receivers q y }
  | receiverRead {q : Nat} {i : UInt32} {done n : Nat} (hq : q < p.numFds.toNat)
      (hx : g.receivers q = .read i done) (h0 : 0 < n) (hn : n ≤ p.datasize.toNat - done)
      (hc : g.consumed q + n ≤ g.written q) :
      Moves c p g { g with
        receivers := Function.update g.receivers q (.got p i done n)
        consumed := Function.update g.consumed q (g.consumed q + n) }

/-- The steps of a group are these moves. -/
theorem moves_of_step (h : step c p g e = some g') : Moves c p g g' := by
  cases e with
  | sender q n =>
    simp only [step] at h
    split at h
    · next hq =>
      split at h
      · next i j done hx =>
        split at h
        · next hn => cases h; exact .senderWrite hq hx hn.1 hn.2.1
        · cases h
      · obtain ⟨y, hy, rfl⟩ := Option.map_eq_some_iff.1 h
        exact .senderLoop hq hy
    · cases h
  | receiver q n =>
    simp only [step] at h
    split at h
    · next hq =>
      split at h
      · next i done hx =>
        split at h
        · next hn => cases h; exact .receiverRead hq hx hn.1 hn.2.1 hn.2.2
        · cases h
      · obtain ⟨y, hy, rfl⟩ := Option.map_eq_some_iff.1 h
        exact .receiverLoop hq hy
    · cases h

theorem inv_init (c : Copy) (p : Params) : Inv c p init where
  senders _ _ := Nat.zero_le _
  written r _ := by
    simp only [init, SenderPoint.sent, UInt32.toNat_zero, Nat.zero_mul, sum_const_zero]
  receivers _ _ := ⟨0, by simp only [init, Nat.zero_mul], rfl, fun _ => Nat.zero_le _⟩
  consumed _ _ := le_rfl

theorem inv_moves (hi : Inv c p g) (hm : Moves c p g g') : Inv c p g' := by
  cases hm with
  | @senderLoop q y hq hy =>
    obtain ⟨hr, hsent, -⟩ := SenderPoint.next_spec (hi.senders q hq) hy
    refine ⟨forall_update hi.senders fun _ => hr, fun r hr => ?_, hi.receivers, hi.consumed⟩
    have hsum := sum_update (range p.numFds.toNat) g.senders (·.sent p r) (mem_range.2 hq) y
    rw [hsent r hr] at hsum
    have := hi.written r hr
    dsimp only
    omega
  | @senderWrite q i j done n hq hx h0 hn =>
    have hin := hi.senders q hq
    rw [hx] at hin
    obtain ⟨hr, hsame, hother, -⟩ := SenderPoint.wrote_spec hin h0 hn
    refine ⟨forall_update hi.senders fun _ => hr, fun r hr => ?_, hi.receivers, fun r hr => ?_⟩
    · have hsum := sum_update (range p.numFds.toNat) g.senders (·.sent p r) (mem_range.2 hq)
        (.wrote p i j done n)
      have hw := hi.written r hr
      rw [hx] at hsum
      dsimp only at hsum ⊢
      by_cases hrj : r = j.toNat
      · subst hrj
        rw [Function.update_self]
        omega
      · rw [Function.update_of_ne hrj]
        have := hother r hrj
        omega
    · have := hi.consumed r hr
      dsimp only
      by_cases hrj : r = j.toNat
      · subst hrj
        rw [Function.update_self]
        omega
      · rw [Function.update_of_ne hrj]
        exact this
  | @receiverLoop q y hq hy =>
    refine ⟨hi.senders, hi.written, ?_, hi.consumed⟩
    exact forall_update
      (P := fun r x => ReceiverPoint.HasRead p (c.numPackets p).toNat (g.consumed r) x)
      hi.receivers fun _ => ReceiverPoint.next_spec (hi.receivers q hq) hy
  | @receiverRead q i done n hq hx h0 hn hc =>
    have hread := hi.receivers q hq
    rw [hx] at hread
    refine ⟨hi.senders, hi.written, fun r hr => ?_, ?_⟩
    · dsimp only
      by_cases hrq : r = q
      · subst hrq
        rw [Function.update_self, Function.update_self]
        exact ReceiverPoint.got_spec hread hn
      · rw [Function.update_of_ne hrq, Function.update_of_ne hrq]
        exact hi.receivers r hr
    · exact forall_update (P := fun r k => k ≤ g.written r) hi.consumed fun _ => hc

/-! ## Every run ends -/

/-- A sender writes at most its share to each pipe. -/
theorem SenderPoint.sent_le {x : SenderPoint} (hx : x.InRange p) :
    x.sent p r ≤ p.loops.toNat * p.datasize.toNat := by
  have share : ∀ {i k : Nat}, i < p.loops.toNat → k ≤ p.datasize.toNat →
      i * p.datasize.toNat + k ≤ p.loops.toNat * p.datasize.toNat := by
    intro i k hi hk
    have : (i + 1) * p.datasize.toNat ≤ p.loops.toNat * p.datasize.toNat :=
      Nat.mul_le_mul_right _ hi
    rw [Nat.succ_mul] at this
    omega
  cases x with
  | outer i => exact Nat.mul_le_mul_right _ hx
  | inner i j =>
    refine share hx.1 ?_
    split <;> omega
  | write i j done =>
    have := hx.2.2
    refine share hx.1 ?_
    split
    · exact le_rfl
    · split <;> omega
  | returned => exact le_rfl

/-- At most the total goes through a pipe. -/
theorem Inv.written_le (hi : Inv c p g) (hr : r < p.numFds.toNat) : g.written r ≤ p.total := by
  have hle : ∀ q ∈ range p.numFds.toNat,
      (g.senders q).sent p r ≤ p.loops.toNat * p.datasize.toNat :=
    fun q hq => SenderPoint.sent_le (hi.senders q (mem_range.1 hq))
  have := sum_le_card_nsmul _ _ _ hle
  rw [card_range, Nat.nsmul_eq_mul, ← Nat.mul_assoc] at this
  rw [hi.written r hr]
  exact this

/-- The loop head of a receiver comes before its `read`. -/
def ReceiverPoint.rest : ReceiverPoint → Nat
  | .loop _ => 1
  | _ => 0

/-- What is left to do for a group. -/
def Group.rest (p : Params) (g : Group) : Nat :=
  ∑ q ∈ range p.numFds.toNat, (g.senders q).rest p +
    ∑ r ∈ range p.numFds.toNat, 2 * (p.total - g.consumed r) +
    ∑ r ∈ range p.numFds.toNat, (g.receivers r).rest

theorem rest_moves (hi : Inv c p g) (hm : Moves c p g g') : g'.rest p < g.rest p := by
  cases hm with
  | @senderLoop q y hq hy =>
    obtain ⟨-, -, hlt⟩ := SenderPoint.next_spec (hi.senders q hq) hy
    have := sum_update (range p.numFds.toNat) g.senders (·.rest p) (mem_range.2 hq) y
    simp only [Group.rest] at this ⊢
    omega
  | @senderWrite q i j done n hq hx h0 hn =>
    have hin := hi.senders q hq
    rw [hx] at hin
    obtain ⟨-, -, -, hlt⟩ := SenderPoint.wrote_spec hin h0 hn
    have := sum_update (range p.numFds.toNat) g.senders (·.rest p) (mem_range.2 hq)
      (.wrote p i j done n)
    rw [hx] at this
    simp only [Group.rest] at this ⊢
    omega
  | @receiverLoop q y hq hy =>
    have hlt : y.rest < (g.receivers q).rest := by
      cases hx : g.receivers q with
      | read | left => rw [hx] at hy; cases hy
      | loop i =>
        rw [hx] at hy
        cases hy
        split <;> exact Nat.one_pos
    have := sum_update (range p.numFds.toNat) g.receivers (·.rest) (mem_range.2 hq) y
    simp only [Group.rest] at this ⊢
    omega
  | @receiverRead q i done n hq hx h0 hn hc =>
    have hle := hi.written_le hq
    have hgot : (ReceiverPoint.got p i done n).rest ≤ 1 := by
      unfold ReceiverPoint.got
      split <;> simp only [ReceiverPoint.rest, le_refl, Nat.zero_le]
    have h1 := sum_update (range p.numFds.toNat) g.receivers (·.rest) (mem_range.2 hq)
      (.got p i done n)
    have h2 := sum_update (range p.numFds.toNat) g.consumed (fun k => 2 * (p.total - k))
      (mem_range.2 hq) (g.consumed q + n)
    rw [hx] at h1
    simp only [Group.rest] at h1 h2 ⊢
    have h3 : (ReceiverPoint.read i done).rest = 0 := rfl
    omega

/-- Every step keeps the invariant, and is one less to do. -/
theorem inv_step (hi : Inv c p g) (hs : step c p g e = some g') :
    Inv c p g' ∧ g'.rest p < g.rest p :=
  ⟨inv_moves hi (moves_of_step hs), rest_moves hi (moves_of_step hs)⟩

theorem reach_inv (h : Reach (step c p) Free init g) : Inv c p g :=
  h.invariant (inv_init c p) fun _ _ _ hi _ hs => (inv_step hi hs).1

/-- The number of bytes of a message that were written or read is an `int`. -/
theorem done_lt (h : Reach (step c p) Free init g) (hr : r < p.numFds.toNat) {i j : UInt32}
    {done : Nat} (hx : g.senders r = .write i j done ∨ g.receivers r = .read i done) :
    done < 2 ^ 31 := by
  have hi := reach_inv h
  have hsize := UInt32.le_iff_toNat_le.1 p.datasize_le
  have hmax : intMax.toNat = 2147483647 := rfl
  have hlt : done < p.datasize.toNat := by
    rcases hx with hx | hx
    · have hrange := hi.senders r hr
      rw [hx] at hrange
      exact hrange.2.2
    · have hread := hi.receivers r hr
      rw [hx] at hread
      obtain ⟨m, -, hlt, -⟩ := hread
      exact hlt
  omega

/-! ## When nothing can move -/

/-- A sender that cannot move has returned, or the pipe it writes to is full. -/
theorem stuck_sender (hi : Inv c p g) (hst : Stuck (step c p) g) (hq : q < p.numFds.toNat) :
    g.senders q = .returned ∨ ∃ r < p.numFds.toNat, g.consumed r < g.written r := by
  have hnone := hst (.sender q 1)
  have hin := hi.senders q hq
  simp only [step, if_pos hq] at hnone
  cases hx : g.senders q with
  | returned => exact .inl rfl
  | outer | inner => simp only [hx, SenderPoint.next, Option.map_some, reduceCtorEq] at hnone
  | write i j done =>
    rw [hx] at hin
    obtain ⟨-, hj, hd⟩ := hin
    have hpipe := p.pipeSize_pos
    simp only [hx, ite_eq_right_iff, reduceCtorEq, imp_false] at hnone
    exact .inr ⟨j.toNat, hj, by omega⟩

/-- A receiver that cannot move has left, or its pipe is empty. -/
theorem stuck_receiver (hi : Inv c p g) (hst : Stuck (step c p) g) (hr : r < p.numFds.toNat) :
    g.receivers r = .left ∨ g.Waits r := by
  have hnone := hst (.receiver r 1)
  have hread := hi.receivers r hr
  simp only [step, if_pos hr] at hnone
  cases hx : g.receivers r with
  | left => exact .inl rfl
  | loop => simp only [hx, ReceiverPoint.next, Option.map_some, reduceCtorEq] at hnone
  | read i done =>
    rw [hx] at hread
    obtain ⟨m, -, hd, -⟩ := hread
    have hle := hi.consumed r hr
    simp only [hx, ite_eq_right_iff, reduceCtorEq, imp_false] at hnone
    exact .inr ⟨i, done, hx, by omega⟩

/-! ## Conservation -/

/-- A receiver that has left has read what it counts. -/
theorem consumed_of_left (hi : Inv c p g) (hr : r < p.numFds.toNat) (hx : g.receivers r = .left) :
    (c.numPackets p).toNat < 2 ^ 32 ∧
      g.consumed r = (c.numPackets p).toNat * p.datasize.toNat := by
  have hread := hi.receivers r hr
  rw [hx] at hread
  exact hread

/-- Once all senders have returned, everything has been written. -/
theorem written_of_returned (hi : Inv c p g) (hall : ∀ q < p.numFds.toNat, g.senders q = .returned)
    (hr : r < p.numFds.toNat) : g.written r = p.total := by
  have hsum : ∑ q ∈ range p.numFds.toNat, (g.senders q).sent p r =
      ∑ _q ∈ range p.numFds.toNat, p.loops.toNat * p.datasize.toNat :=
    sum_congr rfl fun q hq => by rw [hall q (mem_range.1 hq)]; rfl
  rw [hi.written r hr, hsum, sum_const, card_range, Nat.nsmul_eq_mul, ← Nat.mul_assoc]
  rfl

/-- A waiting receiver has not read everything, when it counts to the product. -/
theorem consumed_of_waits (hi : Inv c p g)
    (hlt : p.numFds.toNat * p.loops.toNat < 2 ^ 32) (hr : r < p.numFds.toNat) (hw : g.Waits r) :
    g.consumed r < p.total := by
  obtain ⟨i, done, hx, -⟩ := hw
  have hread := hi.receivers r hr
  rw [hx, numPackets_of_lt hlt] at hread
  obtain ⟨m, hb, hd, -, hm⟩ := hread
  have hle : (m + 1) * p.datasize.toNat ≤ p.total := Nat.mul_le_mul_right _ (hm hlt)
  rw [Nat.succ_mul] at hle
  omega

/-- Below `2^32` the messages are conserved. -/
theorem conserves_of_lt (hlt : p.numFds.toNat * p.loops.toNat < 2 ^ 32) : Conserves c p := by
  have left : ∀ {g : Group} {r : Nat}, Inv c p g → r < p.numFds.toNat →
      g.receivers r = .left → g.consumed r = p.total ∧ g.written r = p.total := by
    intro g r hi hr hx
    have hc := (consumed_of_left hi hr hx).2
    rw [numPackets_of_lt hlt] at hc
    have hle := hi.consumed r hr
    have hw := hi.written_le hr
    have hc : g.consumed r = p.total := hc
    omega
  have waits : ∀ {g : Group} {r : Nat}, Inv c p g →
      (∀ q < p.numFds.toNat, g.senders q = .returned) → r < p.numFds.toNat → ¬ g.Waits r := by
    intro g r hi hall hr hw
    have h1 := consumed_of_waits hi hlt hr hw
    have h2 := written_of_returned hi hall hr
    obtain ⟨i, done, -, heq⟩ := hw
    omega
  refine ⟨fun g hg r hr hx => ?_, fun g hg hall r hr => waits (reach_inv hg) hall hr,
    ⟨_, fun es g h => exec_length_le (Group.rest p) (fun _ _ _ hi hs => inv_step hi hs) es
      (inv_init c p) h⟩, fun g hg hst r hr => ?_⟩
  · have hi := reach_inv hg
    obtain ⟨hc, hw⟩ := left hi hr hx
    refine ⟨hc, hw, fun q hq => ?_⟩
    -- each sender writes at most its share, and together they have written all
    have hle : ∀ q ∈ range p.numFds.toNat,
        (g.senders q).sent p r ≤ p.loops.toNat * p.datasize.toNat :=
      fun q hq => SenderPoint.sent_le (hi.senders q (mem_range.1 hq))
    refine (sum_eq_sum_iff_of_le hle).1 ?_ q (mem_range.2 hq)
    rw [← hi.written r hr, hw, sum_const, card_range, Nat.nsmul_eq_mul, ← Nat.mul_assoc]
    rfl
  · have hi := reach_inv hg
    have hall : ∀ q < p.numFds.toNat, g.senders q = .returned := by
      intro q hq
      rcases stuck_sender hi hst hq with hx | ⟨r', hr', hfull⟩
      · exact hx
      · rcases stuck_receiver hi hst hr' with hx | ⟨i, done, -, heq⟩
        · have := left hi hr' hx
          omega
        · omega
    exact (stuck_receiver hi hst hr).resolve_right (waits hi hall hr)

/-- From `2^32` on they are not: a run that cannot go on has a receiver that has not left, or
that has left with less. -/
theorem not_conserves (hle : 2 ^ 32 ≤ p.numFds.toNat * p.loops.toNat) : ¬ Conserves c p := by
  intro h
  obtain ⟨g, hg, hi, hst⟩ := exists_stuck (Group.rest p) (fun _ _ _ hi hs => inv_step hi hs) init
    (inv_init c p)
  have hx := h.allLeave g hg hst 0 p.numFds_pos
  obtain ⟨hnp, hc⟩ := consumed_of_left hi p.numFds_pos hx
  rw [(h.exact g hg 0 p.numFds_pos hx).1] at hc
  have := Nat.eq_of_mul_eq_mul_right p.datasize_pos hc
  omega

end

/-- Either copy of hackbench conserves its messages exactly when the number of packets of a
receiver fits 32 bits. -/
theorem conserves_iff (c : Copy) (p : Params) :
    Conserves c p ↔ p.numFds.toNat * p.loops.toNat < 2 ^ 32 := by
  refine ⟨fun h => ?_, conserves_of_lt⟩
  by_contra hlt
  exact not_conserves (Nat.le_of_not_lt hlt) h

/-- Three file descriptors in infinite mode, with the default message size. -/
def infiniteParams : Params where
  numFds := 3
  loops := intMax
  datasize := 100
  pipeSize := 65536
  one_le_numFds := by decide
  one_le_loops := by decide
  loops_le := by decide
  one_le_datasize := by decide
  datasize_le := by decide
  pipeSize_pos := by decide

/-- Neither copy conserves its messages for all parameters. -/
theorem infinite_not_conserved :
    (¬ ∀ p, Conserves .hackbench p) ∧ ¬ ∀ p, Conserves .toy p :=
  ⟨fun h => not_conserves (p := infiniteParams) (by decide) (h _),
    fun h => not_conserves (p := infiniteParams) (by decide) (h _)⟩

end Hackbench.Packets
