import SchedulerComparison.Hackbench.Main

/-!
# One group of hackbench: senders, receivers and their pipes

The loops of `sender` and `receiver` (`hackbench/hackbench.c:129`, `:164`; `toy/hackbench.c:138`,
`:171`) after the start barrier, with their C counters, for the `num_fds` senders and the
`num_fds` receivers of one `group`. A pipe is the number of bytes written to it and the number
read from it; a write takes what the pipe has room for, a read what it holds, both at least a
byte. The two copies of the program differ in how `group` computes `num_packets`. The number of
bytes `done`, an `int` of the source, is a natural number here; `Hackbench.Conservation` shows that
it fits (`done_lt`).
-/

open Transition

namespace Hackbench.Packets

/-- The parameters of a group, and the size of a pipe. `loops` and `datasize` are what
`process_options` reads from arguments that are not negative; a negative one passes its check too,
as an `unsigned int` above `INT_MAX`, and is not modelled. A message has room on the stack. -/
structure Params where
  numFds : UInt32
  loops : UInt32
  datasize : UInt32
  pipeSize : Nat
  one_le_numFds : 1 ≤ numFds
  one_le_loops : 1 ≤ loops
  loops_le : loops ≤ intMax
  one_le_datasize : 1 ≤ datasize
  datasize_le : datasize ≤ intMax
  pipeSize_pos : 0 < pipeSize

/-- The two copies of hackbench. -/
inductive Copy where
  | hackbench
  | toy
  deriving DecidableEq

/-- `ctx->num_packets`, a `uint64_t`: `num_fds*(uint64_t)loops` (`hackbench/hackbench.c:272`) and
`num_fds*loops` (`toy/hackbench.c:315`). -/
def Copy.numPackets (p : Params) : Copy → UInt64
  | .hackbench => p.numFds.toUInt64 * p.loops.toUInt64
  | .toy => (p.numFds * p.loops).toUInt64

/-- Where a sender is: at the two loop heads, at a `write` with `done` bytes of the message
written, or returned. -/
inductive SenderPoint where
  | outer (i : UInt32)
  | inner (i j : UInt32)
  | write (i j : UInt32) (done : Nat)
  | returned
  deriving DecidableEq

/-- Where a receiver is: at the loop head, at a `read` with `done` bytes of the message read, or
out of the loop. -/
inductive ReceiverPoint where
  | loop (i : UInt32)
  | read (i : UInt32) (done : Nat)
  | left
  deriving DecidableEq

/-- A group: its senders and receivers, and the bytes written to and read from the pipe of each
receiver. -/
structure Group where
  senders : Nat → SenderPoint
  receivers : Nat → ReceiverPoint
  written : Nat → Nat
  consumed : Nat → Nat

/-- A step of sender or receiver `q`, which writes or reads `n` bytes if it is at a `write` or a
`read`. -/
inductive Event where
  | sender (q n : Nat)
  | receiver (q n : Nat)

/-- The loop heads of `sender` (`hackbench/hackbench.c:139-140`). -/
def SenderPoint.next (p : Params) : SenderPoint → Option SenderPoint
  | .outer i => some (if i < p.loops then .inner i 0 else .returned)
  | .inner i j => some (if j < p.numFds then .write i j 0 else .outer (i + 1))
  | .write _ _ _ | .returned => none

/-- After a `write` of `n` bytes (`hackbench/hackbench.c:144-152`): `goto again`, or `j++`. -/
def SenderPoint.wrote (p : Params) (i j : UInt32) (done n : Nat) : SenderPoint :=
  if done + n < p.datasize.toNat then .write i j (done + n) else .inner i (j + 1)

/-- The loop head of `receiver` (`hackbench/hackbench.c:175`). -/
def ReceiverPoint.next (numPackets : UInt64) : ReceiverPoint → Option ReceiverPoint
  | .loop i => some (if i.toUInt64 < numPackets then .read i 0 else .left)
  | .read _ _ | .left => none

/-- After a `read` of `n` bytes (`hackbench/hackbench.c:180-186`): `goto again`, or `i++`. -/
def ReceiverPoint.got (p : Params) (i : UInt32) (done n : Nat) : ReceiverPoint :=
  if done + n < p.datasize.toNat then .read i (done + n) else .loop (i + 1)

/-- One step of a group. -/
def step (c : Copy) (p : Params) (g : Group) : Event → Option Group
  | .sender q n =>
    if q < p.numFds.toNat then
      match g.senders q with
      | .write i j done =>
        if 0 < n ∧ n ≤ p.datasize.toNat - done ∧
            g.written j.toNat + n ≤ g.consumed j.toNat + p.pipeSize then
          some { g with
            senders := Function.update g.senders q (.wrote p i j done n)
            written := Function.update g.written j.toNat (g.written j.toNat + n) }
        else none
      | x => (x.next p).map fun y => { g with senders := Function.update g.senders q y }
    else none
  | .receiver q n =>
    if q < p.numFds.toNat then
      match g.receivers q with
      | .read i done =>
        if 0 < n ∧ n ≤ p.datasize.toNat - done ∧ g.consumed q + n ≤ g.written q then
          some { g with
            receivers := Function.update g.receivers q (.got p i done n)
            consumed := Function.update g.consumed q (g.consumed q + n) }
        else none
      | x => (x.next (c.numPackets p)).map fun y =>
          { g with receivers := Function.update g.receivers q y }
    else none

/-- Everybody at the start of its loop, and the pipes empty. -/
def init : Group := ⟨fun _ => .outer 0, fun _ => .loop 0, fun _ => 0, fun _ => 0⟩

/-- The number of bytes that a sender has written to pipe `r`. -/
def SenderPoint.sent (p : Params) (r : Nat) : SenderPoint → Nat
  | .outer i => i.toNat * p.datasize.toNat
  | .inner i j => i.toNat * p.datasize.toNat + if r < j.toNat then p.datasize.toNat else 0
  | .write i j done => i.toNat * p.datasize.toNat +
      if r < j.toNat then p.datasize.toNat else if r = j.toNat then done else 0
  | .returned => p.loops.toNat * p.datasize.toNat

/-- What goes through each pipe, over the integers. -/
def Params.total (p : Params) : Nat := p.numFds.toNat * p.loops.toNat * p.datasize.toNat

/-- A receiver waits for a byte that is not there. -/
def Group.Waits (g : Group) (r : Nat) : Prop :=
  ∃ i done, g.receivers r = .read i done ∧ g.consumed r = g.written r

/-- Message conservation. A receiver leaves its loop with exactly what the senders write to it,
when they have written it; none waits once all senders have returned; and every run is finite and
can be continued until all receivers have left. -/
structure Conserves (c : Copy) (p : Params) : Prop where
  exact : ∀ g, Reach (step c p) Free init g → ∀ r < p.numFds.toNat, g.receivers r = .left →
    g.consumed r = p.total ∧ g.written r = p.total ∧
      ∀ q < p.numFds.toNat, (g.senders q).sent p r = p.loops.toNat * p.datasize.toNat
  noneWaits : ∀ g, Reach (step c p) Free init g →
    (∀ q < p.numFds.toNat, g.senders q = .returned) → ∀ r < p.numFds.toNat, ¬ g.Waits r
  finite : ∃ bound, ∀ es g, exec (step c p) Free init es = some g → es.length ≤ bound
  allLeave : ∀ g, Reach (step c p) Free init g → Stuck (step c p) g →
    ∀ r < p.numFds.toNat, g.receivers r = .left

end Hackbench.Packets
