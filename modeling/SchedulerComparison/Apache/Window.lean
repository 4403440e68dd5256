import SchedulerComparison.Apache.Handshake
import SchedulerComparison.Apache.Requests

/-!
# What the HTTP client measures

The parent takes the start time before its first request, and the child takes the end time when the
server has closed its side. Nothing keeps the server from doing so earlier: `ends_before_start` is a
run in which the logged time is negative. When the server closes its side only after the client has
shut down the sending side (`LateClose`), the time that is logged spans all requests
(`covers_lateClose`).
-/

open Transition

namespace HttpClient

/-- The server closes its side only after the client has shut down the sending side. -/
def LateClose (s : State) : Event → Prop
  | .serverCloses => s.shut = true
  | _ => True

instance (s : State) : ∀ e, Decidable (LateClose s e)
  | .serverCloses => inferInstanceAs (Decidable (_ = _))
  | .parent _ | .child _ | .killParent | .killChild | .serverReads _ | .serverSends _ | .tick _ =>
    .isTrue trivial

/-- The time between the start time and the end time. -/
def State.IsTotal (s : State) (total : Int) : Prop :=
  ∃ ticks recvDone, s.start = some ticks ∧ s.recvDone = some recvDone ∧
    total = recvDone.toInt - ticks.toInt

/-- The logged time spans all requests: nothing was sent before it starts, and when the child saw
the end of the stream, all was sent and the sending side was shut down. -/
structure State.Covers (numRequests : Int) (s : State) (total : Int) : Prop where
  atStart : s.atStart = some { sent := [], shut := false }
  atEof : s.atEof = some { sent := requests numRequests.toNat, shut := true }
  isTotal : s.IsTotal total
  nonneg : 0 ≤ total

/-! ## The invariant -/

/-- The start time has been taken, before the first request. -/
def State.Started (s : State) : Prop :=
  s.atStart = some { sent := [], shut := false } ∧
    ∃ ticks, s.start = some ticks ∧ ticks.toInt ≤ s.clock

/-- What has been sent at a control point of the parent. -/
def State.Sending (n : Int) (s : State) : ParentPoint → Prop
  | .sleep | .fork | .setAffinity | .setScheduler | .closeRead | .closeWrite | .writeStart
  | .readReady | .takeStart => s.logged = none ∧ s.shut = false ∧ s.sent = []
  | .sendHead total => s.logged = none ∧ s.shut = false ∧ s.Started ∧ total ≤ n ∧
      s.sent = requests (n.toNat - total.toNat)
  | .sendWrite total remaining curr => s.logged = none ∧ s.shut = false ∧ s.Started ∧
      (0 < total ∧ total ≤ n) ∧ (0 < remaining ∧ curr + remaining = msg.length) ∧
      s.sent = requests (n.toNat - total.toNat) ++ msg.take curr
  | .shutdown => s.logged = none ∧ s.shut = false ∧ s.Started ∧ s.sent = requests n.toNat
  | .readEnd | .wait | .log => s.logged = none ∧ s.shut = true
  | .returned => True

/-- The child has seen the end of the stream. -/
def ChildPoint.sawEof : ChildPoint → Bool
  | .takeRecvDone | .writeEnd | .finished => true
  | _ => false

/-- The invariant. -/
structure Timed (n : Int) (s : State) : Prop where
  clock : s.clock < 2 ^ 63
  sending : s.Sending n s.parent
  shut : s.shut = true → s.sent = requests n.toNat ∧ s.Started
  closed : s.serverClosed = true → s.shut = true
  eof : s.child.sawEof = true →
    s.shut = true ∧ s.atEof = some { sent := requests n.toNat, shut := true }
  times : ∀ x, s.recvDone = some x →
    s.shut = true ∧ ∃ ticks, s.start = some ticks ∧ ticks.toInt ≤ x.toInt
  logged : ∀ total, s.logged = some total → s.child = .finished ∧ s.IsTotal total

section
variable {n : Int} {s s' : State} {e : Event}

/-! ## The clock -/

/-- A time is what the clock shows. -/
theorem toInt_now (h : s.clock < 2 ^ 63) : s.now.toInt = s.clock := by
  have hnat : s.now.toNat = s.clock := by
    rw [State.now, BitVec.toNat_ofNat]
    exact Nat.mod_eq_of_lt (by omega)
  rw [BitVec.toInt_eq_toNat_of_lt (by omega), hnat]

/-- Where it has a meaning, the difference of the times is that of their values. -/
theorem eq_of_totalNanosec {endTime ticks : BitVec 64} {total : Int}
    (h : totalNanosec endTime ticks = some total) : total = endTime.toInt - ticks.toInt := by
  rw [totalNanosec] at h
  split at h <;> cases h
  rfl

/-- The clock goes on. -/
theorem Timed.tick {nanosec : Nat} (h : Timed n s) (hlt : s.clock + nanosec < 2 ^ 63) :
    Timed n { s with clock := s.clock + nanosec } := by
  have hstarted (hst : s.Started) : State.Started { s with clock := s.clock + nanosec } := by
    obtain ⟨hat, ticks, hticks, hle⟩ := hst
    exact ⟨hat, ticks, hticks, hle.trans (by simp)⟩
  refine ⟨hlt, ?_, fun hs => ⟨(h.shut hs).1, hstarted (h.shut hs).2⟩, h.closed, h.eof, h.times,
    h.logged⟩
  have hl := h.sending
  show State.Sending n _ s.parent
  cases hp : s.parent <;> rw [hp] at hl
  case sendHead => exact ⟨hl.1, hl.2.1, hstarted hl.2.2.1, hl.2.2.2⟩
  case sendWrite => exact ⟨hl.1, hl.2.1, hstarted hl.2.2.1, hl.2.2.2⟩
  case shutdown => exact ⟨hl.1, hl.2.1, hstarted hl.2.2.1, hl.2.2.2⟩
  all_goals exact hl

/-! ## The parent -/

/-- The parent goes on, or is gone, and does not use the socket. -/
theorem Timed.parent {l : ParentPoint} {alive : Bool} {ends : Ends}
    {parentToChild childToParent : List UInt8} {endTime : BitVec 64} (h : Timed n s)
    (hl : s.Sending n l) :
    Timed n { s with
      parent := l, parentAlive := alive, parentEnds := ends, parentToChild, childToParent,
      endTime } :=
  { h with sending := hl }

/-- What has been sent at the control point where the parent is. -/
theorem Timed.sendingAt {l : ParentPoint} (h : Timed n s) (hp : s.parent = l) : s.Sending n l :=
  hp ▸ h.sending

/-- The parent takes the start time. -/
theorem Timed.start (h : Timed n s) (hp : s.parent = .takeStart) :
    Timed n { s with
      parent := .sendHead n, start := some s.now, atStart := some s.use } := by
  obtain ⟨hlogged, hshut, hsent⟩ := h.sendingAt hp
  have huse : s.use = { sent := [], shut := false } := by rw [State.use, hsent, hshut]
  have hstarted : some s.use = some { sent := [], shut := false } ∧
      ∃ ticks, some s.now = some ticks ∧ ticks.toInt ≤ s.clock :=
    ⟨congrArg some huse, s.now, rfl, Int.le_of_eq (toInt_now h.clock)⟩
  have hnone : s.sent = requests (n.toNat - n.toNat) := by
    rw [hsent, Nat.sub_self]
    rfl
  exact ⟨h.clock, ⟨hlogged, hshut, hstarted, Int.le_refl n, hnone⟩,
    fun hs => absurd (hshut.symm.trans hs) Bool.false_ne_true, h.closed, h.eof,
    fun x hx => absurd (hshut.symm.trans (h.times x hx).1) Bool.false_ne_true,
    fun total ht => by cases hlogged.symm.trans ht⟩

/-- The parent sends more while it sends the requests. -/
theorem Timed.send {l : ParentPoint} {sent : List UInt8} {room : Nat} (h : Timed n s)
    (hshut : s.shut = false) (hl : State.Sending n { s with sent, room } l) :
    Timed n { s with sent, room, parent := l } :=
  { h with
    sending := hl
    shut := fun hs => absurd (hshut.symm.trans hs) Bool.false_ne_true }

/-- The next call of the parent keeps the invariant. -/
theorem parent_timed (hinv : Inv s) (h : Timed n s) (hm : ParentMoves n s s') : Timed n s' := by
  cases hm with
  | gone rest => exact h.parent h.sending
  | slept hp | pinned hp | scheduled hp | closedRead hp | closedWrite hp | wroteStart hp | ready hp
  | ended hp | waited hp =>
    have hl := h.sendingAt hp
    exact h.parent hl
  | forkFailed hp | notLogged hp => exact h.parent trivial
  | forked hp =>
    have hl := h.sendingAt hp
    exact ⟨h.clock, hl, h.shut, h.closed, fun hc => Bool.noConfusion hc, h.times,
      fun total ht => by cases hl.1.symm.trans ht⟩
  | started hp => exact h.start hp
  | sends hp hpos =>
    obtain ⟨hlogged, hshut, hstarted, hle, hsent⟩ := h.sendingAt hp
    refine h.parent ⟨hlogged, hshut, hstarted, ⟨hpos, hle⟩, ⟨msg_length_pos, Nat.zero_add _⟩, ?_⟩
    rw [List.take_zero, List.append_nil]
    exact hsent
  | @sentAll total hp hpos =>
    obtain ⟨hlogged, hshut, hstarted, -, hsent⟩ := h.sendingAt hp
    have hzero : n.toNat - total.toNat = n.toNat := by omega
    exact h.parent ⟨hlogged, hshut, hstarted, hzero ▸ hsent⟩
  | @wrote total remaining curr k hp hk =>
    obtain ⟨hlogged, hshut, hstarted, htotal, ⟨-, hlen⟩, hsent⟩ := h.sendingAt hp
    exact h.send hshut ⟨hlogged, hshut, hstarted, htotal, ⟨hk, by omega⟩, append_write hsent k⟩
  | @wroteLast total remaining curr hp =>
    obtain ⟨hlogged, hshut, hstarted, ⟨hpos, hle⟩, ⟨-, hlen⟩, hsent⟩ := h.sendingAt hp
    have hcount : n.toNat - (total - 1).toNat = n.toNat - total.toNat + 1 := by omega
    have hsent' : s.sent ++ (msg.drop curr).take remaining =
        requests (n.toNat - (total - 1).toNat) := by
      rw [hcount, append_lastWrite hsent hlen]
    exact h.send hshut ⟨hlogged, hshut, hstarted, by omega, hsent'⟩
  | shut hp =>
    obtain ⟨hlogged, -, hstarted, hsent⟩ := h.sendingAt hp
    exact ⟨h.clock, ⟨hlogged, rfl⟩, fun _ => ⟨hsent, hstarted⟩, fun _ => rfl,
      fun hc => ⟨rfl, (h.eof hc).2⟩, fun x hx => ⟨rfl, (h.times x hx).2⟩, h.logged⟩
  | @logged ticks total hp hticks htotal =>
    obtain ⟨hfinished, hdone⟩ := hinv.atParent hp
    exact ⟨h.clock, trivial, h.shut, h.closed, h.eof, h.times, fun total' ht => by
      cases ht
      exact ⟨hfinished, ticks, s.endTime, hticks, hdone, eq_of_totalNanosec htotal⟩⟩

/-! ## The child -/

/-- Nothing is logged before the child has written the end time. -/
theorem Timed.not_logged {l : ChildPoint} (h : Timed n s) (hp : s.child = l)
    (hl : l.underWay = true) (total : Int) : s.logged ≠ some total := by
  intro ht
  subst hp
  exact ChildPoint.ne_of_underWay hl rfl (h.logged total ht).1

/-- The child goes on to a point where it has not seen the end of the stream. -/
theorem Timed.child {l l' : ChildPoint} {alive : Bool} {ends : Ends} {pinned fifo : Bool}
    {parentToChild childToParent incoming : List UInt8} (h : Timed n s)
    (hp : s.child = l) (hl : l.underWay = true) (hl' : l'.sawEof = false) :
    Timed n { s with
      child := l', childAlive := alive, childEnds := ends, pinned, fifo, parentToChild,
      childToParent, incoming } :=
  { h with
    eof := fun hc => absurd (hl'.symm.trans hc) Bool.false_ne_true
    logged := fun total ht => absurd ht (h.not_logged hp hl total) }

/-- The child exits or is killed, with any bytes left in the pipe it reads. -/
theorem Timed.childToGone (h : Timed n s) (rest : List UInt8) :
    Timed n { s with parentToChild := rest }.childGone :=
  { h with }

/-- The next call of the child keeps the invariant. -/
theorem child_timed (h : Timed n s) (hm : ChildMoves s s') : Timed n s' := by
  cases hm with
  | gone rest => exact h.childToGone rest
  | pinned hp | scheduled hp | closedWrite hp | closedRead hp | started hp | wroteReady hp
  | received hp =>
    exact h.child hp rfl rfl
  | sawEof hp hempty hclosed =>
    -- the server has closed its side, so that all has been sent
    have hshut := h.closed hclosed
    obtain ⟨hsent, -⟩ := h.shut hshut
    have huse : s.use = { sent := requests n.toNat, shut := true } := by
      rw [State.use, hsent, hshut]
    exact { h with
      eof := fun _ => ⟨hshut, congrArg some huse⟩
      logged := fun total ht => absurd ht (h.not_logged hp rfl total) }
  | tookRecvDone hp =>
    obtain ⟨hshut, hatEof⟩ := h.eof (by rw [hp]; rfl)
    obtain ⟨-, ticks, hticks, hle⟩ := (h.shut hshut).2
    exact { h with
      eof := fun _ => ⟨hshut, hatEof⟩
      times := fun x hx => by
        cases hx
        exact ⟨hshut, ticks, hticks, hle.trans (Int.le_of_eq (toInt_now h.clock).symm)⟩
      logged := fun total ht => absurd ht (h.not_logged hp rfl total) }
  | wroteEnd hp =>
    have heof := h.eof (by rw [hp]; rfl)
    exact { h with
      eof := fun _ => heof
      logged := fun total ht => absurd ht (h.not_logged hp rfl total) }

/-! ## The theorem -/

/-- The invariant holds at the start. -/
theorem timed_start : Timed n start where
  clock := by decide
  sending := ⟨rfl, rfl, rfl⟩
  shut := fun h => Bool.noConfusion h
  closed := fun h => Bool.noConfusion h
  eof := fun h => Bool.noConfusion h
  times := fun x h => by cases h
  logged := fun total h => by cases h

/-- Every step keeps the invariant, when the server does not close its side early. -/
theorem timed_step (hinv : Inv s) (h : Timed n s) (hc : LateClose s e) (hs : step n s e = some s') :
    Timed n s' := by
  cases moves_of_step hs with
  | parent _ hm => exact parent_timed hinv h hm
  | child _ hm => exact child_timed h hm
  | killParent => exact h.parent h.sending
  | killChild => exact h.childToGone _
  | serverReads | serverSends => exact { h with }
  | serverCloses => exact { h with closed := fun _ => hc }
  | tick hlt => exact h.tick hlt

/-- Along a run in which the server does not close its side early, both invariants hold. -/
theorem reach_timed (h : Reach (step n) LateClose start s) : Inv s ∧ Timed n s :=
  h.invariant (I := fun s => Inv s ∧ Timed n s) ⟨inv_start, timed_start⟩
    fun _ _ _ hi hc hs => ⟨inv_step hi.1 hs, timed_step hi.1 hi.2 hc hs⟩

/-- When the server closes its side only after the client has shut down the sending side, the time
that is logged spans all requests and is not negative. -/
theorem covers_lateClose (numRequests : Int) (s : State)
    (h : Reach (step numRequests) LateClose start s) (total : Int) (hlog : s.logged = some total) :
    s.Covers numRequests total := by
  obtain ⟨-, htimed⟩ := reach_timed h
  obtain ⟨hfinished, htotal⟩ := htimed.logged total hlog
  obtain ⟨hshut, hatEof⟩ := htimed.eof (by rw [hfinished]; rfl)
  obtain ⟨-, hatStart, -⟩ := htimed.shut hshut
  refine ⟨hatStart, hatEof, htotal, ?_⟩
  obtain ⟨ticks, recvDone, hticks, hdone, rfl⟩ := htotal
  obtain ⟨-, ticks', hticks', hle⟩ := htimed.times recvDone hdone
  cases hticks.symm.trans hticks'
  omega

end

/-! ## One request -/

/-- A server that closes its side after the request: the whole time is logged. -/
theorem covers_oneRequest : ∃ s, Reach (step 1) LateClose start s ∧ s.Covers 1 20 := by
  have hlog : (exec (step 1) LateClose start (oneRequest ++ [.parent 0])).map (·.logged) =
      some (some 20) := by decide +kernel
  obtain ⟨s, hrun, hlogged⟩ := Option.map_eq_some_iff.1 hlog
  have hreach : Reach (step 1) LateClose start s := .of_exec _ hrun
  exact ⟨s, hreach, covers_lateClose 1 s hreach 20 hlogged⟩

/-- The server closes its side while the client sleeps, and the child takes the end time before the
parent takes the start time. -/
def closedEarly : List Event :=
  [.serverCloses, .tick 5000000000, .parent 0, .parent 100, .parent 0, .parent 0, .parent 0,
    .parent 0, .child 0, .child 0, .child 0, .child 0, .parent 1, .child 1, .child 1, .child 0,
    .child 0, .tick 10, .parent 1, .parent 0, .parent 0, .serverReads 48, .parent 48, .parent 0,
    .parent 0, .child 8, .parent 8, .child 0, .parent 100, .parent 0]

/-- A negative time is logged when the server closes its side before the start time is taken. -/
theorem ends_before_start : ¬ ∀ (numRequests : Int) (s : State), 1 ≤ numRequests →
    Reach (step numRequests) Free start s → ∀ total, s.logged = some total →
    s.Covers numRequests total := by
  intro h
  have hlog : (exec (step 1) Free start closedEarly).map (·.logged) = some (some (-10)) := by
    decide +kernel
  obtain ⟨s, hrun, hlogged⟩ := Option.map_eq_some_iff.1 hlog
  have hnonneg := (h 1 s (Int.le_refl 1) (.of_exec _ hrun) (-10) hlogged).nonneg
  exact absurd hnonneg (by decide)

end HttpClient
