import Mathlib.Algebra.Order.BigOperators.Group.Finset
import SchedulerComparison.Hackbench.Stop

/-!
# The start barrier of hackbench

The workers write a byte to the ready pipe and poll the wake pipe; `main` reads a byte for every
worker and then writes one byte to the wake pipe, which nobody reads. `barrier` shows for the runs
in which nothing fails (`NoFault`) that a worker gets past its `poll` only after all workers have
been forked and have written their byte and the start time has been taken, and that after
the byte of `main` no `poll` blocks.

The invariant (`State.Gate`) counts the ready bytes: until `main` writes to the wake pipe, the
workers past the `write` of `ready()` are as many as the bytes in the ready pipe and those that
`main` has read (`State.Closed`). Workers start to run while others are still being created, so it
is kept from the first `fork` on; how many are forked and counted is the invariant of
`Hackbench.Stop`.
-/

open Transition

namespace Hackbench

/-! ## Runs in which nothing fails -/

/-- The call at a control point does not fail. -/
def MainPoint.Succeeds : MainPoint → Int → Prop
  | .sndMalloc _, ret | .receiverMalloc _ _, ret => ret ≠ 0
  | .receiverPipe _ _, ret => ret = 0
  | .receiverFork _ _, ret | .senderFork _ _, ret => ret ≠ -1
  | .setScheduler, ret => 0 ≤ ret
  | .readReady _, ret | .wake, ret => ret = 1
  | _, _ => True

instance (l : MainPoint) (ret : Int) : Decidable (l.Succeeds ret) := by
  cases l with
  | sndMalloc | receiverMalloc => exact inferInstanceAs (Decidable (ret ≠ 0))
  | receiverPipe => exact inferInstanceAs (Decidable (ret = 0))
  | receiverFork | senderFork => exact inferInstanceAs (Decidable (ret ≠ -1))
  | setScheduler => exact inferInstanceAs (Decidable (0 ≤ ret))
  | readReady | wake => exact inferInstanceAs (Decidable (ret = 1))
  | _ => exact .isTrue trivial

/-- No call fails, no worker fails, and nobody is sent a signal. -/
def NoFault (s : State) : Event → Prop
  | .main ret => s.point.Succeeds ret
  | .worker _ | .data _ | .exit _ => True
  | .deliver _ | .fail _ | .term _ => False

instance (s : State) : ∀ e, Decidable (NoFault s e)
  | .main ret => inferInstanceAs (Decidable (s.point.Succeeds ret))
  | .worker _ | .data _ | .exit _ => .isTrue trivial
  | .deliver _ | .fail _ | .term _ => .isFalse id

/-- The worker has returned from `ready()`. -/
def Phase.pastReady : Phase → Bool
  | .start | .polling => false
  | .running | .zombie | .reaped => true

/-! ## The invariant -/

/-- The number of ready bytes that a worker has written. -/
def Worker.readyWritten (w : Worker) : Nat := if w.phase = .start then 0 else 1

/-- The number of ready bytes that the workers have written. -/
def State.readyWritten (s : State) : Nat :=
  ∑ k ∈ Finset.range s.forked, (s.workers k).readyWritten

/-- The number of workers of all groups. -/
def Options.workers (o : Options) : Nat := o.numGroups.toNat * 2 * o.numFds.toNat

/-- `main` has not written to the wake pipe, and has read `read` bytes from the ready pipe. -/
structure State.Closed (s : State) (read : Nat) : Prop where
  wake : s.wakeBytes = 0
  data : s.dataWritten = false
  waits : ∀ k < s.forked, (s.workers k).phase = .start ∨ (s.workers k).phase = .polling
  bytes : s.readyWritten = s.readyBytes + read

/-- `main` has written to the wake pipe. -/
structure State.Open (o : Options) (s : State) : Prop where
  wake : s.wakeBytes = 1
  forked : s.forked = o.workers
  ready : ∀ k < s.forked, (s.workers k).phase ≠ .start
  timer : s.timerStarted = true

/-- `i` whole groups are counted. -/
def State.Groups (o : Options) (s : State) (i : Nat) : Prop :=
  s.totalChildren.toNat = i * (2 * o.numFds.toNat)

/-- What holds at a control point of `main`. -/
def State.Gate (o : Options) (s : State) : MainPoint → Prop
  | .groupHead i => s.Closed 0 ∧ s.Groups o i.toNat ∧ i.toNat ≤ o.numGroups.toNat
  | .sndMalloc i | .receiverHead i _ | .receiverMalloc i _ | .receiverPipe i _
  | .receiverFork i _ | .senderHead i _ | .senderFork i _ =>
    s.Closed 0 ∧ s.Groups o i.toNat ∧ i.toNat < o.numGroups.toNat
  | .receiverStore i _ pid | .senderStore i _ pid =>
    (s.Closed 0 ∧ s.Groups o i.toNat ∧ i.toNat < o.numGroups.toNat) ∧ pid ≠ -1
  | .groupReturned i c | .count i c =>
    (s.Closed 0 ∧ s.Groups o i.toNat ∧ i.toNat < o.numGroups.toNat) ∧ c = o.numFds * 2 ∧
      2 * o.numFds.toNat < 2 ^ 32
  | .setScheduler => s.Closed 0 ∧ s.Groups o o.numGroups.toNat
  | .readyHead i => s.Closed i.toNat ∧ s.Groups o o.numGroups.toNat ∧
      i.toNat ≤ s.totalChildren.toNat
  | .readReady i => s.Closed i.toNat ∧ s.Groups o o.numGroups.toNat ∧
      i.toNat < s.totalChildren.toNat
  | .startTime => s.Closed s.totalChildren.toNat ∧ s.Groups o o.numGroups.toNat
  | .wake => s.Closed s.totalChildren.toNat ∧ s.Groups o o.numGroups.toNat ∧
      s.timerStarted = true
  | .sigcatcher _ | .longjmped | .ignoreTerm => False
  | .reapAll | .reap _ _ _ | .kill _ _ _ | .waitHead _ _ _ | .wait _ _ _ | .report | .freeTab
  | .exit | .exited _ => s.Open o

section
variable {o : Options} {s s' : State} {e : Event} {n : Nat}

/-- The gate depends only on the workers, the pipes, the count and the timer. -/
theorem State.Gate.congr {l : MainPoint} (h : s.Gate o l)
    (hclosed : ∀ r, s.Closed r → s'.Closed r) (hopen : s.Open o → s'.Open o)
    (htotal : s'.totalChildren = s.totalChildren) (htimer : s'.timerStarted = s.timerStarted) :
    s'.Gate o l := by
  have hgroups : ∀ i, s.Groups o i → s'.Groups o i := by
    intro i hi
    unfold State.Groups
    rw [htotal]
    exact hi
  cases l with
  | groupHead | sndMalloc | receiverHead | receiverMalloc | receiverPipe | receiverFork
  | senderHead | senderFork => exact ⟨hclosed _ h.1, hgroups _ h.2.1, h.2.2⟩
  | receiverStore | senderStore | groupReturned | count =>
    exact ⟨⟨hclosed _ h.1.1, hgroups _ h.1.2.1, h.1.2.2⟩, h.2⟩
  | setScheduler => exact ⟨hclosed _ h.1, hgroups _ h.2⟩
  | readyHead | readReady => exact ⟨hclosed _ h.1, hgroups _ h.2.1, htotal ▸ h.2.2⟩
  | startTime => exact ⟨htotal ▸ hclosed _ h.1, hgroups _ h.2⟩
  | wake => exact ⟨htotal ▸ hclosed _ h.1, hgroups _ h.2.1, htimer.trans h.2.2⟩
  | sigcatcher | longjmped | ignoreTerm => exact h
  | reapAll | reap | kill | waitHead | wait | report | freeTab | exit | exited => exact hopen h

/-- A state with the same workers and pipes. -/
theorem State.Closed.of_eq (h : s.Closed n) (hf : s'.forked = s.forked)
    (hw : s'.workers = s.workers) (hr : s'.readyBytes = s.readyBytes)
    (hk : s'.wakeBytes = s.wakeBytes) (hd : s'.dataWritten = s.dataWritten) :
    s'.Closed n := by
  refine ⟨hk.trans h.wake, hd.trans h.data, ?_, ?_⟩
  · rw [hf, hw]
    exact h.waits
  · unfold State.readyWritten
    rw [hf, hw, hr]
    exact h.bytes

/-- A state with the same workers and pipes. -/
theorem State.Open.of_eq (h : s.Open o) (hf : s'.forked = s.forked)
    (hw : s'.workers = s.workers) (hk : s'.wakeBytes = s.wakeBytes)
    (ht : s'.timerStarted = s.timerStarted) : s'.Open o := by
  refine ⟨hk.trans h.wake, hf.trans h.forked, ?_, ht.trans h.timer⟩
  rw [hf, hw]
  exact h.ready

/-! ## Steps of the workers -/

/-- A worker that has not written its ready byte writes it. -/
theorem State.Closed.write {k : Nat} (h : s.Closed n) (hk : k < s.forked)
    (hstart : (s.workers k).phase = .start) :
    State.Closed { s.setPhase k .polling with readyBytes := s.readyBytes + 1 } n := by
  refine ⟨h.wake, h.data, fun i hi => ?_, ?_⟩
  · change ((s.setPhase k .polling).workers i).phase = .start ∨
      ((s.setPhase k .polling).workers i).phase = .polling
    rw [State.phase_setPhase]
    split
    · exact .inr rfl
    · exact h.waits i hi
  · have hsum := sum_update (Finset.range s.forked) s.workers Worker.readyWritten
      (Finset.mem_range.2 hk) { s.workers k with phase := .polling }
    have hold : (s.workers k).readyWritten = 0 := if_pos hstart
    have hnew : Worker.readyWritten { s.workers k with phase := .polling } = 1 := rfl
    have hbytes : ∑ i ∈ Finset.range s.forked, (s.workers i).readyWritten =
        s.readyBytes + n := h.bytes
    show ∑ i ∈ Finset.range s.forked, (Function.update s.workers k _ i).readyWritten =
      s.readyBytes + 1 + n
    rw [hold, hnew] at hsum
    omega

/-- A worker that goes on past its `poll` has written its ready byte. -/
theorem State.Open.setPhase {k : Nat} {x : Phase} (h : s.Open o) (hx : x ≠ .start) :
    (s.setPhase k x).Open o := by
  refine ⟨h.wake, h.forked, fun i hi => ?_, h.timer⟩
  rw [State.phase_setPhase]
  split
  · exact hx
  · exact h.ready i hi

/-- While the gate is closed no worker is past `ready()`. -/
theorem State.Closed.not_running {k : Nat} (h : s.Closed n) (hk : k < s.forked) :
    (s.workers k).phase ≠ .running := by
  intro hrun
  rcases h.waits k hk with hphase | hphase
  · rw [hphase] at hrun
    cases hrun
  · rw [hphase] at hrun
    cases hrun

/-! ## Steps of `main` -/

/-- `main` forks a worker, which has not written its ready byte. -/
theorem State.Closed.fork {func : Func} {ret : Int} {k : Int → MainPoint} (h : s.Closed n)
    (hret : ret ≠ -1) (hs : s.fork func ret k = some s') :
    s'.Closed n ∧ s'.point = k ret ∧ s'.totalChildren = s.totalChildren := by
  obtain ⟨hfail, -⟩ | ⟨-, -, -, rfl⟩ := State.fork_cases hs
  · exact absurd hfail hret
  · refine ⟨⟨h.wake, h.data, ?_, ?_⟩, rfl, rfl⟩
    · exact forall_update_succ (P := fun _ (w : Worker) => w.phase = .start ∨ w.phase = .polling)
        h.waits (.inl rfl)
    · have hsum : ∑ i ∈ Finset.range s.forked, (Function.update s.workers s.forked
          ({ pid := ret, func := func } : Worker) i).readyWritten = s.readyWritten :=
        Finset.sum_congr rfl fun i hi => by
          rw [Function.update_of_ne (Nat.ne_of_lt (Finset.mem_range.1 hi))]
      show ∑ i ∈ Finset.range (s.forked + 1),
        (Function.update s.workers s.forked _ i).readyWritten = s.readyBytes + n
      rw [Finset.sum_range_succ, hsum, Function.update_self]
      exact h.bytes

/-- When `main` has read as many bytes as there are workers, every one has written its own. -/
theorem State.Closed.allReady (h : s.Closed s.forked) :
    ∀ k < s.forked, (s.workers k).phase ≠ .start := by
  intro k hk hstart
  have hsum : ∑ i ∈ Finset.range s.forked, (s.workers i).readyWritten = s.readyBytes + s.forked :=
    h.bytes
  have hle : ∀ i ∈ Finset.range s.forked, (s.workers i).readyWritten ≤ 1 := by
    intro i _
    unfold Worker.readyWritten
    split
    · exact Nat.zero_le 1
    · exact Nat.le_refl 1
  have hlt : ∑ i ∈ Finset.range s.forked, (s.workers i).readyWritten <
      ∑ _i ∈ Finset.range s.forked, 1 := by
    refine Finset.sum_lt_sum hle ⟨k, Finset.mem_range.2 hk, ?_⟩
    rw [show (s.workers k).readyWritten = 0 from if_pos hstart]
    exact Nat.zero_lt_one
  rw [Finset.sum_const, Finset.card_range, Nat.nsmul_eq_mul, Nat.mul_one] at hlt
  omega

/-- `main` reads a ready byte. -/
theorem State.Closed.read (h : s.Closed n) (hb : 0 < s.readyBytes) (l : MainPoint) :
    State.Closed { s with point := l, readyBytes := s.readyBytes - 1 } (n + 1) := by
  refine ⟨h.wake, h.data, h.waits, ?_⟩
  have hbytes : s.readyWritten = s.readyBytes + n := h.bytes
  show s.readyWritten = s.readyBytes - 1 + (n + 1)
  omega

/-- `main` writes the wake byte. -/
theorem State.Closed.open (h : s.Closed s.totalChildren.toNat)
    (hforked : s.forked = s.totalChildren.toNat) (hgroups : s.Groups o o.numGroups.toNat)
    (htimer : s.timerStarted = true) (l : MainPoint) :
    State.Open o { s with point := l, wakeBytes := s.wakeBytes + 1 } := by
  refine ⟨?_, ?_, ?_, htimer⟩
  · show s.wakeBytes + 1 = 1
    rw [h.wake]
  · show s.forked = o.workers
    rw [hforked, show s.totalChildren.toNat = _ from hgroups, Options.workers, Nat.mul_assoc]
  · rw [← hforked] at h
    exact h.allReady

/-- `main` goes on to another control point. -/
theorem State.Gate.goto {l : MainPoint} (h : s.Gate o l) : (s.goto l).Gate o l :=
  h.congr (fun _ hc => hc.of_eq rfl rfl rfl rfl rfl) (fun ho => ho.of_eq rfl rfl rfl rfl) rfl rfl

/-- Creating the groups. -/
theorem groups_gate {ret : Int} (hinv : Inv o s.core s.point) (h : s.Gate o s.point)
    (hpart : s.point.part = .groups) (hC : NoFault s (.main ret))
    (hs : mainStep o s ret = some s') : s'.Gate o s'.point := by
  have hat := hinv.at_point
  unfold NoFault at hC
  cases hp : s.point <;> rw [hp] at h hat hC hpart <;> simp only [mainStep, hp] at hs
  case groupHead i =>
    obtain ⟨hclosed, hgroups, hle⟩ := h
    cases hs
    refine State.Gate.goto ?_
    split
    · next hi => exact ⟨hclosed, hgroups, UInt32.lt_iff_toNat_lt.1 hi⟩
    · next hi => exact ⟨hclosed, Nat.le_antisymm hle (toNat_le_of_not_lt hi) ▸ hgroups⟩
  case sndMalloc i =>
    rw [if_pos (show ret ≠ 0 from hC)] at hs
    cases hs
    exact State.Gate.goto h
  case receiverHead i j =>
    cases hs
    refine State.Gate.goto ?_
    split
    · exact h
    · exact h
  case receiverMalloc i j =>
    rw [if_pos (show ret ≠ 0 from hC)] at hs
    cases hs
    exact State.Gate.goto h
  case receiverPipe i j =>
    rw [if_pos (show ret = 0 from hC)] at hs
    cases hs
    exact State.Gate.goto h
  case receiverFork i j | senderFork i j =>
    obtain ⟨hclosed, hgroups, hlt⟩ := h
    obtain ⟨hclosed', hpoint, htotal⟩ := hclosed.fork hC hs
    rw [hpoint]
    refine ⟨⟨hclosed', ?_, hlt⟩, hC⟩
    unfold State.Groups
    rw [htotal]
    exact hgroups
  case receiverStore i j pid | senderStore i j pid =>
    obtain ⟨hg, hpid⟩ := h
    rw [if_neg hpid] at hs
    obtain ⟨-, rfl⟩ := State.store_cases hs
    exact ⟨hg.1.of_eq rfl rfl rfl rfl rfl, hg.2⟩
  case senderHead i j =>
    cases hs
    refine State.Gate.goto ?_
    split
    · exact h
    · next hj =>
      -- the slots of the whole group are in the table
      have hj := toNat_le_of_not_lt hj
      have hsize := hat.2.size
      have htab := o.tabSize.toNat_lt
      exact ⟨h, rfl, by omega⟩
  case groupReturned i c =>
    rw [if_neg (not_not_intro h.2.1)] at hs
    cases hs
    exact State.Gate.goto h
  case count i c =>
    obtain ⟨⟨hclosed, hgroups, hlt⟩, hc, hw⟩ := h
    obtain ⟨f, hb, -, hf⟩ := hat
    have htotal : (s.totalChildren + c).toNat = s.totalChildren.toNat + c.toNat := by
      rw [hf hw]
      exact toNat_totalChildren_add hb.size (hf hw)
    have hi : (i + 1).toNat = i.toNat + 1 := toNat_succ hlt
    have hfds := toNat_numFds_two hw
    cases hs
    refine ⟨hclosed.of_eq rfl rfl rfl rfl rfl, ?_, by omega⟩
    show (s.totalChildren + c).toNat = (i + 1).toNat * (2 * o.numFds.toNat)
    rw [htotal, hi, hc, hfds, Nat.add_one_mul i.toNat]
    exact congrArg (· + 2 * o.numFds.toNat) hgroups
  all_goals cases hpart

/-- Waiting for the ready bytes, and waking the workers. -/
theorem ready_gate {ret : Int} (hinv : Inv o s.core s.point) (h : s.Gate o s.point)
    (hpart : s.point.part = .ready) (hC : NoFault s (.main ret))
    (hs : mainStep o s ret = some s') : s'.Gate o s'.point := by
  have hat := hinv.at_point
  unfold NoFault at hC
  cases hp : s.point <;> rw [hp] at h hat hC hpart <;> simp only [mainStep, hp] at hs
  case setScheduler =>
    have hret : 0 ≤ ret := hC
    rw [if_neg fun hf => absurd hf.2 (Int.not_lt.2 hret)] at hs
    cases hs
    exact State.Gate.goto ⟨h.1, h.2, Nat.zero_le _⟩
  case readyHead i =>
    obtain ⟨hclosed, hgroups, hle⟩ := h
    cases hs
    refine State.Gate.goto ?_
    split
    · next hi => exact ⟨hclosed, hgroups, UInt32.lt_iff_toNat_lt.1 hi⟩
    · next hi => exact ⟨Nat.le_antisymm hle (toNat_le_of_not_lt hi) ▸ hclosed, hgroups⟩
  case readReady i =>
    obtain ⟨hclosed, hgroups, hlt⟩ := h
    rw [if_pos (show ret = 1 from hC)] at hs
    split at hs
    · next hb =>
      have hi : (i + 1).toNat = i.toNat + 1 := toNat_succ hlt
      cases hs
      refine ⟨?_, hgroups, ?_⟩
      · rw [hi]
        exact hclosed.read hb _
      · show (i + 1).toNat ≤ s.totalChildren.toNat
        omega
    · cases hs
  case startTime =>
    cases hs
    exact ⟨h.1.of_eq rfl rfl rfl rfl rfl, h.2, rfl⟩
  case wake =>
    have hb : s.core.Building o 0 0 := hat
    have hgroups : s.totalChildren.toNat = o.numGroups.toNat * (2 * o.numFds.toNat) := h.2.1
    have hle : 1 * (2 * o.numFds.toNat) ≤ o.numGroups.toNat * (2 * o.numFds.toNat) :=
      Nat.mul_le_mul_right _ (UInt32.le_iff_toNat_le.1 o.one_le_numGroups)
    have hlt := s.totalChildren.toNat_lt
    rw [if_pos (show ret = 1 from hC)] at hs
    cases hs
    exact h.1.open (hb.exact (by omega)) h.2.1 h.2.2 _
  all_goals cases hpart

/-- Reaping the workers, which have been woken. -/
theorem reaping_gate {ret : Int} (h : s.Gate o s.point) (hpart : s.point.part = .reaping)
    (hs : mainStep o s ret = some s') : s'.Gate o s'.point := by
  cases hp : s.point <;> rw [hp] at h hpart <;> simp only [mainStep, hp] at hs
  case sigcatcher | longjmped | ignoreTerm => exact h.elim
  case reapAll =>
    cases hs
    exact State.Gate.goto (show s.Open o from h)
  case reap n dokill after =>
    split at hs
    · cases hs
      exact State.Open.of_eq h rfl rfl rfl rfl
    · cases hs
      exact State.Gate.goto (show s.Open o from h)
  case kill k n after =>
    split at hs
    · split at hs
      · cases hs
        refine ⟨h.wake, h.forked, fun i hi => ?_, h.timer⟩
        exact (s.phase_sendTerm (s.childTab k) i).trans_ne (h.ready i hi)
      · cases hs
    · cases hs
      exact State.Gate.goto (show s.Open o from h)
  case waitHead k n after =>
    cases hs
    refine State.Gate.goto ?_
    split
    · exact h
    · cases after with
      | barf => exact h
      | report => exact h
  case wait k n after =>
    obtain ⟨-, -, rfl⟩ | ⟨i, -, -, -, rfl⟩ := State.waitWorker_cases hs
    · exact State.Gate.goto (show s.Open o from h)
    · exact (State.Open.setPhase h (by decide)).of_eq rfl rfl rfl rfl
  case report | exit =>
    cases hs
    exact State.Gate.goto (show s.Open o from h)
  case freeTab =>
    split at hs <;> cases hs
    exact State.Open.of_eq h rfl rfl rfl rfl
  case exited => cases hs
  all_goals cases hpart

/-- The next statement of `main` keeps the gate, when no call fails. -/
theorem gate_main {ret : Int} (hinv : Inv o s.core s.point) (h : s.Gate o s.point)
    (hC : NoFault s (.main ret)) (hs : mainStep o s ret = some s') : s'.Gate o s'.point := by
  cases hpart : s.point.part with
  | groups => exact groups_gate hinv h hpart hC hs
  | ready => exact ready_gate hinv h hpart hC hs
  | reaping => exact reaping_gate h hpart hs

/-! ## The theorem -/

/-- The gate is closed at the start. -/
theorem gate_start (o : Options) : start.Gate o start.point :=
  ⟨⟨rfl, rfl, fun _ hi => absurd hi (Nat.not_lt_zero _), rfl⟩, (Nat.zero_mul _).symm,
    Nat.zero_le _⟩

/-- Every step in which nothing fails keeps the gate. -/
theorem gate_step (hinv : Inv o s.core s.point) (h : s.Gate o s.point) (hC : NoFault s e)
    (hs : step o s e = some s') : s'.Gate o s'.point := by
  cases moves_of_step hs with
  | main hs => exact gate_main hinv h hC hs
  | ready hk hx =>
    exact h.congr (fun _ hc => hc.write hk hx) (fun ho => absurd hx (ho.ready _ hk)) rfl rfl
  | woken hk hx hw =>
    refine h.congr (fun _ hc => ?_) (fun ho => ho.setPhase nofun) rfl rfl
    exact absurd hc.wake (Nat.ne_of_gt hw)
  | data hk hx =>
    refine h.congr (fun _ hc => ?_) (fun ho => ho.of_eq rfl rfl rfl rfl) rfl rfl
    exact absurd hx (hc.not_running hk)
  | exit hk hx =>
    refine h.congr (fun _ hc => ?_) (fun ho => ho.setPhase nofun) rfl rfl
    exact absurd hx (hc.not_running hk)
  | caught | ignored | fail | term => exact hC.elim

/-- The gate holds in every state that a run in which nothing fails reaches. -/
theorem reach_gate (h : Reach (step o) NoFault start s) : s.Gate o s.point := by
  have hall : Inv o s.core s.point ∧ s.Gate o s.point := by
    refine h.invariant (I := fun s => Inv o s.core s.point ∧ s.Gate o s.point)
      ⟨inv_start o, gate_start o⟩ ?_
    rintro s e s' ⟨hinv, hg⟩ hC hs
    exact ⟨step_inv hinv hs, gate_step hinv hg hC hs⟩
  exact hall.2

/-- The gate is closed or open. -/
theorem State.Gate.cases {l : MainPoint} (h : s.Gate o l) : (∃ n, s.Closed n) ∨ s.Open o := by
  cases l with
  | groupHead | sndMalloc | receiverHead | receiverMalloc | receiverPipe | receiverFork
  | senderHead | senderFork | setScheduler | readyHead | readReady | startTime | wake =>
    exact .inl ⟨_, h.1⟩
  | receiverStore | senderStore | groupReturned | count => exact .inl ⟨_, h.1.1⟩
  | sigcatcher | longjmped | ignoreTerm => exact h.elim
  | reapAll | reap | kill | waitHead | wait | report | freeTab | exit | exited => exact .inr h

/-- Nobody takes a byte out of the wake pipe. -/
theorem wakeBytes_le (hs : step o s e = some s') : s.wakeBytes ≤ s'.wakeBytes := by
  cases moves_of_step hs with
  | main hs => exact (main_keeps hs).2.2.1
  | caught | ignored | ready | woken | data | exit | fail | term => exact Nat.le_refl _

/-- All workers have been forked and have written their ready byte, and the start time has been
taken. -/
structure State.AllReady (o : Options) (s : State) : Prop where
  forked : s.forked = o.workers
  ready : ∀ k < o.workers, (s.workers k).phase ≠ .start
  timer : s.timerStarted = true

/-- The open gate lets every worker pass. -/
theorem State.Open.allReady (h : s.Open o) : s.AllReady o :=
  ⟨h.forked, fun k hk => h.ready k (h.forked ▸ hk), h.timer⟩

/-- Behind a closed gate nothing happens. -/
theorem State.Closed.quiet (h : s.Closed n) :
    s.dataWritten = false ∧ ∀ k < s.forked, (s.workers k).phase.pastReady = false := by
  refine ⟨h.data, fun k hk => ?_⟩
  rcases h.waits k hk with hphase | hphase
  · rw [hphase]
    rfl
  · rw [hphase]
    rfl

/-- The start barrier. When a worker has returned from `ready()` or a sender has written data, all
workers are ready and the start time has been taken. Once `main` has written the wake byte,
all of them stay ready, and no `poll` blocks. -/
theorem barrier (o : Options) (s : State) (h : Reach (step o) NoFault start s) :
    (s.dataWritten = true ∨ (∃ k < s.forked, (s.workers k).phase.pastReady = true) →
        s.AllReady o) ∧
      (0 < s.wakeBytes → ∀ s', Reach (step o) NoFault s s' → s'.AllReady o ∧
        ∀ k < o.workers, (s'.workers k).phase = .polling →
          ∃ s'', step o s' (.worker k) = some s'' ∧ (s''.workers k).phase = .running) := by
  refine ⟨fun hpast => ?_, fun hw s' hr => ?_⟩
  · obtain ⟨n, hclosed⟩ | hopen := (reach_gate h).cases
    · obtain ⟨hdata, hphases⟩ := hclosed.quiet
      rcases hpast with hd | ⟨k, hk, hpast⟩
      · rw [hdata] at hd
        cases hd
      · rw [hphases k hk] at hpast
        cases hpast
    · exact hopen.allReady
  · have hw' : 0 < s'.wakeBytes :=
      hr.invariant (I := fun s => 0 < s.wakeBytes) hw fun _ _ _ hlt _ hs =>
        Nat.lt_of_lt_of_le hlt (wakeBytes_le hs)
    obtain ⟨n, hclosed⟩ | hopen := (reach_gate (h.trans hr)).cases
    · exact absurd hclosed.wake (Nat.ne_of_gt hw')
    · refine ⟨hopen.allReady, fun k hk hpoll => ⟨s'.setPhase k .running, ?_, ?_⟩⟩
      · have hforked : k < s'.forked := hopen.forked ▸ hk
        rw [step, hpoll]
        exact if_pos ⟨hforked, hw'⟩
      · rw [State.phase_setPhase, if_pos rfl]

end

/-- One group: the receiver writes its ready byte while the sender is still being created, `main`
wakes both, and the receiver has returned from `ready()`. -/
def wokenGroup : List Event :=
  [.main 0, .main 1, .main 0, .main 1, .main 0, .main 100, .worker 0, .main 0, .main 0, .main 0,
    .main 101] ++ List.replicate 7 (.main 0) ++ [.main 1, .worker 1, .main 0, .main 1] ++
    [.main 0, .main 0, .main 1, .worker 0]

/-- The sender, which still polls, is woken too. -/
theorem barrier_wokenGroup :
    ∃ s, Reach (step oneGroup) NoFault start s ∧ (s.workers 0).phase = .running ∧
      (s.workers 1).phase = .polling ∧ s.AllReady oneGroup ∧
        ∃ s', step oneGroup s (.worker 1) = some s' ∧ (s'.workers 1).phase = .running := by
  have h := barrier oneGroup _ (.of_exec wokenGroup rfl)
  exact ⟨_, .of_exec wokenGroup rfl, rfl, rfl, h.1 (.inr ⟨0, by decide, rfl⟩),
    (h.2 (by decide) _ .refl).2 1 (by decide) rfl⟩

end Hackbench
