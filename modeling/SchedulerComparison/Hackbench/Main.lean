import Mathlib.Logic.Function.Basic
import SchedulerComparison.Lib.Transition

/-!
# `main` of hackbench and its workers

`main` of `hackbench/hackbench.c` after `setjmp`, with `group`, `create_worker`, `reap_workers`,
`signal_workers` and `sigcatcher`, statement by statement, so that a signal can be delivered
between any two of those that something later depends on: what is printed is a part of the next
statement. The workers run up to and past `ready()`; what they do with the group's pipes is
in `Hackbench.Packets`, and here is only whether a sender has written a byte.

`Event.main ret` is the next statement of `main`, with `ret` the value that the system call in it
returns.
-/

open Transition

namespace Hackbench

/-- `INT_MAX`. -/
def intMax : UInt32 := 2147483647

/-- A counter below a 32-bit bound does not wrap. -/
theorem toNat_succ {i n : UInt32} (h : i.toNat < n.toNat) : (i + 1).toNat = i.toNat + 1 := by
  have hn := n.toNat_lt
  have h1 : (1 : UInt32).toNat = 1 := rfl
  rw [UInt32.toNat_add, h1]
  omega

/-- A counter that has reached its bound. -/
theorem toNat_le_of_not_lt {i n : UInt32} (h : ¬ i < n) : n.toNat ≤ i.toNat :=
  UInt32.le_iff_toNat_le.1 (UInt32.not_lt.1 h)

/-- The options that `main` depends on, as `process_options` accepts them: the `> 0` of its checks
compares an `unsigned int`, so that a negative argument passes. -/
structure Options where
  numGroups : UInt32
  numFds : UInt32
  fifo : Bool := false
  one_le_numGroups : 1 ≤ numGroups
  one_le_numFds : 1 ≤ numFds

/-- `sizeof(child_tab) / sizeof(childinfo_t)`: `num_fds * 2 * num_groups`, an unsigned int
(`hackbench.c:434`). -/
def Options.tabSize (o : Options) : UInt32 := o.numFds * 2 * o.numGroups

/-- The two signals that `main` catches. -/
inductive Sig where
  | int
  | term
  deriving DecidableEq

/-- What a worker was created to run. -/
inductive Func where
  | receiver
  | sender
  deriving DecidableEq

/-- Where a worker is: before the `write` of `ready()`, at its `poll`, past it, exited, and waited
for. -/
inductive Phase where
  | start
  | polling
  | running
  | zombie
  | reaped
  deriving DecidableEq

/-- A worker process. -/
structure Worker where
  pid : Int
  func : Func
  phase : Phase := .start
  signalled : Bool := false

/-- What `main` does after `reap_workers` has returned. -/
inductive After where
  | barf
  | report
  deriving DecidableEq

/-- The control points of `main`. In `group`, `i` is the loop variable of `main` and `j` that of
`group`; `c` is what `group` returned. -/
inductive MainPoint where
  | groupHead (i : UInt32)
  | sndMalloc (i : UInt32)
  | receiverHead (i j : UInt32)
  | receiverMalloc (i j : UInt32)
  | receiverPipe (i j : UInt32)
  | receiverFork (i j : UInt32)
  | receiverStore (i j : UInt32) (pid : Int)
  | senderHead (i j : UInt32)
  | senderFork (i j : UInt32)
  | senderStore (i j : UInt32) (pid : Int)
  | groupReturned (i c : UInt32)
  | count (i c : UInt32)
  | setScheduler
  | readyHead (i : UInt32)
  | readReady (i : UInt32)
  | startTime
  | wake
  | sigcatcher (sig : Sig)
  | longjmped
  | ignoreTerm
  | reapAll
  | reap (totchld : UInt32) (dokill : Bool) (after : After)
  | kill (k : Nat) (totchld : UInt32) (after : After)
  | waitHead (k totchld : UInt32) (after : After)
  | wait (k totchld : UInt32) (after : After)
  | report
  | freeTab
  | exit
  | exited (status : Int)
  deriving DecidableEq

/-- `main` has exited. -/
def MainPoint.isExited : MainPoint → Bool
  | .exited _ => true
  | _ => false

/-- The state of `main`, its workers and the two shared pipes. The first `forked` workers are
those that were forked, in this order. `tabFreed` and `delivered` are not variables of the source:
`child_tab` was freed, and a signal was delivered to `main`. -/
structure State where
  point : MainPoint
  totalChildren : UInt32
  childTab : Nat → Int
  tabFreed : Bool
  signalCaught : Bool
  catches : Sig → Bool
  timerStarted : Bool
  forked : Nat
  workers : Nat → Worker
  readyBytes : Nat
  wakeBytes : Nat
  dataWritten : Bool
  delivered : Bool

/-- What can happen next. -/
inductive Event where
  | main (ret : Int)
  | deliver (sig : Sig)
  /-- Worker `k` takes its next step through `ready()`. -/
  | worker (k : Nat)
  /-- Sender `k` writes to a receiver. -/
  | data (k : Nat)
  /-- Worker `k` returns from its function and exits. -/
  | exit (k : Nat)
  /-- A call of worker `k` fails, and it calls `barf`. -/
  | fail (k : Nat)
  /-- Worker `k` dies of the SIGTERM it was sent. -/
  | term (k : Nat)
  deriving DecidableEq

namespace State

/-- `main` continues at a control point. -/
def goto (s : State) (l : MainPoint) : State := { s with point := l }

/-- Worker `k` goes on to a phase. -/
def setPhase (s : State) (k : Nat) (x : Phase) : State :=
  { s with workers := Function.update s.workers k { s.workers k with phase := x } }

/-- `kill(pid, SIGTERM)`: it reaches the worker with that pid, or all of them for `0` and `-1`. -/
def sendTerm (s : State) (pid : Int) : State :=
  { s with workers := fun k =>
      if (s.workers k).pid = pid ∨ pid = 0 ∨ pid = -1 then
        { s.workers k with signalled := true }
      else s.workers k }

/-- `fork()` returns `-1`, or the pid of a new process. -/
def fork (s : State) (func : Func) (ret : Int) (k : Int → MainPoint) : Option State :=
  if ret = -1 then some (s.goto (k (-1)))
  else if 0 < ret ∧ ∀ i < s.forked, (s.workers i).pid ≠ ret then
    some { s with
      point := k ret
      forked := s.forked + 1
      workers := Function.update s.workers s.forked { pid := ret, func := func } }
  else none

/-- `child->pid = pid`, with `child` the entry `k` of `child_tab`: without a meaning outside of
the table. -/
def store (o : Options) (s : State) (k : UInt32) (pid : Int) (l : MainPoint) : Option State :=
  if k < o.tabSize then
    some { s with point := l, childTab := Function.update s.childTab k.toNat pid }
  else none

/-- `wait(&status)` returns `-1` when there is no child, or the pid of one that has exited. -/
def waitWorker (s : State) (ret : Int) (l : MainPoint) : Option State :=
  if ret = -1 then
    if ∀ i < s.forked, (s.workers i).phase = .reaped then some (s.goto l) else none
  else
    ((List.range s.forked).find? fun i =>
      (s.workers i).pid == ret && (s.workers i).phase == .zombie).map fun i =>
        (s.setPhase i .reaped).goto l

/-- `fork` fails, or gives a worker with a pid of its own. -/
theorem fork_cases {s s' : State} {func : Func} {ret : Int} {k : Int → MainPoint}
    (h : s.fork func ret k = some s') :
    ret = -1 ∧ s' = s.goto (k (-1)) ∨
      ret ≠ -1 ∧ 0 < ret ∧ (∀ i < s.forked, (s.workers i).pid ≠ ret) ∧
        s' = { s with
          point := k ret
          forked := s.forked + 1
          workers := Function.update s.workers s.forked { pid := ret, func := func } } := by
  unfold fork at h
  split at h
  · next hret =>
    cases h
    exact .inl ⟨hret, rfl⟩
  · next hret =>
    split at h <;> cases h
    next hpid => exact .inr ⟨hret, hpid.1, hpid.2, rfl⟩

/-- A pid is stored only in the table. -/
theorem store_cases {o : Options} {s s' : State} {k : UInt32} {pid : Int} {l : MainPoint}
    (h : s.store o k pid l = some s') :
    k < o.tabSize ∧
      s' = { s with point := l, childTab := Function.update s.childTab k.toNat pid } := by
  unfold store at h
  split at h <;> cases h
  next hk => exact ⟨hk, rfl⟩

/-- `wait` finds every worker reaped, or reaps one. -/
theorem waitWorker_cases {s s' : State} {ret : Int} {l : MainPoint}
    (h : s.waitWorker ret l = some s') :
    (ret = -1 ∧ (∀ i < s.forked, (s.workers i).phase = .reaped) ∧ s' = s.goto l) ∨
      ∃ i < s.forked, (s.workers i).pid = ret ∧ (s.workers i).phase = .zombie ∧
        s' = (s.setPhase i .reaped).goto l := by
  unfold waitWorker at h
  split at h
  · next hret =>
    split at h <;> cases h
    next hall => exact .inl ⟨hret, hall, rfl⟩
  · obtain ⟨i, hfind, rfl⟩ := Option.map_eq_some_iff.1 h
    have hi : i < s.forked := List.mem_range.1 (List.mem_of_find?_eq_some hfind)
    have hfound := List.find?_some hfind
    rw [Bool.and_eq_true, beq_iff_eq, beq_iff_eq] at hfound
    exact .inr ⟨i, hi, hfound.1, hfound.2, rfl⟩

theorem workers_setPhase (s : State) (k i : Nat) (x : Phase) :
    (s.setPhase k x).workers i =
      if i = k then { s.workers k with phase := x } else s.workers i := by
  unfold setPhase
  dsimp only
  split
  · next hi => rw [hi, Function.update_self]
  · next hi => rw [Function.update_of_ne hi]

@[simp] theorem pid_setPhase (s : State) (k i : Nat) (x : Phase) :
    ((s.setPhase k x).workers i).pid = (s.workers i).pid := by
  rw [workers_setPhase]
  split
  · next hi => rw [hi]
  · rfl

@[simp] theorem signalled_setPhase (s : State) (k i : Nat) (x : Phase) :
    ((s.setPhase k x).workers i).signalled = (s.workers i).signalled := by
  rw [workers_setPhase]
  split
  · next hi => rw [hi]
  · rfl

theorem phase_setPhase (s : State) (k i : Nat) (x : Phase) :
    ((s.setPhase k x).workers i).phase = if i = k then x else (s.workers i).phase := by
  rw [workers_setPhase]
  split <;> rfl

@[simp] theorem pid_sendTerm (s : State) (pid : Int) (i : Nat) :
    ((s.sendTerm pid).workers i).pid = (s.workers i).pid := by
  unfold sendTerm
  dsimp only
  split <;> rfl

@[simp] theorem phase_sendTerm (s : State) (pid : Int) (i : Nat) :
    ((s.sendTerm pid).workers i).phase = (s.workers i).phase := by
  unfold sendTerm
  dsimp only
  split <;> rfl

end State

/-- What `group` returns when receiver `j` could not be created: `i > 0 ? i-1 : 0`
(`hackbench.c:264`, `282`). -/
def receiverFailed (j : UInt32) : UInt32 := if 0 < j then j - 1 else 0

/-- The next statement of `main` (`hackbench.c:447-499`, with `group`, `:240`, `reap_workers`,
`:215`, `signal_workers`, `:205`, and `sigcatcher`, `:388`). -/
def mainStep (o : Options) (s : State) (ret : Int) : Option State :=
  match s.point with
  | .groupHead i => some (s.goto (if i < o.numGroups then .sndMalloc i else .setScheduler))
  | .sndMalloc i => some (s.goto (if ret ≠ 0 then .receiverHead i 0 else .groupReturned i 0))
  | .receiverHead i j =>
    some (s.goto (if j < o.numFds then .receiverMalloc i j else .senderHead i 0))
  | .receiverMalloc i j =>
    some (s.goto (if ret ≠ 0 then .receiverPipe i j else .groupReturned i (receiverFailed j)))
  | .receiverPipe i j => some (s.goto (if ret = 0 then .receiverFork i j else .exited 1))
  | .receiverFork i j => s.fork .receiver ret (.receiverStore i j)
  | .receiverStore i j pid =>
    s.store o (s.totalChildren + j) pid
      (if pid = -1 then .groupReturned i (receiverFailed j) else .receiverHead i (j + 1))
  | .senderHead i j =>
    some (s.goto (if j < o.numFds then .senderFork i j else .groupReturned i (o.numFds * 2)))
  | .senderFork i j => s.fork .sender ret (.senderStore i j)
  | .senderStore i j pid =>
    s.store o (s.totalChildren + o.numFds + j) pid
      (if pid = -1 then .groupReturned i (o.numFds + j - 1) else .senderHead i (j + 1))
  | .groupReturned i c =>
    some (s.goto (if c ≠ o.numFds * 2 then .reap (s.totalChildren + c) true .barf else .count i c))
  | .count i c =>
    some { s with point := .groupHead (i + 1), totalChildren := s.totalChildren + c }
  | .setScheduler =>
    some (s.goto (if o.fifo = true ∧ ret < 0 then .exited 1 else .readyHead 0))
  | .readyHead i =>
    some (s.goto (if i < s.totalChildren then .readReady i else .startTime))
  | .readReady i =>
    if ret = 1 then
      if 0 < s.readyBytes then
        some { s with point := .readyHead (i + 1), readyBytes := s.readyBytes - 1 }
      else none
    else some (s.goto (.reap s.totalChildren true .barf))
  | .startTime => some { s with point := .wake, timerStarted := true }
  | .wake =>
    if ret = 1 then some { s with point := .reapAll, wakeBytes := s.wakeBytes + 1 }
    else some (s.goto (.reap s.totalChildren true .barf))
  | .sigcatcher sig =>
    some { s with point := .longjmped, catches := Function.update s.catches sig false }
  | .longjmped =>
    some { s with point := .ignoreTerm, catches := Function.update s.catches .int false }
  | .ignoreTerm =>
    some { s with point := .reapAll, catches := Function.update s.catches .term false }
  | .reapAll => some (s.goto (.reap s.totalChildren s.signalCaught .report))
  | .reap n dokill after =>
    if dokill then
      some { s with point := .kill 0 n after, catches := Function.update s.catches .term false }
    else some (s.goto (.waitHead 0 n after))
  | .kill k n after =>
    if k < n.toNat then
      -- the table may be read until it is freed, and `int i` overflows after `INT_MAX`
      if s.tabFreed = false ∧ k + 1 < 2 ^ 31 then
        some ((s.sendTerm (s.childTab k)).goto (.kill (k + 1) n after))
      else none
    else some (s.goto (.waitHead 0 n after))
  | .waitHead k n after =>
    some (s.goto (if k < n then .wait k n after else
      match after with
      | .barf => .exited 1
      | .report => .report))
  | .wait k n after => s.waitWorker ret (.waitHead (k + 1) n after)
  | .report => some (s.goto .freeTab)
  | .freeTab =>
    -- a second `free` has no meaning
    if s.tabFreed = false then some { s with point := .exit, tabFreed := true } else none
  | .exit => some (s.goto (.exited 0))
  | .exited _ => none

/-- One step of hackbench. -/
def step (o : Options) (s : State) : Event → Option State
  | .main ret => mainStep o s ret
  | .deliver sig =>
    if s.point.isExited then none
    else if s.catches sig then
      some { s with point := .sigcatcher sig, signalCaught := true, delivered := true }
    else some { s with delivered := true }
  | .worker k =>
    match (s.workers k).phase with
    | .start =>
      if k < s.forked then
        some { s.setPhase k .polling with readyBytes := s.readyBytes + 1 }
      else none
    | .polling => if k < s.forked ∧ 0 < s.wakeBytes then some (s.setPhase k .running) else none
    | _ => none
  | .data k =>
    if k < s.forked ∧ (s.workers k).phase = .running ∧ (s.workers k).func = .sender then
      some { s with dataWritten := true }
    else none
  | .exit k =>
    if k < s.forked ∧ (s.workers k).phase = .running then some (s.setPhase k .zombie) else none
  | .fail k =>
    if k < s.forked ∧ (s.workers k).phase ≠ .zombie ∧ (s.workers k).phase ≠ .reaped then
      some (s.setPhase k .zombie)
    else none
  | .term k =>
    if k < s.forked ∧ (s.workers k).phase ≠ .zombie ∧ (s.workers k).phase ≠ .reaped ∧
        (s.workers k).signalled = true then
      some (s.setPhase k .zombie)
    else none

/-- `main` just after `setjmp` has returned `0`. -/
def start : State where
  point := .groupHead 0
  totalChildren := 0
  childTab := fun _ => 0
  tabFreed := false
  signalCaught := false
  catches := fun _ => true
  timerStarted := false
  forked := 0
  workers := fun _ => { pid := 0, func := .receiver }
  readyBytes := 0
  wakeBytes := 0
  dataWritten := false
  delivered := false

/-! ## What a step does -/

/-- The moves of hackbench: a statement of `main`, a signal that is caught or ignored, and what the
workers do. -/
inductive Moves (o : Options) (s : State) : Event → State → Prop
  | main {ret : Int} {s' : State} (hs : mainStep o s ret = some s') : Moves o s (.main ret) s'
  | caught {sig : Sig} (hl : s.point.isExited = false) (hc : s.catches sig = true) :
      Moves o s (.deliver sig)
        { s with point := .sigcatcher sig, signalCaught := true, delivered := true }
  | ignored {sig : Sig} (hl : s.point.isExited = false) (hc : s.catches sig = false) :
      Moves o s (.deliver sig) { s with delivered := true }
  | ready {k : Nat} (hk : k < s.forked) (hx : (s.workers k).phase = .start) :
      Moves o s (.worker k) { s.setPhase k .polling with readyBytes := s.readyBytes + 1 }
  | woken {k : Nat} (hk : k < s.forked) (hx : (s.workers k).phase = .polling)
      (hw : 0 < s.wakeBytes) : Moves o s (.worker k) (s.setPhase k .running)
  | data {k : Nat} (hk : k < s.forked) (hx : (s.workers k).phase = .running) :
      Moves o s (.data k) { s with dataWritten := true }
  | exit {k : Nat} (hk : k < s.forked) (hx : (s.workers k).phase = .running) :
      Moves o s (.exit k) (s.setPhase k .zombie)
  | fail {k : Nat} (hk : k < s.forked) (hx : (s.workers k).phase ≠ .reaped) :
      Moves o s (.fail k) (s.setPhase k .zombie)
  | term {k : Nat} (hk : k < s.forked) (hx : (s.workers k).phase ≠ .reaped) :
      Moves o s (.term k) (s.setPhase k .zombie)

/-- The steps of hackbench are these moves. -/
theorem moves_of_step {o : Options} {s s' : State} {e : Event} (h : step o s e = some s') :
    Moves o s e s' := by
  cases e with
  | main ret => exact .main h
  | deliver sig =>
    rw [step] at h
    split at h
    · cases h
    · next hl =>
      have hl := Bool.eq_false_iff.2 hl
      split at h
      · next hc => cases h; exact .caught hl hc
      · next hc => cases h; exact .ignored hl (Bool.eq_false_iff.2 hc)
  | worker k =>
    rw [step] at h
    split at h
    · next hx =>
      split at h
      · next hk => cases h; exact .ready hk hx
      · cases h
    · next hx =>
      split at h
      · next hk => cases h; exact .woken hk.1 hx hk.2
      · cases h
    · cases h
  | data k =>
    rw [step] at h
    split at h
    · next hk => cases h; exact .data hk.1 hk.2.1
    · cases h
  | exit k =>
    rw [step] at h
    split at h
    · next hk => cases h; exact .exit hk.1 hk.2
    · cases h
  | fail k =>
    rw [step] at h
    split at h
    · next hk => cases h; exact .fail hk.1 hk.2.2
    · cases h
  | term k =>
    rw [step] at h
    split at h
    · next hk => cases h; exact .term hk.1 hk.2.2.1
    · cases h

end Hackbench
